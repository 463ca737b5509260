import MonkeyOS.Fs.RamFile

/-!
# MonkeyOS — regular files of the ram file system when memory runs out

`Fs/RamFile` follows a file whose frames are all granted. Here every `frame_alloc` of every
call may be refused, and the sum `offset + buffer.len()` of `writeat` wraps as a machine word.
What can then break is the one thing the read loop relies on, `len ≤ pages.len() * PAGE_SIZE`:

* `truncate` sets the length first and asks for the frames afterwards;
* `writeat` goes on with the frames it got, also when they end before `offset`: nothing is
  written, and the length still becomes `offset`.

The lemmas:

* `allocPages_eq` — how many frames a call gets (`granted`), and that it only adds those;
* `truncate_eq`, `writeatWord_eq_of_refused`, `writeatWord_eq_of_granted` — the calls by it;
* `RamCall.sound_iff` — one call keeps the file sound exactly when it is `Supplied`;
* `ramFile_sound_iff` — the same for a whole sequence of calls on a new file.
-/

namespace MonkeyOS

open Lib

/-- How many of the `n` frames wanted from page `i` on are granted before the first refusal. -/
def granted (frameAlloc : Nat → Option Page) : Nat → Nat → Nat
  | 0, _ => 0
  | n + 1, i => if (frameAlloc i).isSome then granted frameAlloc n (i + 1) + 1 else 0

theorem granted_le (frameAlloc : Nat → Option Page) (n i : Nat) : granted frameAlloc n i ≤ n := by
  induction n generalizing i with
  | zero => exact Nat.le_refl 0
  | succ n ih =>
    unfold granted
    split
    · exact Nat.succ_le_succ (ih (i + 1))
    · exact Nat.zero_le _

theorem allocPages_eq (frameAlloc : Nat → Option Page) (n : Nat) (pages : List Page) :
    ∃ frames : List Page, frames.length = granted frameAlloc n pages.length
      ∧ allocPages frameAlloc n pages
        = (decide (granted frameAlloc n pages.length = n), pages ++ frames) := by
  induction n generalizing pages with
  | zero => exact ⟨[], rfl, by simp [allocPages, granted]⟩
  | succ n ih =>
    unfold allocPages granted
    cases hframe : frameAlloc pages.length with
    | none => exact ⟨[], rfl, by simp⟩
    | some frame =>
      obtain ⟨frames, hlen, heq⟩ := ih (pages ++ [frame])
      rw [List.length_append, List.length_singleton] at hlen heq
      refine ⟨frame :: frames, by simp [hlen], ?_⟩
      show allocPages frameAlloc n (pages ++ [frame]) = _
      rw [heq, List.append_assoc, List.singleton_append]
      simp

theorem length_clearPast (pages : List Page) (size : Nat) :
    (RamFile.clearPast pages size).length = pages.length := by
  have hlen : (pages.take (divCeil size pageSize)
      ++ (pages.drop (divCeil size pageSize)).map (fun _ => Page.zero)).length = pages.length := by
    rw [List.length_append, List.length_map, List.length_take, List.length_drop]
    omega
  unfold RamFile.clearPast
  simp only
  split
  · rw [List.length_modify, hlen]
  · exact hlen

theorem length_writeLoop (buffer : List UInt8) (pages : List Page)
    (writeOffset bufferOff wsize : Nat) :
    (writeLoop buffer pages writeOffset bufferOff wsize).1.length = pages.length := by
  induction wsize using Nat.strong_induction_on generalizing pages writeOffset bufferOff with
  | _ wsize ih =>
    unfold writeLoop
    simp only
    split
    · rfl
    split
    · rfl
    · rw [ih _ (by omega), List.length_modify]

namespace RamFile

/-! ## `writeat` on machine words -/

/-- The page count of `writeat`: the sum wraps before it is divided. -/
def wordPages (offset n : Nat) : Nat := divCeil ((offset + n) % 2 ^ 64) pageSize

def writeatWord (f : RamFile) (frameAlloc : Nat → Option Page) (offset : Nat)
    (buffer : List UInt8) : Except Errno Nat × RamFile :=
  f.writeatPages frameAlloc (wordPages offset buffer.length) offset buffer

/-- Without a wrap it is the `writeat` of `Fs/RamFile`. -/
theorem writeatWord_eq_writeat (f : RamFile) (frameAlloc : Nat → Option Page) {offset : Nat}
    {buffer : List UInt8} (hwrap : offset + buffer.length < 2 ^ 64) :
    f.writeatWord frameAlloc offset buffer = f.writeat frameAlloc offset buffer := by
  unfold writeatWord wordPages
  rw [Nat.mod_eq_of_lt hwrap]
  rfl

/-- `exec` with the word-sized `writeat`. -/
def execWord (f : RamFile) (frameAlloc : Nat → Option Page) :
    RamCall → Option (RamAnswer × RamFile)
  | .writeat offset buffer =>
    let (res, f) := f.writeatWord frameAlloc offset buffer
    some (.written res, f)
  | call => f.exec frameAlloc call

/-! ## What the calls do with the frames they get -/

variable (f : RamFile) (frameAlloc : Nat → Option Page)

theorem truncate_eq (size : Nat) :
    ∃ g : RamFile, g.len = size
      ∧ g.pages.length = f.pages.length
        + granted frameAlloc (divCeil size pageSize - f.pages.length) f.pages.length
      ∧ f.truncate frameAlloc size
        = (if granted frameAlloc (divCeil size pageSize - f.pages.length) f.pages.length
            = divCeil size pageSize - f.pages.length then .ok () else .error .ENOMEM, g) := by
  obtain ⟨frames, hlen, heq⟩ := allocPages_eq frameAlloc (divCeil size pageSize - f.pages.length)
    (clearPast f.pages size)
  rw [length_clearPast] at hlen heq
  refine ⟨{ f with len := size, pages := clearPast f.pages size ++ frames }, rfl, ?_, ?_⟩
  · show (clearPast f.pages size ++ frames).length = _
    rw [List.length_append, length_clearPast, hlen]
  · simp only [truncate, heq, decide_eq_true_eq]

variable (offset n : Nat)

/-- The frames that `writeat` of `n` bytes asks for. -/
def wanted : Nat := wordPages offset n - f.pages.length

/-- The frames it gets. -/
def gotten : Nat := granted frameAlloc (f.wanted offset n) f.pages.length

/-- The first frame it asks for is refused. -/
def Refused : Prop := 0 < f.wanted offset n ∧ f.gotten frameAlloc offset n = 0

instance : Decidable (f.Refused frameAlloc offset n) := inferInstanceAs (Decidable (_ ∧ _))

variable {f frameAlloc offset} {buffer : List UInt8}

theorem writeatWord_eq_of_refused (h : f.Refused frameAlloc offset buffer.length) :
    f.writeatWord frameAlloc offset buffer = (.error .ENOMEM, f) := by
  obtain ⟨hwanted, hgot⟩ := h
  obtain ⟨frames, hlen, heq⟩ := allocPages_eq frameAlloc (f.wanted offset buffer.length) f.pages
  unfold gotten at hgot
  unfold wanted at hwanted hgot hlen heq
  have hnot : ¬ 0 = wordPages offset buffer.length - f.pages.length := by omega
  simp only [writeatWord, writeatPages, heq]
  rw [if_pos]
  simp [hnot, hlen, hgot]

/-- Otherwise the call succeeds: the length is raised to where the write offset ends, which is
`offset` itself when the frames do not reach it. -/
theorem writeatWord_granted (h : ¬ f.Refused frameAlloc offset buffer.length) :
    ∃ (n : Nat) (frames : List Page),
      n = min buffer.length
        ((f.pages.length + f.gotten frameAlloc offset buffer.length) * pageSize - offset)
      ∧ frames.length = f.gotten frameAlloc offset buffer.length
      ∧ f.writeatWord frameAlloc offset buffer = (.ok n, { f with
          pages := (writeLoop buffer (f.pages ++ frames) offset 0 n).1
          len := max f.len (offset + n) }) := by
  obtain ⟨frames, hlen, heq⟩ := allocPages_eq frameAlloc (f.wanted offset buffer.length) f.pages
  have hle := granted_le frameAlloc (f.wanted offset buffer.length) f.pages.length
  have hinner : (f.pages ++ frames).length
      = f.pages.length + f.gotten frameAlloc offset buffer.length := by
    rw [List.length_append, hlen]
    rfl
  obtain ⟨n, hn⟩ : ∃ n, n = min buffer.length
    ((f.pages.length + f.gotten frameAlloc offset buffer.length) * pageSize - offset) := ⟨_, rfl⟩
  -- the loop ends at `offset + n`, also when `offset` lies past the frames and `n` is zero
  have hend : (writeLoop buffer (f.pages ++ frames) offset 0 n).2 = offset + n := by
    by_cases hzero : n = 0
    · subst hzero
      unfold writeLoop
      simp
    · exact (writeLoop_eq buffer (f.pages ++ frames) offset 0 n (by rw [hinner]; omega)
        (by omega)).2
  refine ⟨n, frames, hn, hlen, ?_⟩
  have hgo : ¬ (!decide (granted frameAlloc (f.wanted offset buffer.length) f.pages.length
        = f.wanted offset buffer.length)
      && (f.pages ++ frames).length == f.pages.length) = true := by
    unfold Refused gotten at h
    rw [List.length_append, hlen, Bool.and_eq_true, beq_iff_eq, Bool.not_eq_true',
      decide_eq_false_iff_not]
    omega
  have hsize : min buffer.length
      (if offset < (f.pages.length + f.gotten frameAlloc offset buffer.length) * pageSize then
        (f.pages.length + f.gotten frameAlloc offset buffer.length) * pageSize - offset else 0) = n := by
    rw [hn]
    split <;> omega
  have hmax : (if offset + n > f.len then offset + n else f.len) = max f.len (offset + n) := by
    split <;> omega
  unfold wanted at heq hgo
  simp only [writeatWord, writeatPages, heq]
  rw [if_neg hgo]
  simp only [hinner, hsize, hend, hmax]

theorem writeatWord_eq_of_granted (h : ¬ f.Refused frameAlloc offset buffer.length) :
    ∃ (n : Nat) (g : RamFile),
      n = min buffer.length
        ((f.pages.length + f.gotten frameAlloc offset buffer.length) * pageSize - offset)
      ∧ g.pages.length = f.pages.length + f.gotten frameAlloc offset buffer.length
      ∧ g.len = max f.len (offset + n)
      ∧ f.writeatWord frameAlloc offset buffer = (.ok n, g) := by
  obtain ⟨n, frames, hn, hframes, heq⟩ := writeatWord_granted h
  refine ⟨n, _, hn, ?_, rfl, heq⟩
  rw [length_writeLoop, List.length_append, hframes]

/-! ## Sound files -/

/-- Every byte below the length has a frame. -/
def Sound (f : RamFile) : Prop := f.len ≤ f.pages.length * pageSize

/-- The bytes `readat` gives out. -/
def readable (f : RamFile) : List UInt8 := (content f.pages).take f.len

theorem Sound.readat_isSome (h : f.Sound) (offset : Nat) (buffer : List UInt8) :
    ∃ res, f.readat offset buffer = some res := by
  unfold readat
  split
  · exact ⟨_, rfl⟩
  unfold Sound at h
  simp only
  rw [readLoop_eq f.pages offset _ 0 buffer (by omega) (by omega)]
  exact ⟨_, rfl⟩

end RamFile

/-- A call and the frames that `frame_alloc` hands out while it runs. -/
abbrev AllocCall := RamCall × (Nat → Option Page)

def RamAnswer.OutOfMemory : RamAnswer → Prop
  | .written (.error .ENOMEM) => True
  | .truncated (.error .ENOMEM) => True
  | _ => False

def AllocStep (f : RamFile) (l : AllocCall) (g : RamFile) : Prop :=
  ∃ answer, f.execWord l.2 l.1 = some (answer, g)

/-- The call does not panic, leaves the file sound, and where it answers `ENOMEM` it leaves the
length and the readable bytes as they were. -/
def SoundCall (f : RamFile) (l : AllocCall) : Prop :=
  ∃ answer g, f.execWord l.2 l.1 = some (answer, g) ∧ g.Sound
    ∧ (answer.OutOfMemory → g.len = f.len ∧ g.readable = f.readable)

/-- `truncate` gets every frame it asks for. `writeat` is refused its first frame, or gets
enough of them to reach `offset`. -/
def Supplied (f : RamFile) : AllocCall → Prop
  | (.truncate size, frameAlloc) =>
    granted frameAlloc (divCeil size pageSize - f.pages.length) f.pages.length
      = divCeil size pageSize - f.pages.length
  | (.writeat offset buffer, frameAlloc) =>
    f.Refused frameAlloc offset buffer.length
      ∨ offset ≤ (f.pages.length + f.gotten frameAlloc offset buffer.length) * pageSize
  | _ => True

instance (f : RamFile) (l : AllocCall) : Decidable (Supplied f l) :=
  match l with
  | (.truncate _, _) => inferInstanceAs (Decidable (_ = _))
  | (.writeat _ _, _) => inferInstanceAs (Decidable (_ ∨ _))
  | (.readat _ _, _) => isTrue trivial
  | (.stat, _) => isTrue trivial

/-- A length set to `size` is covered by the frames exactly when none of them is missing. -/
theorem le_frames_iff {size n got : Nat} (hle : got ≤ divCeil size pageSize - n) :
    size ≤ (n + got) * pageSize ↔ got = divCeil size pageSize - n := by
  constructor
  · intro hsize
    have hceil : divCeil size pageSize ≤ n + got := divCeil_le_of_le_mul pageSize_pos hsize
    omega
  · intro hgot
    have hceil : divCeil size pageSize ≤ n + got := by omega
    calc size ≤ pageSize * divCeil size pageSize := le_mul_divCeil size pageSize_pos
      _ ≤ pageSize * (n + got) := Nat.mul_le_mul_left _ hceil
      _ = (n + got) * pageSize := Nat.mul_comm _ _

theorem truncate_sound_iff {f : RamFile} (size : Nat) (frameAlloc : Nat → Option Page) :
    SoundCall f (.truncate size, frameAlloc) ↔ Supplied f (.truncate size, frameAlloc) := by
  obtain ⟨g, hlen, hpages, heq⟩ := f.truncate_eq frameAlloc size
  have hexec : f.execWord frameAlloc (.truncate size) = some (.truncated
      (if granted frameAlloc (divCeil size pageSize - f.pages.length) f.pages.length
        = divCeil size pageSize - f.pages.length then .ok () else .error .ENOMEM), g) := by
    simp only [RamFile.execWord, RamFile.exec, heq]
  have hsound : g.Sound ↔ Supplied f (.truncate size, frameAlloc) := by
    unfold RamFile.Sound
    rw [hlen, hpages]
    exact le_frames_iff (granted_le _ _ _)
  constructor
  · rintro ⟨answer, g', hexec', hg', -⟩
    rw [hexec] at hexec'
    cases hexec'
    exact hsound.mp hg'
  · intro hsupplied
    refine ⟨_, g, hexec, hsound.mpr hsupplied, ?_⟩
    -- with every frame granted the answer is not `ENOMEM`
    rw [if_pos (show _ = _ from hsupplied)]
    exact False.elim

theorem writeat_sound_iff {f : RamFile} (hf : f.Sound) (offset : Nat) (buffer : List UInt8)
    (frameAlloc : Nat → Option Page) :
    SoundCall f (.writeat offset buffer, frameAlloc)
      ↔ Supplied f (.writeat offset buffer, frameAlloc) := by
  by_cases hrefused : f.Refused frameAlloc offset buffer.length
  · refine iff_of_true ⟨.written (.error .ENOMEM), f, ?_, hf, fun _ => ⟨rfl, rfl⟩⟩ (.inl hrefused)
    simp only [RamFile.execWord, RamFile.writeatWord_eq_of_refused hrefused]
  -- the only thing that can leave the frames behind is the offset
  obtain ⟨n, g, hn, hpages, hlen, heq⟩ := RamFile.writeatWord_eq_of_granted hrefused
  have hexec : f.execWord frameAlloc (.writeat offset buffer) = some (.written (.ok n), g) := by
    simp only [RamFile.execWord, heq]
  have hmono : f.len ≤ (f.pages.length + f.gotten frameAlloc offset buffer.length) * pageSize :=
    Nat.le_trans hf (Nat.mul_le_mul_right _ (Nat.le_add_right _ _))
  have hsound : g.Sound
      ↔ offset ≤ (f.pages.length + f.gotten frameAlloc offset buffer.length) * pageSize := by
    unfold RamFile.Sound
    rw [hlen, hpages]
    omega
  constructor
  · rintro ⟨answer, g', hexec', hg', -⟩
    rw [hexec] at hexec'
    cases hexec'
    exact .inr (hsound.mp hg')
  · intro hsupplied
    have hoffset := hsupplied.resolve_left hrefused
    exact ⟨_, g, hexec, hsound.mpr hoffset, False.elim⟩

/-- One call on a sound file. -/
theorem RamCall.sound_iff {f : RamFile} (hf : f.Sound) (l : AllocCall) :
    SoundCall f l ↔ Supplied f l := by
  obtain ⟨call, frameAlloc⟩ := l
  cases call with
  | readat offset buffer =>
    obtain ⟨res, hres⟩ := hf.readat_isSome offset buffer
    refine iff_of_true ⟨.read res.1 res.2, f, ?_, hf, False.elim⟩ trivial
    simp only [RamFile.execWord, RamFile.exec, hres, Option.map_some]
  | writeat offset buffer => exact writeat_sound_iff hf offset buffer frameAlloc
  | truncate size => exact truncate_sound_iff size frameAlloc
  | stat => exact iff_of_true ⟨_, f, rfl, hf, False.elim⟩ trivial

/-- **When a file stays sound.** Over every sequence of calls on a new file, with any frames
granted and refused along the way: all the calls are sound exactly when all of them are
supplied. -/
theorem ramFile_sound_iff (name : String) (times : TimeSpec × TimeSpec × TimeSpec)
    (calls : List AllocCall) :
    Throughout AllocStep SoundCall (RamFile.new name times) calls
      ↔ Throughout AllocStep Supplied (RamFile.new name times) calls := by
  have hnew : (RamFile.new name times).Sound := Nat.zero_le _
  refine throughout_iff (I := RamFile.Sound) (fun f l hf => RamCall.sound_iff hf l) ?_ hnew calls
  -- soundness of the file afterwards is part of what a sound call is
  intro f l g hf hsupplied hstep
  obtain ⟨answer, g', hexec, hg', -⟩ := (RamCall.sound_iff hf l).mpr hsupplied
  obtain ⟨answer', hexec'⟩ := hstep
  rw [hexec] at hexec'
  cases hexec'
  exact hg'

/-- Reading a byte below the length that has no frame is the panic of `inner[index]`. -/
theorem RamFile.readat_missing {f : RamFile} {offset : Nat} {b : UInt8} (hlen : offset < f.len)
    (hmissing : f.pages.length ≤ offset / pageSize) : f.readat offset [b] = none := by
  have hmod := Nat.mod_lt offset pageSize_pos
  have hone : min [b].length (f.len - offset) = 1 := by
    rw [List.length_singleton]
    omega
  unfold readat
  rw [if_neg (by omega)]
  simp only [hone]
  unfold readLoop
  simp only
  rw [dif_neg (by omega), List.getElem?_eq_none hmissing]
  rfl

/-- Only page 0 gets a frame. -/
def oneFrame : Nat → Option Page := fun i => if i = 0 then some Page.zero else none

/-- A refused truncate answers `ENOMEM` with the new length in place, and a write past the one
frame it got answers 0 bytes and raises the length to its offset. The next read panics. -/
theorem ramFile_length_past_frames :
    (∃ f : RamFile,
      (RamFile.new "a" ⟨⟨0, 0⟩, ⟨0, 0⟩, ⟨0, 0⟩⟩).execWord (fun _ => none) (.truncate 1)
        = some (.truncated (.error .ENOMEM), f)
      ∧ f.len = 1 ∧ f.pages.length = 0 ∧ f.readat 0 [0] = none)
    ∧ ∃ f : RamFile,
      (RamFile.new "a" ⟨⟨0, 0⟩, ⟨0, 0⟩, ⟨0, 0⟩⟩).execWord oneFrame (.writeat 0x3000 [7])
        = some (.written (.ok 0), f)
      ∧ f.len = 0x3000 ∧ f.pages.length = 1 ∧ f.readat 0x2000 [0] = none := by
  constructor
  · refine ⟨⟨"a", 1, [], ⟨⟨0, 0⟩, ⟨0, 0⟩, ⟨0, 0⟩⟩⟩, rfl, rfl, rfl, ?_⟩
    exact RamFile.readat_missing (by decide) (by decide)
  · have hgo : ¬ RamFile.Refused (.new "a" ⟨⟨0, 0⟩, ⟨0, 0⟩, ⟨0, 0⟩⟩) oneFrame 0x3000
        [(7 : UInt8)].length := by
      decide
    have hgot : RamFile.gotten (.new "a" ⟨⟨0, 0⟩, ⟨0, 0⟩, ⟨0, 0⟩⟩) oneFrame 0x3000
        [(7 : UInt8)].length = 1 := by
      decide
    obtain ⟨n, f, hn, hpages, hlen, heq⟩ := RamFile.writeatWord_eq_of_granted hgo
    rw [hgot] at hn hpages
    -- one frame ends below the offset, so nothing is written
    have hzero : n = 0 := hn.trans (by decide)
    subst hzero
    refine ⟨f, by simp only [RamFile.execWord, heq], hlen, hpages, ?_⟩
    apply RamFile.readat_missing
    · rw [hlen]
      decide
    · rw [hpages]
      decide

end MonkeyOS
