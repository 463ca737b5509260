import Mathlib.Data.List.TakeWhile
import MonkeyOS.Fs.RamDir
import MonkeyOS.Lib.Bytes

/-!
# MonkeyOS — directory listings (`File::getdents` of `filesystem/fs/src/file.rs`)

A call writes one record for each entry from the file's offset on, as many as fit into the buffer and
at most fifty, and sets the offset behind the last one. A call that writes none sets it back to zero.

* `writeDirent_*` — what one record is, and that nothing else changes;
* `Records` — records in a row, each found at the end of the one before; `readDirents_of_records`
  says that a reader who follows `reclen` gets the names back;
* `getdentsLoop_spec` — what the loop writes, by induction on the entries that are left;
* `getdents_call` — one call gives out the next entries;
* `getdents_listing` — a sequence of calls gives out a prefix of the listing, and all of it if there is
  room for an entry each time.
-/

namespace MonkeyOS

open Lib

/-- `DirEntry`, as far as `getdents` reads it. -/
structure DirEntry where
  filename : String
  deriving DecidableEq

/-- `RamDir::read_dir`. -/
def RamFs.readDir (fs : RamFs) (d : Nat) : Except Errno (List DirEntry) :=
  .ok ((fs.children d).map (fun x => ⟨x.filename⟩))

def DirEntry.fileBytes (x : DirEntry) : List UInt8 := x.filename.toUTF8.toList

/-- `size_of::<Dirent64>() + file_bytes.len() + 1`. The fields take 19 bytes and the size is rounded up
to the alignment of `u64`. -/
def DirEntry.currentLen (x : DirEntry) : Nat := 24 + x.fileBytes.length + 1

/-- The fields of one `Dirent64`, and the name behind them. -/
def writeDirent (mem : ByteMem) (ptr : Nat) (x : DirEntry) : ByteMem :=
  let mem := store mem ptr (leBytes 8 0) -- `ino`
  let mem := store mem (ptr + 8) (leBytes 8 x.currentLen) -- `off`
  let mem := store mem (ptr + 16) (leBytes 2 x.currentLen) -- `reclen`
  let mem := store mem (ptr + 18) [0] -- `ftype`
  store mem (ptr + 19) (x.fileBytes ++ [0]) -- `name`

/-- The variables of the loop. -/
structure Getdents where
  mem : ByteMem
  ptr : Nat
  finished : Nat
  processedCount : Nat

def getdentsLoop (bufPtr len : Nat) : (i : Nat) → List DirEntry → Getdents → Getdents
  | _, [], s => s
  | i, x :: xs, s =>
    -- `max_entries` is 50
    if s.processedCount + 1 > 50 then s
    else if len - (s.ptr - bufPtr) < x.currentLen then s
    else getdentsLoop bufPtr len (i + 1) xs
      ⟨writeDirent s.mem s.ptr x, s.ptr + x.currentLen, i + 1, s.processedCount + 1⟩

/-- The answer, the file's new offset and the memory. -/
def getdents (readDir : Except Errno (List DirEntry)) (offset : Nat) (mem : ByteMem)
    (bufPtr len : Nat) : Except Errno Nat × Nat × ByteMem :=
  match readDir with
  | .error _ => (.ok 0, offset, mem)
  | .ok dirEntries =>
    let s := getdentsLoop bufPtr len offset (dirEntries.drop offset) ⟨mem, bufPtr, 0, 0⟩
    (.ok (s.ptr - bufPtr), s.finished, s.mem)

/-! ## One record -/

section Record

variable {mem : ByteMem} {ptr : Nat} {x : DirEntry}

theorem writeDirent_outside {a : Nat} (h : a < ptr ∨ ptr + x.currentLen ≤ a) :
    writeDirent mem ptr x a = mem a := by
  have hlen : x.currentLen = 24 + x.fileBytes.length + 1 := rfl
  have hname : (x.fileBytes ++ [0]).length = x.fileBytes.length + 1 := by simp
  dsimp only [writeDirent]
  rw [store_outside (by omega), store_outside (by simp only [List.length_singleton]; omega),
    store_outside (by rw [length_leBytes]; omega), store_outside (by rw [length_leBytes]; omega),
    store_outside (by rw [length_leBytes]; omega)]

theorem writeDirent_reclen (h : x.currentLen < 65536) :
    readLE (writeDirent mem ptr x) (ptr + 16) 2 = x.currentLen := by
  have hholds : Holds (writeDirent mem ptr x) (ptr + 16) (leBytes 2 x.currentLen) := by
    intro i b hb
    have hi := (List.getElem?_eq_some_iff.mp hb).1
    rw [length_leBytes] at hi
    dsimp only [writeDirent]
    rw [store_outside (by omega), store_outside (by omega), store_at, hb]
    rfl
  rw [readLE_of_holds hholds]
  exact Nat.mod_eq_of_lt h

theorem writeDirent_name : Holds (writeDirent mem ptr x) (ptr + 19) (x.fileBytes ++ [0]) := by
  intro i b hb
  dsimp only [writeDirent]
  rw [store_at, hb]
  rfl

end Record

/-! ## Records in a row -/

/-- The records of the entries, one behind the other from `addr` to `stop`. -/
inductive Records (mem : ByteMem) : Nat → List DirEntry → Nat → Prop where
  | nil (addr : Nat) : Records mem addr [] addr
  | cons {addr stop : Nat} {x : DirEntry} {xs : List DirEntry}
      (hreclen : readLE mem (addr + 16) 2 = x.currentLen)
      (hname : Holds mem (addr + 19) (x.fileBytes ++ [0]))
      (hrest : Records mem (addr + x.currentLen) xs stop) : Records mem addr (x :: xs) stop

/-- A reader of the block `[addr, stop)`: each record must end within the block and its name within the
record. -/
def readDirents (mem : ByteMem) : (fuel addr stop : Nat) → Option (List (List UInt8))
  | 0, addr, stop => if addr = stop then some [] else none
  | fuel + 1, addr, stop =>
    if addr = stop then some []
    else
      let reclen := readLE mem (addr + 16) 2
      if addr + reclen ≤ stop then
        (readCStr mem (reclen - 19) (addr + 19)).bind fun name =>
          (readDirents mem fuel (addr + reclen) stop).map (name :: ·)
      else none

section Row

variable {mem : ByteMem} {addr stop : Nat} {xs : List DirEntry}

theorem Records.length_le (h : Records mem addr xs stop) : addr + xs.length ≤ stop := by
  induction h with
  | nil addr => exact Nat.le_refl _
  | @cons addr stop x xs _ _ _ ih =>
    have hlen : x.currentLen = 24 + x.fileBytes.length + 1 := rfl
    rw [List.length_cons]
    omega

theorem Records.stop_eq (h : Records mem addr [] stop) : stop = addr := by
  cases h
  rfl

theorem readDirents_of_records (h : Records mem addr xs stop) (hnul : ∀ x ∈ xs, 0 ∉ x.fileBytes)
    {fuel : Nat} (hfuel : xs.length ≤ fuel) :
    readDirents mem fuel addr stop = some (xs.map DirEntry.fileBytes) := by
  induction h generalizing fuel with
  | nil addr => cases fuel <;> exact if_pos rfl
  | @cons addr stop x xs hreclen hname hrest ih =>
    have hlen : x.currentLen = 24 + x.fileBytes.length + 1 := rfl
    have hstop := hrest.length_le
    have hcstr : readCStr mem (x.currentLen - 19) (addr + 19) = some x.fileBytes := by
      rw [readCStr_of_holds hname (by omega), List.takeWhile_eq_self_iff.mpr]
      intro b hb
      have hne : b ≠ 0 := fun heq => hnul x List.mem_cons_self (heq ▸ hb)
      simpa using hne
    cases fuel with
    | zero => simp at hfuel
    | succ fuel =>
      show (if addr = stop then _ else _) = _
      rw [if_neg (by omega), hreclen, if_pos (by omega), hcstr, Option.bind_some,
        ih (fun y hy => hnul y (List.mem_cons_of_mem _ hy)) (by simpa using hfuel)]
      rfl

/-- A row depends only on the bytes it lies in. -/
theorem Records.congr {mem' : ByteMem} (h : Records mem addr xs stop)
    (heq : ∀ a, addr ≤ a → a < stop → mem' a = mem a) : Records mem' addr xs stop := by
  induction h with
  | nil addr => exact .nil addr
  | @cons addr stop x xs hreclen hname hrest ih =>
    have hlen : x.currentLen = 24 + x.fileBytes.length + 1 := rfl
    have hstop := hrest.length_le
    refine .cons ?_ ?_ (ih fun a ha => heq a (by omega))
    · rw [← hreclen]
      show (mem' (addr + 16)).toNat + 256 * ((mem' (addr + 16 + 1)).toNat + 256 * 0)
        = (mem (addr + 16)).toNat + 256 * ((mem (addr + 16 + 1)).toNat + 256 * 0)
      rw [heq (addr + 16) (by omega) (by omega), heq (addr + 16 + 1) (by omega) (by omega)]
    · intro i b hb
      have hi := (List.getElem?_eq_some_iff.mp hb).1
      rw [List.length_append, List.length_singleton] at hi
      rw [heq _ (by omega) (by omega)]
      exact hname i b hb

end Row

/-! ## The loop -/

variable {c : GetdentsCall} {len offset' offset : Nat} {readDir : Except Errno (List DirEntry)}
  {xs : List DirEntry}

/-- What the loop adds: it writes the records of the first `n` entries, where it stood, and nothing
else. -/
theorem getdentsLoop_spec {bufPtr len : Nat} {xs : List DirEntry} :
    ∀ {i : Nat} {s : Getdents}, bufPtr ≤ s.ptr → s.ptr ≤ bufPtr + len →
      (∀ x ∈ xs, x.currentLen < 65536) →
      ∃ n t, getdentsLoop bufPtr len i xs s = t ∧ n ≤ xs.length
        ∧ Records t.mem s.ptr (xs.take n) t.ptr ∧ t.ptr ≤ bufPtr + len
        ∧ t.finished = (if n = 0 then s.finished else i + n)
        ∧ (∀ a, a < s.ptr ∨ t.ptr ≤ a → t.mem a = s.mem a) := by
  induction xs with
  | nil =>
    intro i s _ hend _
    exact ⟨0, s, rfl, Nat.le_refl _, .nil _, hend, rfl, fun _ _ => rfl⟩
  | cons x xs ih =>
    intro i s hptr hend hlen
    -- both `break`s leave everything as it is
    have hbreak : ∃ n t, s = t ∧ n ≤ (x :: xs).length
        ∧ Records t.mem s.ptr ((x :: xs).take n) t.ptr ∧ t.ptr ≤ bufPtr + len
        ∧ t.finished = (if n = 0 then s.finished else i + n)
        ∧ (∀ a, a < s.ptr ∨ t.ptr ≤ a → t.mem a = s.mem a) :=
      ⟨0, s, rfl, Nat.zero_le _, .nil _, hend, rfl, fun _ _ => rfl⟩
    unfold getdentsLoop
    split
    · exact hbreak
    split
    · exact hbreak
    rename_i hroom
    have hx := hlen x List.mem_cons_self
    obtain ⟨n, t, heq, hn, hrecords, htend, hfinished, hframe⟩ :=
      @ih (i + 1) ⟨writeDirent s.mem s.ptr x, s.ptr + x.currentLen, i + 1, s.processedCount + 1⟩
        (by show bufPtr ≤ s.ptr + x.currentLen; omega)
        (by show s.ptr + x.currentLen ≤ bufPtr + len; omega)
        (fun y hy => hlen y (List.mem_cons_of_mem _ hy))
    have hle : s.ptr + x.currentLen ≤ t.ptr :=
      (Nat.le_add_right _ _).trans hrecords.length_le
    refine ⟨n + 1, t, heq, Nat.succ_le_succ hn, ?_, htend, ?_, fun a ha => ?_⟩
    · -- the later records leave this one alone
      have hsame : ∀ a, a < s.ptr + x.currentLen → t.mem a = writeDirent s.mem s.ptr x a :=
        fun a ha => hframe a (.inl ha)
      have hone : Records (writeDirent s.mem s.ptr x) s.ptr [x] (s.ptr + x.currentLen) :=
        .cons (writeDirent_reclen hx) writeDirent_name (.nil _)
      cases hone.congr (fun a _ ha => hsame a ha) with
      | cons hreclen hname _ => exact .cons hreclen hname hrecords
    · rw [hfinished, if_neg (Nat.succ_ne_zero n)]
      split
      · rename_i hzero
        rw [hzero]
      · omega
    · rw [hframe a (by rcases ha with ha | ha; exacts [.inl (by show a < s.ptr + _; omega), .inr ha])]
      exact writeDirent_outside (ha.imp_right fun h => hle.trans h)

/-- The loop writes something if the first entry fits. -/
theorem getdentsLoop_progress (bufPtr i : Nat) (mem : ByteMem) {x : DirEntry}
    (hroom : x.currentLen ≤ len) (hlen : ∀ y ∈ x :: xs, y.currentLen < 65536) :
    bufPtr < (getdentsLoop bufPtr len i (x :: xs) ⟨mem, bufPtr, 0, 0⟩).ptr := by
  unfold getdentsLoop
  rw [if_neg (by show ¬ 0 + 1 > 50; omega), if_neg (by show ¬ len - (bufPtr - bufPtr) < _; omega)]
  obtain ⟨n, t, heq, -, hrecords, -⟩ := @getdentsLoop_spec bufPtr len xs (i + 1)
    ⟨writeDirent mem bufPtr x, bufPtr + x.currentLen, i + 1, 1⟩
    (by show bufPtr ≤ bufPtr + x.currentLen; omega) (by show bufPtr + x.currentLen ≤ _; omega)
    (fun y hy => hlen y (List.mem_cons_of_mem _ hy))
  have hle := hrecords.length_le
  have hpos : x.currentLen = 24 + x.fileBytes.length + 1 := rfl
  show bufPtr < (getdentsLoop bufPtr len (i + 1) xs _).ptr
  rw [heq]
  replace hle : bufPtr + x.currentLen + (xs.take n).length ≤ t.ptr := hle
  omega

/-! ## Calls -/

/-- The buffer of a call, the memory around it before and after, and the answer. -/
structure GetdentsCall where
  bufPtr : Nat
  len : Nat
  before : ByteMem
  after : ByteMem
  ret : Nat

/-- A call on a file at `offset`. -/
def GetdentsCall.Step (readDir : Except Errno (List DirEntry)) (offset : Nat) (c : GetdentsCall)
    (offset' : Nat) : Prop :=
  getdents readDir offset c.before c.bufPtr c.len = (.ok c.ret, offset', c.after)

/-- The names in the block that the call returned. -/
def GetdentsCall.names (c : GetdentsCall) : Option (List (List UInt8)) :=
  readDirents c.after c.ret c.bufPtr (c.bufPtr + c.ret)

/-- The entries; a directory that cannot be read has none. -/
def listing : Except Errno (List DirEntry) → List DirEntry
  | .ok dirEntries => dirEntries
  | .error _ => []

/-- There is room for the next entry. -/
def GetdentsCall.HasRoom (readDir : Except Errno (List DirEntry)) (offset : Nat) (c : GetdentsCall) :
    Prop :=
  ∀ x, (listing readDir)[offset]? = some x → x.currentLen ≤ c.len

/-- A name as `getdents` can give it out. -/
def DirEntry.Proper (x : DirEntry) : Prop := 0 ∉ x.fileBytes ∧ x.fileBytes.length < 60000

/-- **One call** gives out the next `n` entries and writes within its buffer. -/
theorem getdents_call (hproper : ∀ x ∈ listing readDir, x.Proper)
    (h : c.Step readDir offset offset') :
    ∃ n, n ≤ ((listing readDir).drop offset).length
      ∧ c.names = some ((((listing readDir).drop offset).take n).map DirEntry.fileBytes)
      ∧ (c.ret = 0 ↔ n = 0) ∧ (n ≠ 0 → offset' = offset + n) ∧ c.ret ≤ c.len
      ∧ (∀ a, a < c.bufPtr ∨ c.bufPtr + c.len ≤ a → c.after a = c.before a)
      ∧ (c.HasRoom readDir offset → n = 0 → (listing readDir).drop offset = []) := by
  unfold GetdentsCall.Step at h
  cases readDir with
  | error e =>
    replace h : ((.ok 0, offset, c.before) : Except Errno Nat × Nat × ByteMem)
      = (.ok c.ret, offset', c.after) := h
    simp only [Prod.mk.injEq, Except.ok.injEq] at h
    obtain ⟨hret, -, hmem⟩ := h
    refine ⟨0, Nat.zero_le _, ?_, by simp [← hret], by simp, by omega, fun a _ => by rw [hmem],
      fun _ _ => by simp [listing]⟩
    rw [GetdentsCall.names, ← hret]
    exact if_pos rfl
  | ok dirEntries =>
    replace h : ((.ok ((getdentsLoop c.bufPtr c.len offset (dirEntries.drop offset)
          ⟨c.before, c.bufPtr, 0, 0⟩).ptr - c.bufPtr), _, _) : Except Errno Nat × Nat × ByteMem)
      = (.ok c.ret, offset', c.after) := h
    simp only [Prod.mk.injEq, Except.ok.injEq] at h
    have hshort : ∀ x ∈ dirEntries.drop offset, x.currentLen < 65536 := by
      intro x hx
      have hlen : x.currentLen = 24 + x.fileBytes.length + 1 := rfl
      have := (hproper x (List.mem_of_mem_drop hx)).2
      omega
    have hprogress : c.HasRoom (.ok dirEntries) offset → dirEntries.drop offset ≠ [] → 0 < c.ret := by
      intro hroom hne
      obtain ⟨x, xs, hdrop⟩ := List.exists_cons_of_ne_nil hne
      have hx : x.currentLen ≤ c.len := hroom x (by
        show dirEntries[offset]? = some x
        rw [← List.head?_drop, hdrop]
        rfl)
      rw [hdrop] at hshort h
      have := getdentsLoop_progress c.bufPtr offset c.before hx hshort
      omega
    obtain ⟨n, t, heq, hn, hrecords, hend, hfinished, hframe⟩ := getdentsLoop_spec (i := offset)
      (s := ⟨c.before, c.bufPtr, 0, 0⟩) (Nat.le_refl c.bufPtr) (Nat.le_add_right c.bufPtr c.len) hshort
    rw [heq] at h
    obtain ⟨hret, hoffset, hmem⟩ := h
    replace hrecords : Records t.mem c.bufPtr ((dirEntries.drop offset).take n) t.ptr := hrecords
    have hlength := hrecords.length_le
    rw [List.length_take_of_le hn] at hlength
    have hstop : t.ptr = c.bufPtr + c.ret := by omega
    have hzero : c.ret = 0 ↔ n = 0 := by
      refine ⟨fun hr => by omega, fun hz => ?_⟩
      rw [hz] at hrecords
      have := hrecords.stop_eq
      omega
    refine ⟨n, hn, ?_, hzero, fun hne => ?_, by omega, fun a ha => ?_, fun hroom hz => ?_⟩
    · rw [GetdentsCall.names, ← hmem, ← hstop]
      refine readDirents_of_records hrecords (fun x hx => ?_) ?_
      · exact (hproper x (List.mem_of_mem_drop (List.mem_of_mem_take hx))).1
      · rw [List.length_take_of_le hn]
        omega
    · rw [← hoffset, hfinished, if_neg hne]
    · rw [← hmem]
      exact hframe a (ha.imp_right fun h => hend.trans h)
    · by_contra hne
      have := hprogress hroom hne
      omega

theorem GetdentsCall.Step.unique {o o' : Nat} (h : c.Step readDir offset o)
    (h' : c.Step readDir offset o') : o = o' :=
  congrArg (·.2.1) (h.symm.trans h')

/-- The same for a sequence, from any offset. -/
theorem getdents_run {calls : List GetdentsCall} (hproper : ∀ x ∈ listing readDir, x.Proper)
    (h : Run (GetdentsCall.Step readDir) offset calls offset')
    (hfirst : ∀ c ∈ calls.dropLast, c.ret ≠ 0) :
    ∃ blocks, List.Forall₂ (fun c names => GetdentsCall.names c = some names) calls blocks
      ∧ blocks.flatten <+: ((listing readDir).drop offset).map DirEntry.fileBytes
      ∧ (Run (fun o c o' => c.Step readDir o o' ∧ c.HasRoom readDir o) offset calls offset' →
          (∃ c, calls.getLast? = some c ∧ c.ret = 0) →
          blocks.flatten = ((listing readDir).drop offset).map DirEntry.fileBytes) := by
  induction h with
  | nil offset =>
    exact ⟨[], .nil, List.nil_prefix, fun _ ⟨c, hlast, _⟩ => by cases hlast⟩
  | @cons offset mid offset' c calls hstep hrest ih =>
    obtain ⟨n, hn, hnames, hret, hnext, -, -, hroom⟩ := getdents_call hproper hstep
    cases calls with
    | nil =>
      refine ⟨[_], .cons hnames .nil, ?_, fun hrun ⟨c', hlast, hzero⟩ => ?_⟩
      · rw [List.flatten_singleton]
        exact (List.take_prefix n _).map _
      cases hlast
      cases hrun with
      | cons hfirst _ =>
        rw [hroom hfirst.2 (hret.mp hzero)]
        simp
    | cons c' calls =>
      -- it is not the last call, so the next one goes on behind what it gave out
      have hne : n ≠ 0 := fun hz => hfirst c List.mem_cons_self (hret.mpr hz)
      have hmid : mid = offset + n := hnext hne
      obtain ⟨blocks, hblocks, hprefix, hwhole⟩ :=
        ih (fun d hd => hfirst d (List.mem_cons_of_mem _ hd))
      have hsplit : ((listing readDir).drop offset).map DirEntry.fileBytes
          = (((listing readDir).drop offset).take n).map DirEntry.fileBytes
            ++ ((listing readDir).drop mid).map DirEntry.fileBytes := by
        rw [hmid, ← List.drop_drop, ← List.map_append, List.take_append_drop]
      refine ⟨_ :: blocks, .cons hnames hblocks, ?_, fun hrun hlast => ?_⟩
      · rw [List.flatten_cons, hsplit]
        exact (List.prefix_append_right_inj _).mpr hprefix
      rw [List.flatten_cons, hsplit]
      cases hrun with
      | cons hfirst hrun =>
        rw [hfirst.1.unique hstep] at hrun
        rw [hwhole hrun hlast]

/-- **Listings are complete and without repetition.** On a new file, up to the first call that
returns 0, the names in the blocks are the first of the listing, in order. No call writes outside
its buffer. With room for an entry in every call, a sequence that ends with 0 gives out everything. -/
theorem getdents_listing {readDir : Except Errno (List DirEntry)} {calls : List GetdentsCall}
    {offset : Nat} (hproper : ∀ x ∈ listing readDir, x.Proper)
    (h : Run (GetdentsCall.Step readDir) 0 calls offset) (hfirst : ∀ c ∈ calls.dropLast, c.ret ≠ 0) :
    (∃ blocks, List.Forall₂ (fun c names => GetdentsCall.names c = some names) calls blocks
        ∧ blocks.flatten <+: (listing readDir).map DirEntry.fileBytes
        ∧ (Run (fun o c o' => c.Step readDir o o' ∧ c.HasRoom readDir o) 0 calls offset →
            (∃ c, calls.getLast? = some c ∧ c.ret = 0) →
            blocks.flatten = (listing readDir).map DirEntry.fileBytes))
      ∧ ∀ c ∈ calls, c.ret ≤ c.len
          ∧ ∀ a, a < c.bufPtr ∨ c.bufPtr + c.len ≤ a → c.after a = c.before a := by
  refine ⟨getdents_run hproper h hfirst, h.labels fun o c o' hstep => ?_⟩
  obtain ⟨-, -, -, -, -, hle, hframe, -⟩ := getdents_call hproper hstep
  exact ⟨hle, hframe⟩

/-- A directory with two entries, read through a buffer that has room for one. -/
def twoEntries : RamFs := ((RamFs.new.mkdir 0 "a").2.mkdir 0 "bb").2

def smallCall (offset ret : Nat) : GetdentsCall :=
  ⟨0x1000, 30, fun _ => 0, (getdents (twoEntries.readDir 0) offset (fun _ => 0) 0x1000 30).2.2, ret⟩

theorem getdents_listing_two :
    Run (GetdentsCall.Step (twoEntries.readDir 0)) 0 [smallCall 0 26, smallCall 1 27, smallCall 2 0] 0
      ∧ ∃ blocks,
        List.Forall₂ (fun c names => GetdentsCall.names c = some names)
            [smallCall 0 26, smallCall 1 27, smallCall 2 0] blocks
          ∧ blocks.flatten = [[97], [98, 98]] := by
  have hstep : ∀ offset ret offset',
      (getdents (twoEntries.readDir 0) offset (fun _ => 0) 0x1000 30).1 = .ok ret →
      (getdents (twoEntries.readDir 0) offset (fun _ => 0) 0x1000 30).2.1 = offset' →
      (smallCall offset ret).Step (twoEntries.readDir 0) offset offset' := by
    intro offset ret offset' hret hoffset
    exact Prod.ext hret (Prod.ext hoffset rfl)
  have hroom : ∀ offset, ∀ ret, (smallCall offset ret).HasRoom (twoEntries.readDir 0) offset := by
    intro offset ret x hx
    have hfits : ∀ y ∈ [⟨"a"⟩, ⟨"bb"⟩], DirEntry.currentLen y ≤ 30 := by decide +kernel
    exact hfits x (List.mem_of_getElem? hx)
  have h₀ := hstep 0 26 1 (by decide +kernel) (by decide +kernel)
  have h₁ := hstep 1 27 2 (by decide +kernel) (by decide +kernel)
  have h₂ := hstep 2 0 0 (by decide +kernel) (by decide +kernel)
  have hrun := Run.cons h₀ (.cons h₁ (.cons h₂ (.nil _)))
  refine ⟨hrun, ?_⟩
  obtain ⟨⟨blocks, hblocks, -, hwhole⟩, -⟩ := getdents_listing (by
    show ∀ x ∈ [⟨"a"⟩, ⟨"bb"⟩], DirEntry.Proper x
    unfold DirEntry.Proper
    decide +kernel) hrun (by decide)
  refine ⟨blocks, hblocks, (hwhole ?_ ⟨_, rfl, rfl⟩).trans (by decide +kernel)⟩
  exact .cons ⟨h₀, hroom 0 26⟩ (.cons ⟨h₁, hroom 1 27⟩ (.cons ⟨h₂, hroom 2 0⟩ (.nil _)))

end MonkeyOS
