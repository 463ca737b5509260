import MonkeyOS.Fs.Readv

/-!
# MonkeyOS — `sys_sendfile` and `sys_copy_file_range` (`kernel/src/syscall/fd.rs`)

Both read into a buffer of the kernel, which moves the input position, and then write the buffer, which
may fail or be short. The two files may be one, and two files may be open on one object.

* `sendRead`, `copyRead` — the first halves; `copyRead_ramFile`, what the second does to a `RamFile`, and
  `sendRead_eq`, that the first does the same where nothing wraps;
* `CopyLaw` — the output got the bytes of the input from the starting position on, as many as the answer
  says and as the position has moved; on an error the position is where it was;
* `FileNode.takes` — how much a write takes, by the object, the position and the frames before it;
* `sendfile_law`, `copyFileRange_law` — the law holds when the output, as it is before the call, takes all
  that is read.

`sys_sendfile` takes `offset` as a number, where the caller passes the address of one: what is there is
neither read nor moved. The length to read is a difference that wraps when the position is beyond the
end.
-/

namespace MonkeyOS

open Lib

/-- The size that `stat` reports. -/
def FileNode.size : FileNode → Except Errno Nat
  | .ramFile file => .ok file.len
  | .pipeSender _ => .ok 0
  | .pipeReceiver _ _ => .ok 0
  -- the default of `INodeInterface`
  | .socketPair _ => .error .EPERM

/-- Open files, by number, and the objects behind them. -/
structure CopySys where
  node : Nat → FileNode
  /-- the number of the object of an open file -/
  inode : Nat → Nat
  offset : Nat → Nat
  writeable : Nat → Bool
  /-- the words of the user, by address -/
  word : Nat → Nat

namespace CopySys

def file (s : CopySys) (i : Nat) : File := ⟨s.node (s.inode i), s.offset i, s.writeable i⟩

def put (s : CopySys) (i : Nat) (g : File) : CopySys :=
  { s with node := Function.update s.node (s.inode i) g.inner
           offset := Function.update s.offset i g.offset }

/-- `seek(SeekFrom::CURRENT(0))`: a position that is negative as an `isize` becomes 0. -/
def seekCurrent (s : CopySys) (i : Nat) : Except Errno Nat × CopySys :=
  match (s.file i).inner.size with
  | .error e => (.error e, s)
  | .ok _ =>
    let newOff := if s.offset i < 2 ^ 63 then s.offset i else 0
    (.ok newOff, { s with offset := Function.update s.offset i newOff })

/-! ## The system calls

`heap n` says whether a buffer of `n` bytes can be had; otherwise the kernel panics. -/

variable (heap : Nat → Bool) (frameAlloc : Nat → Option Page)

/-- The read of `sys_sendfile` from `currOff` on: the buffer. -/
def sendFrom (s : CopySys) (input offset count currOff : Nat) :
    Option (Except Errno (List UInt8) × CopySys) :=
  match (s.file input).inner.size with
  | .error e => some (.error e, s)
  | .ok size =>
    let rlen := min ((size + 2 ^ 64 - currOff) % 2 ^ 64) count
    if !heap rlen then none
    else
      let buffer := List.replicate rlen 0
      match if offset = 0 then (s.file input).read buffer else (s.file input).readat offset buffer with
      | none => none
      | some (.error e, _, g) => some (.error e, s.put input g)
      -- how much was read is not looked at
      | some (.ok _, buffer, g) => some (.ok buffer, s.put input g)

/-- `sys_sendfile` up to the write. -/
def sendRead (s : CopySys) (input offset count : Nat) :
    Option (Except Errno (List UInt8) × CopySys) :=
  if offset ≠ 0 then s.sendFrom heap input offset count offset
  else
    match s.seekCurrent input with
    | (.error e, s) => some (.error e, s)
    | (.ok currOff, s) => s.sendFrom heap input offset count currOff

/-- The descriptors stand for open files. -/
def sysSendfile (s : CopySys) (outFile inFile : Option Nat) (offset count : Nat) :
    Option (Except Errno Nat × CopySys) :=
  match outFile, inFile with
  | some output, some input =>
    match s.sendRead heap input offset count with
    | none => none
    | some (.error e, s) => some (.error e, s)
    | some (.ok buffer, s) =>
      let (res, g) := (s.file output).write frameAlloc buffer
      some (res, s.put output g)
  | _, _ => some (.error .EINVAL, s)

/-- `sys_copy_file_range` up to the write: what was read. -/
def copyRead (s : CopySys) (input offIn len : Nat) : Option (Except Errno (List UInt8) × CopySys) :=
  if !heap len then none
  else
    let buffer := List.replicate len 0
    if offIn ≠ 0 then
      match (s.file input).readat (s.word offIn) buffer with
      | none => none
      | some (.error e, _, g) => some (.error e, s.put input g)
      | some (.ok rsize, buffer, g) =>
        some (.ok (buffer.take rsize), { s.put input g with
          word := Function.update s.word offIn (s.word offIn + rsize) })
    else
      match (s.file input).read buffer with
      | none => none
      | some (.error e, _, g) => some (.error e, s.put input g)
      | some (.ok rsize, buffer, g) => some (.ok (buffer.take rsize), s.put input g)

/-- The write: its answer, and the state behind it. -/
def copyWrite (s : CopySys) (output offOut : Nat) (data : List UInt8) : Except Errno Nat × CopySys :=
  if offOut ≠ 0 then
    let (res, g) := (s.file output).writeat frameAlloc (s.word offOut) data
    (res, { s.put output g with
      word := Function.update s.word offOut (s.word offOut + moved res) })
  else
    let (res, g) := (s.file output).write frameAlloc data
    (res, s.put output g)

def sysCopyFileRange (s : CopySys) (inFile : Option Nat) (offIn : Nat) (outFile : Option Nat)
    (offOut len flags : Nat) : Option (Except Errno Nat × CopySys) :=
  if flags ≠ 0 then none
  else
    match inFile, outFile with
    | some input, some output =>
      match s.copyRead heap input offIn len with
      | none => none
      | some (.error e, s) => some (.error e, s)
      | some (.ok data, s) =>
        if data.length = 0 then some (.ok 0, s)
        else
          let (res, s) := s.copyWrite frameAlloc output offOut data
          -- the answer is what was read, however much was written
          some (res.map (fun _ => data.length), s)
    | _, _ => some (.error .EBADF, s)

/-! ## The law -/

/-- The position that is used: the word of the user, or the position of the file. -/
def position (s : CopySys) (i off : Nat) : Nat := if off = 0 then s.offset i else s.word off

/-- The input and the output use one position. -/
def SharePosition (input offIn output offOut : Nat) : Prop :=
  offIn = offOut ∧ (offIn = 0 → input = output)

instance (input offIn output offOut : Nat) : Decidable (SharePosition input offIn output offOut) :=
  inferInstanceAs (Decidable (_ ∧ _))

/-- Where the output is written; a shared position has moved by then. -/
def outputAt (s : CopySys) (input offIn output offOut n : Nat) : Nat :=
  if SharePosition input offIn output offOut then s.position output offOut + n
  else s.position output offOut

/-- `n` bytes of the input, from `o` on, went into the output at `place`. -/
structure Copied (s : CopySys) (file : RamFile) (o output place n : Nat) (t : CopySys) : Prop where
  le : n ≤ file.len - o
  data : ∃ data, data.length = n ∧ data <+: file.readable.drop o
    ∧ (s.node (s.inode output)).Written place data (t.node (s.inode output))
  kept : n = 0 → (t.node (s.inode output)).len = (s.node (s.inode output)).len

def CopyLaw (s : CopySys) (file : RamFile) (o input offIn output offOut : Nat) (t : CopySys) :
    Except Errno Nat → Prop
  | .ok n => s.Copied file o output (s.outputAt input offIn output offOut n) n t
    ∧ t.position input offIn = s.position input offIn + n
  | .error _ => t.position input offIn = s.position input offIn

end CopySys

/-! ## What a write takes -/

/-- `writeat` is a write from another position. -/
theorem File.writeat_eq (f : File) (frameAlloc : Nat → Option Page) (offset : Nat)
    (buffer : List UInt8) :
    f.writeat frameAlloc offset buffer
      = ((({ f with offset := offset } : File).write frameAlloc buffer).1,
        { f with inner := (({ f with offset := offset } : File).write frameAlloc buffer).2.inner }) := by
  unfold writeat write
  split
  · rfl
  split
  · rfl
  · rfl

/-- How many of `n` bytes a write takes: a queue takes all or nothing, by its length; a `RamFile` what
there is room for in its frames and in the ones it gets. -/
def FileNode.takes (x : FileNode) (frameAlloc : Nat → Option Page) (offset n : Nat) : Nat :=
  match x with
  | .ramFile file =>
    if file.Refused frameAlloc offset n then 0
    else min n ((file.pages.length + file.gotten frameAlloc offset n) * pageSize - offset)
  | .pipeSender queue => if 16 < n ∧ Pipe.bufferSize < queue.length + n then 0 else n
  | .pipeReceiver _ _ => 0
  | .socketPair queue => if 0x50000 < queue.length then 0 else n

def File.takes (f : File) (frameAlloc : Nat → Option Page) (n : Nat) : Nat :=
  if f.writeable then f.inner.takes frameAlloc f.offset n else 0

section Takes

variable {x y : FileNode} {f g : File} {frameAlloc : Nat → Option Page} {offset : Nat}
  {buffer : List UInt8} {res : Except Errno Nat}

theorem FileNode.takes_zero : x.takes frameAlloc offset 0 = 0 := by
  cases x with
  | ramFile file =>
    unfold takes
    simp
  | pipeSender queue =>
    unfold takes
    simp
  | pipeReceiver queue strongCount => rfl
  | socketPair queue =>
    unfold takes
    simp

theorem FileNode.writeat_takes (h : x.writeat frameAlloc offset buffer = (res, y)) :
    moved res = x.takes frameAlloc offset buffer.length := by
  unfold takes
  cases x with
  | ramFile file =>
    obtain ⟨file', hword, -⟩ := writeat_ramFile h
    dsimp only
    split
    · rename_i hrefused
      rw [RamFile.writeatWord_eq_of_refused hrefused] at hword
      cases hword
      rfl
    · rename_i hgranted
      obtain ⟨n, file'', hn, -, -, heq⟩ := RamFile.writeatWord_eq_of_granted hgranted
      rw [hword] at heq
      cases heq
      exact hn
  | pipeSender queue =>
    obtain ⟨queue', hpipe, -⟩ := writeat_pipeSender h
    rw [Pipe.writeat_eq] at hpipe
    dsimp only
    split at hpipe
    · rename_i hfull
      cases hpipe
      rw [if_pos hfull]
      rfl
    · rename_i hfits
      cases hpipe
      rw [if_neg hfits]
      rfl
  | pipeReceiver queue strongCount =>
    cases h
    rfl
  | socketPair queue =>
    obtain ⟨queue', hpair, -⟩ := writeat_socketPair h
    unfold SocketPair.writeat at hpair
    dsimp only
    split at hpair
    · rename_i hfull
      cases hpair
      rw [if_pos hfull]
      rfl
    · rename_i hfits
      cases hpair
      rw [if_neg hfits]
      rfl

theorem File.write_takes (h : f.write frameAlloc buffer = (res, g)) :
    moved res = f.takes frameAlloc buffer.length := by
  unfold takes
  rcases write_cases h with ⟨hnot, rfl, -⟩ | ⟨-, hempty, rfl, -⟩ | ⟨hwriteable, -, inner, hwrite, -⟩
  · rw [hnot]
    rfl
  · rw [hempty, FileNode.takes_zero, ite_self]
    rfl
  · rw [if_pos hwriteable]
    exact FileNode.writeat_takes hwrite

/-- A buffer that is taken whole is written without an error. -/
theorem File.write_whole (hne : buffer ≠ []) (h : f.write frameAlloc buffer = (res, g))
    (htakes : f.takes frameAlloc buffer.length = buffer.length) : res = .ok buffer.length := by
  have hpos : 0 < buffer.length := List.length_pos_iff.mpr hne
  rw [← write_takes h] at htakes
  cases res with
  | ok m => exact congrArg Except.ok htakes
  | error e =>
    change 0 = buffer.length at htakes
    omega

end Takes

namespace CopySys

variable {heap : Nat → Bool} {frameAlloc : Nat → Option Page} {s t : CopySys} {file : RamFile}
  {input output offset count offIn offOut len flags o : Nat} {buffer after data : List UInt8}
  {res : Except Errno Nat} {g : File}

/-! ## The reads -/

/-- The position that is used moves by `n`. -/
def moveTo (s : CopySys) (i off n : Nat) : CopySys :=
  if off = 0 then { s with offset := Function.update s.offset i (s.offset i + n) }
  else { s with word := Function.update s.word off (s.word off + n) }

theorem position_moveTo (s : CopySys) (i off j off' n : Nat) :
    (s.moveTo i off n).position j off'
      = if SharePosition i off j off' then s.position j off' + n else s.position j off' := by
  unfold moveTo position SharePosition
  by_cases hzero : off = 0
  · subst hzero
    by_cases hzero' : off' = 0
    · subst hzero'
      by_cases hsame : i = j
      · simp [hsame]
      · simp [hsame, Function.update_of_ne (Ne.symm hsame)]
    · simp [hzero', Ne.symm hzero']
  · by_cases hzero' : off' = 0
    · subst hzero'
      simp [hzero]
    · by_cases hsame : off = off'
      · simp [← hsame, hzero]
      · simp [hzero, hzero', hsame, Function.update_of_ne (Ne.symm hsame)]

section Read

variable (hfile : s.node (s.inode input) = .ramFile file)
include hfile

theorem readat_file (offset : Nat) (buffer : List UInt8) :
    (s.file input).inner.readat offset buffer
      = (file.readat offset buffer).map (fun out => (.ok out.1, out.2, .ramFile file)) := by
  show (s.node (s.inode input)).readat offset buffer = _
  rw [hfile]
  rfl

theorem put_ramFile (o : Nat) :
    s.put input ⟨.ramFile file, o, s.writeable input⟩
      = { s with offset := Function.update s.offset input o } := by
  unfold put
  rw [← hfile, Function.update_eq_self]

/-- Both ways to read are one `readat`, at the position that is used. -/
theorem copyRead_eq :
    s.copyRead heap input offIn len
      = if heap len then (file.readat (s.position input offIn) (List.replicate len 0)).map
          (fun out => (.ok (out.2.take out.1), s.moveTo input offIn out.1))
        else none := by
  unfold copyRead
  cases heap len with
  | false => rfl
  | true =>
    unfold moveTo position File.read File.readat
    by_cases hzero : offIn = 0
    · simp only [hzero, ne_eq, not_true_eq_false, Bool.not_true, Bool.false_eq_true, if_false, if_true,
        readat_file hfile]
      cases hread : file.readat (s.offset input) (List.replicate len 0) with
      | none => simp only [show file.readat (s.file input).offset _ = _ from hread, Option.map_none]
      | some out =>
        simp only [show file.readat (s.file input).offset _ = _ from hread, Option.map_some]
        exact congrArg (fun t => some (Except.ok (out.2.take out.1), t)) (put_ramFile hfile _)
    · simp only [hzero, ne_eq, not_false_eq_true, Bool.not_true, Bool.false_eq_true, if_false, if_true,
        readat_file hfile]
      cases file.readat (s.word offIn) (List.replicate len 0) with
      | none => rfl
      | some out =>
        have hput : s.put input ⟨.ramFile file, s.offset input, s.writeable input⟩ = s := by
          rw [put_ramFile hfile, Function.update_eq_self]
        simp only [Option.map_some, show s.put input ⟨.ramFile file, (s.file input).offset,
          (s.file input).writeable⟩ = s from hput]

end Read

theorem copyRead_ramFile {r : Except Errno (List UInt8)}
    (hfile : s.node (s.inode input) = .ramFile file)
    (h : s.copyRead heap input offIn len = some (r, t)) :
    ∃ data, r = .ok data ∧ data.length = min len (file.len - s.position input offIn)
      ∧ data <+: file.readable.drop (s.position input offIn)
      ∧ t = s.moveTo input offIn data.length := by
  rw [copyRead_eq hfile] at h
  split at h
  · obtain ⟨⟨n, after⟩, hread, heq⟩ := Option.map_eq_some_iff.mp h
    cases heq
    obtain ⟨hn, hlen, hdata⟩ := RamFile.readat_consumed hread
    rw [List.length_replicate] at hn hlen
    have htake : (after.take n).length = n := by
      rw [List.length_take, hlen]
      omega
    exact ⟨_, rfl, htake.trans hn, hdata, by rw [htake]⟩
  · cases h

/-- What is read. -/
def copyLen (s : CopySys) (file : RamFile) (input offIn len : Nat) : Nat :=
  min len (file.len - s.position input offIn)

/-- From a position inside the file, `sys_sendfile` reads as `sys_copy_file_range` does when it is asked
for no more than is there. -/
theorem sendRead_eq (hfile : s.node (s.inode input) = .ramFile file) (hlen : file.len < 2 ^ 63)
    (hinside : s.offset input ≤ file.len) :
    s.sendRead heap input 0 count = s.copyRead heap input 0 (s.copyLen file input 0 count) := by
  have hsize : (s.file input).inner.size = .ok file.len := by
    show (s.node (s.inode input)).size = _
    rw [hfile]
    rfl
  have hseek : s.seekCurrent input = (.ok (s.offset input), s) := by
    unfold seekCurrent
    rw [hsize]
    simp only [if_pos (Nat.lt_of_le_of_lt hinside hlen), Function.update_eq_self]
  have hrlen : min ((file.len + 2 ^ 64 - s.offset input) % 2 ^ 64) count
      = s.copyLen file input 0 count := by
    show _ = min count (file.len - s.offset input)
    omega
  rw [copyRead_eq hfile]
  unfold sendRead
  rw [if_neg (by simp), hseek]
  unfold sendFrom File.read
  simp only [hsize, hrlen, if_true, readat_file hfile]
  generalize hn : s.copyLen file input 0 count = n
  cases heap n with
  | false => rfl
  | true =>
    cases hread : file.readat (s.offset input) (List.replicate n 0) with
    | none =>
      simp [show file.readat (s.file input).offset _ = _ from hread,
        show file.readat (s.position input 0) _ = _ from hread]
    | some out =>
      obtain ⟨hcount, hlength, -⟩ := RamFile.readat_consumed hread
      -- the buffer is read in full
      have hfull : out.2.take out.1 = out.2 := by
        rw [List.length_replicate] at hcount hlength
        change min count (file.len - s.offset input) = n at hn
        exact List.take_of_length_le (by omega)
      simp only [show file.readat (s.file input).offset _ = _ from hread,
        show file.readat (s.position input 0) _ = _ from hread, Option.map_some, hfull]
      exact congrArg (fun t => some (Except.ok out.2, t)) (put_ramFile hfile _)

/-! ## The writes -/

/-- The output as `copyWrite` writes it. -/
def outputFile (s : CopySys) (output offOut : Nat) : File :=
  { s.file output with offset := s.position output offOut }

def setNode (s : CopySys) (i : Nat) (x : FileNode) : CopySys :=
  { s with node := Function.update s.node (s.inode i) x }

theorem put_file (s : CopySys) (i : Nat) : s.put i (s.file i) = s := by
  show { s with node := _, offset := _ } = s
  rw [show Function.update s.node (s.inode i) (s.file i).inner = s.node from
      Function.update_eq_self _ _,
    show Function.update s.offset i (s.file i).offset = s.offset from Function.update_eq_self _ _]

/-- A write moves the position by what it took. -/
theorem put_of_write (hwrite : (s.file output).write frameAlloc data = (res, g)) :
    s.put output g = (s.setNode output g.inner).moveTo output 0 (moved res) := by
  obtain ⟨hle, -, hoffset⟩ := File.write_written hwrite
  have hmoved : g.offset = s.offset output + moved res := by
    rw [hoffset, List.length_take, Nat.min_eq_left hle]
    rfl
  unfold put moveTo
  rw [if_pos rfl, hmoved]
  rfl

theorem copyWrite_eq (hwrite : (s.outputFile output offOut).write frameAlloc data = (res, g)) :
    s.copyWrite frameAlloc output offOut data
      = (res, (s.setNode output g.inner).moveTo output offOut (moved res)) := by
  unfold copyWrite
  by_cases hzero : offOut = 0
  · subst hzero
    change (s.file output).write frameAlloc data = _ at hwrite
    rw [if_neg (by simp), hwrite]
    exact congrArg (Prod.mk res) (put_of_write hwrite)
  · have hout : s.outputFile output offOut = { s.file output with offset := s.word offOut } := by
      unfold outputFile position
      rw [if_neg hzero]
    have hsame : Function.update s.offset output (s.file output).offset = s.offset :=
      Function.update_eq_self _ _
    rw [hout] at hwrite
    rw [if_pos hzero, File.writeat_eq, hwrite]
    unfold put moveTo
    rw [if_neg hzero]
    dsimp only
    rw [hsame]
    rfl

/-- The output takes all that is read, and the two positions are not one; in the state before. -/
def CopyClean (frameAlloc : Nat → Option Page) (s : CopySys) (file : RamFile)
    (input offIn output offOut len : Nat) : Prop :=
  s.copyLen file input offIn len ≠ 0 → ¬ SharePosition input offIn output offOut
    ∧ (s.outputFile output offOut).takes frameAlloc (s.copyLen file input offIn len)
      = s.copyLen file input offIn len

/-- The read of `sys_sendfile` is from a position inside the file, and the output takes all of it. -/
structure SendClean (frameAlloc : Nat → Option Page) (s : CopySys) (file : RamFile)
    (input output offset count : Nat) : Prop where
  noOffset : offset = 0
  inside : s.offset input ≤ file.len
  taken : s.CopyClean frameAlloc file input 0 output 0 count

/-- What `sys_sendfile` should do, from the position that is used. -/
def SendLaw (heap : Nat → Bool) (frameAlloc : Nat → Option Page) (s : CopySys) (file : RamFile)
    (input output offset count : Nat) : Prop :=
  ∀ res t, s.sysSendfile heap frameAlloc (some output) (some input) offset count = some (res, t) →
    s.CopyLaw file (s.position input offset) input offset output 0 t res

def CopyRangeLaw (heap : Nat → Bool) (frameAlloc : Nat → Option Page) (s : CopySys) (file : RamFile)
    (input offIn output offOut len flags : Nat) : Prop :=
  ∀ res t, s.sysCopyFileRange heap frameAlloc (some input) offIn (some output) offOut len flags
      = some (res, t) →
    s.CopyLaw file (s.position input offIn) input offIn output offOut t res

theorem moveTo_node (s : CopySys) (i off n : Nat) :
    (s.moveTo i off n).node = s.node ∧ (s.moveTo i off n).inode = s.inode
      ∧ (s.moveTo i off n).writeable = s.writeable := by
  unfold moveTo
  split
  · exact ⟨rfl, rfl, rfl⟩
  · exact ⟨rfl, rfl, rfl⟩

theorem moveTo_zero (s : CopySys) (i off : Nat) : s.moveTo i off 0 = s := by
  unfold moveTo
  split
  · rw [Nat.add_zero, Function.update_eq_self]
  · rw [Nat.add_zero, Function.update_eq_self]

theorem sharePosition_comm :
    SharePosition output offOut input offIn ↔ SharePosition input offIn output offOut := by
  unfold SharePosition
  constructor
  · rintro ⟨rfl, hsame⟩
    exact ⟨rfl, fun hzero => (hsame hzero).symm⟩
  · rintro ⟨rfl, hsame⟩
    exact ⟨rfl, fun hzero => (hsame hzero).symm⟩

/-- Both positions have moved. -/
theorem position_copied (s : CopySys) (input offIn output offOut : Nat) (x : FileNode) (n m : Nat) :
    (((s.moveTo input offIn n).setNode output x).moveTo output offOut m).position input offIn
      = s.position input offIn + n + if SharePosition input offIn output offOut then m else 0 := by
  have hread : ((s.moveTo input offIn n).setNode output x).position input offIn
      = s.position input offIn + n := by
    show (s.moveTo input offIn n).position input offIn = _
    rw [position_moveTo, if_pos ⟨rfl, fun _ => rfl⟩]
  rw [position_moveTo, hread, if_congr sharePosition_comm rfl rfl]
  split <;> rfl

/-- The law, for a write that took all that was read. -/
theorem copyLaw_of_whole (hne : data ≠ []) (hle : data.length ≤ file.len - s.position input offIn)
    (hdata : data <+: file.readable.drop (s.position input offIn))
    (hapart : ¬ SharePosition input offIn output offOut)
    (hwrite : ((s.moveTo input offIn data.length).outputFile output offOut).write frameAlloc data
      = (.ok data.length, g)) :
    s.CopyLaw file (s.position input offIn) input offIn output offOut
      (((s.moveTo input offIn data.length).setNode output g.inner).moveTo output offOut data.length)
      (.ok data.length) := by
  have hpos : 0 < data.length := List.length_pos_iff.mpr hne
  obtain ⟨-, hwritten, -⟩ := File.write_written hwrite
  -- the output is the object of before, and it is written where the position is by now
  have hbefore : ((s.moveTo input offIn data.length).outputFile output offOut).inner
      = s.node (s.inode output) := by
    show (s.moveTo input offIn data.length).node ((s.moveTo input offIn data.length).inode output) = _
    rw [(moveTo_node s input offIn data.length).1, (moveTo_node s input offIn data.length).2.1]
  have hplace : ((s.moveTo input offIn data.length).outputFile output offOut).offset
      = s.outputAt input offIn output offOut data.length := position_moveTo s input offIn output offOut _
  have hafter : (((s.moveTo input offIn data.length).setNode output g.inner).moveTo output offOut
      data.length).node (s.inode output) = g.inner := by
    rw [(moveTo_node _ output offOut _).1]
    show Function.update (s.moveTo input offIn data.length).node
      ((s.moveTo input offIn data.length).inode output) g.inner (s.inode output) = _
    rw [(moveTo_node s input offIn data.length).2.1, Function.update_self]
  refine ⟨⟨hle, ⟨data, rfl, hdata, ?_⟩, fun hzero => absurd hzero (Nat.ne_of_gt hpos)⟩, ?_⟩
  · change FileNode.Written _ _ (data.take data.length) _ at hwritten
    rw [hbefore, hplace, List.take_length] at hwritten
    rw [hafter]
    exact hwritten
  · rw [position_copied, if_neg hapart, Nat.add_zero]

/-- The law, for a call that moves nothing. -/
theorem copyLaw_of_none {input offIn output offOut : Nat} (file : RamFile) (o : Nat) :
    s.CopyLaw file o input offIn output offOut s (.ok 0) :=
  ⟨⟨Nat.zero_le _, ⟨[], rfl, List.nil_prefix, .nil _ _⟩, fun _ => rfl⟩, rfl⟩

/-- The output is as it was before the call when the write begins. -/
theorem outputFile_moveTo {n : Nat} (hapart : ¬ SharePosition input offIn output offOut) :
    (s.moveTo input offIn n).outputFile output offOut = s.outputFile output offOut := by
  obtain ⟨hnode, hinode, hwriteable⟩ := moveTo_node s input offIn n
  unfold outputFile file
  rw [position_moveTo, if_neg hapart, hnode, hinode, hwriteable]

/-- What was read is written whole. -/
theorem CopyClean.whole (h : s.CopyClean frameAlloc file input offIn output offOut len)
    (hlen : data.length = s.copyLen file input offIn len) (hne : data ≠ [])
    (hwrite : ((s.moveTo input offIn data.length).outputFile output offOut).write frameAlloc data
      = (res, g)) : ¬ SharePosition input offIn output offOut ∧ res = .ok data.length := by
  unfold CopyClean at h
  rw [← hlen] at h
  obtain ⟨hapart, htakes⟩ := h (fun hzero => hne (List.length_eq_zero_iff.mp hzero))
  rw [outputFile_moveTo hapart] at hwrite
  exact ⟨hapart, File.write_whole hne hwrite htakes⟩

/-! ## The calls -/

theorem copyFileRange_law (hfile : s.node (s.inode input) = .ramFile file)
    (hclean : s.CopyClean frameAlloc file input offIn output offOut len) :
    s.CopyRangeLaw heap frameAlloc file input offIn output offOut len flags := by
  intro res t hcall
  unfold sysCopyFileRange at hcall
  split at hcall
  · cases hcall
  dsimp only at hcall
  split at hcall
  · cases hcall
  · rename_i hread
    obtain ⟨data, hres, -⟩ := copyRead_ramFile hfile hread
    cases hres
  · rename_i data u hread
    obtain ⟨data', hres, hlength, hdata, rfl⟩ := copyRead_ramFile hfile hread
    cases hres
    split at hcall
    · rename_i hnil
      cases hcall
      rw [hnil, moveTo_zero]
      exact copyLaw_of_none file _
    · rename_i hnil
      have hne : data ≠ [] := fun heq => hnil (List.length_eq_zero_iff.mpr heq)
      cases hwrite : ((s.moveTo input offIn data.length).outputFile output offOut).write frameAlloc
          data with
      | mk res g =>
        rw [copyWrite_eq hwrite] at hcall
        cases hcall
        obtain ⟨hapart, rfl⟩ := hclean.whole hlength hne hwrite
        exact copyLaw_of_whole hne (by omega) hdata hapart hwrite

theorem sendfile_law (hfile : s.node (s.inode input) = .ramFile file) (hlen : file.len < 2 ^ 63)
    (hclean : s.SendClean frameAlloc file input output offset count) :
    s.SendLaw heap frameAlloc file input output offset count := by
  intro res t hcall
  obtain ⟨rfl, hinside, htaken⟩ := hclean
  unfold sysSendfile at hcall
  simp only [sendRead_eq hfile hlen hinside] at hcall
  split at hcall
  · cases hcall
  · rename_i hread
    obtain ⟨data, hres, -⟩ := copyRead_ramFile hfile hread
    cases hres
  · rename_i data u hread
    obtain ⟨data', hres, hlength, hdata, rfl⟩ := copyRead_ramFile hfile hread
    cases hres
    have hlength : data.length = s.copyLen file input 0 count := by
      rw [hlength]
      unfold copyLen
      omega
    cases hwrite : ((s.moveTo input 0 data.length).file output).write frameAlloc data with
    | mk res g =>
      simp only [hwrite] at hcall
      cases hcall
      by_cases hne : data = []
      · subst hne
        rw [List.length_nil, moveTo_zero] at hwrite ⊢
        rcases File.write_cases hwrite with ⟨-, rfl, rfl⟩ | ⟨-, -, rfl, rfl⟩ | ⟨-, hnil, -, -⟩
        · show (s.put output (s.file output)).position input 0 = s.position input 0
          rw [put_file]
        · rw [put_file]
          exact copyLaw_of_none file _
        · exact absurd rfl hnil
      · obtain ⟨hapart, rfl⟩ := htaken.whole hlength hne hwrite
        have hle : data.length ≤ file.len - s.position input 0 := hlength ▸ Nat.min_le_right _ _
        rw [put_of_write hwrite]
        exact copyLaw_of_whole hne hle hdata hapart hwrite

def threeBytes : RamFile := ⟨"a", 3, [Page.zero], (⟨0, 0⟩, ⟨0, 0⟩, ⟨0, 0⟩)⟩

/-- A `RamFile` at a position, and an empty pipe. -/
def toPipe (file : RamFile) (start : Nat) (writeable : Bool) : CopySys where
  node := fun i => if i = 0 then .ramFile file else .pipeSender []
  inode := id
  offset := fun i => if i = 0 then start else 0
  writeable := fun _ => writeable
  word := fun _ => 0

def noBytes : RamFile := RamFile.new "a" (⟨0, 0⟩, ⟨0, 0⟩, ⟨0, 0⟩)

end CopySys

end MonkeyOS
