import MonkeyOS.Fs.Pipe
import MonkeyOS.Fs.RamFileAlloc
import MonkeyOS.Net.SocketPair

/-!
# MonkeyOS — open files (`filesystem/fs/src/file.rs`)

A `File` is an object, a position and the flags it was opened with. The objects here are the ones
with bytes in them: a `RamFile`, the two ends of a pipe and a `SocketPair`.

* `FileNode.readat_consumed`, `File.read_consumed` — a read takes bytes off the object and puts them
  at the front of the buffer;
* `FileNode.writeat_written`, `File.write_written` — a write puts the front of the buffer into the
  object;
* `Consumed.append`, `Written.append` — two transfers in a row are one.

A queue loses what is read and grows at its back, whatever the position says; a `RamFile` is read and
written at the position.
-/

namespace MonkeyOS

open Lib

/-! ## The objects -/

/-- What `File::inner` points to. The other end of a pipe shares the queue; `strongCount` counts the
owners of the sender. -/
inductive FileNode where
  | ramFile (file : RamFile)
  | pipeSender (queue : List UInt8)
  | pipeReceiver (queue : List UInt8) (strongCount : Nat)
  | socketPair (queue : List UInt8)
  deriving DecidableEq

/-- The count in an answer. -/
def moved : Except Errno Nat → Nat
  | .ok n => n
  | .error _ => 0

namespace FileNode

/-- The answer, the caller's buffer and the object; `none` is the panic of `RamFile::readat`. -/
def readat (x : FileNode) (offset : Nat) (buffer : List UInt8) :
    Option (Except Errno Nat × List UInt8 × FileNode) :=
  match x with
  | .ramFile file => (file.readat offset buffer).map (fun (n, buffer) => (.ok n, buffer, x))
  -- the default of `INodeInterface`
  | .pipeSender _ => some (.error .ENOENT, buffer, x)
  | .pipeReceiver queue strongCount =>
    let (res, buffer, queue) := Pipe.readat queue strongCount buffer
    some (res, buffer, .pipeReceiver queue strongCount)
  | .socketPair queue =>
    let (res, buffer, queue) := SocketPair.readat queue buffer
    some (res, buffer, .socketPair queue)

def writeat (x : FileNode) (frameAlloc : Nat → Option Page) (offset : Nat) (buffer : List UInt8) :
    Except Errno Nat × FileNode :=
  match x with
  | .ramFile file =>
    let (res, file) := file.writeatWord frameAlloc offset buffer
    (res, .ramFile file)
  | .pipeSender queue =>
    let (res, queue) := Pipe.writeat queue buffer
    (res, .pipeSender queue)
  | .pipeReceiver _ _ => (.error .ENOENT, x)
  | .socketPair queue =>
    let (res, queue) := SocketPair.writeat queue buffer
    (res, .socketPair queue)

end FileNode

structure File where
  inner : FileNode
  offset : Nat
  /-- `O_RDWR` or `O_WRONLY` -/
  writeable : Bool
  deriving DecidableEq

namespace File

def readat (f : File) (offset : Nat) (buffer : List UInt8) :
    Option (Except Errno Nat × List UInt8 × File) :=
  (f.inner.readat offset buffer).map
    (fun (res, buffer, inner) => (res, buffer, { f with inner := inner }))

def read (f : File) (buffer : List UInt8) : Option (Except Errno Nat × List UInt8 × File) :=
  (f.inner.readat f.offset buffer).map (fun (res, buffer, inner) =>
    (res, buffer, { f with inner := inner, offset := f.offset + moved res }))

def writeat (f : File) (frameAlloc : Nat → Option Page) (offset : Nat) (buffer : List UInt8) :
    Except Errno Nat × File :=
  if !f.writeable then (.error .EPERM, f)
  else if buffer.length = 0 then (.ok 0, f)
  else
    let (res, inner) := f.inner.writeat frameAlloc offset buffer
    (res, { f with inner := inner })

def write (f : File) (frameAlloc : Nat → Option Page) (buffer : List UInt8) :
    Except Errno Nat × File :=
  if !f.writeable then (.error .EPERM, f)
  else if buffer.length = 0 then (.ok 0, f)
  else
    let (res, inner) := f.inner.writeat frameAlloc f.offset buffer
    (res, { f with inner := inner, offset := f.offset + moved res })

end File

/-! ## What a read takes -/

/-- The object had `data` next, at `offset` where that matters, and has lost it if it is a queue. -/
def FileNode.Consumed (x : FileNode) (offset : Nat) (data : List UInt8) (y : FileNode) : Prop :=
  match x with
  | .ramFile file => y = x ∧ data <+: file.readable.drop offset
  | .pipeSender _ => y = x ∧ data = []
  | .pipeReceiver queue strongCount =>
    ∃ queue', y = .pipeReceiver queue' strongCount ∧ queue = data ++ queue'
  | .socketPair queue => ∃ queue', y = .socketPair queue' ∧ queue = data ++ queue'

theorem readLoop_zero (pages : List Page) (offset bufferOff : Nat) (buffer : List UInt8) :
    readLoop pages offset 0 bufferOff buffer = some buffer := by
  unfold readLoop
  simp

variable {queue after queue' buffer : List UInt8} {offset : Nat} {res : Except Errno Nat}

/-- A read loop that does not panic has a frame for every byte. -/
theorem readLoop_room {pages : List Page} {lastLen bufferOff : Nat} {buffer' : List UInt8}
    (h : readLoop pages offset lastLen bufferOff buffer = some buffer') (hpos : 0 < lastLen) :
    offset + lastLen ≤ pages.length * pageSize := by
  induction lastLen using Nat.strong_induction_on generalizing offset bufferOff buffer with
  | _ lastLen ih =>
    have hmod := Nat.mod_lt offset pageSize_pos
    obtain ⟨n, hn⟩ : ∃ n, n = min (pageSize - offset % pageSize) lastLen := ⟨_, rfl⟩
    unfold readLoop at h
    simp only [← hn] at h
    rw [dif_neg (by omega)] at h
    split at h
    · cases h
    rename_i page hpage
    have hindex : offset / pageSize < pages.length := (List.getElem?_eq_some_iff.mp hpage).1
    by_cases hlast : n = lastLen
    · have hframe : (offset / pageSize + 1) * pageSize ≤ pages.length * pageSize :=
        Nat.mul_le_mul_right _ hindex
      have hdiv := Nat.div_add_mod' offset pageSize
      rw [Nat.add_mul] at hframe
      omega
    · have hrest := ih (lastLen - n) (by omega) h (by omega)
      omega

/-- What is read is the content from `offset` on, as much as there is or as fits. -/
theorem RamFile.readat_consumed {file : RamFile} {n : Nat}
    (h : file.readat offset buffer = some (n, after)) :
    n = min buffer.length (file.len - offset) ∧ after.length = buffer.length
      ∧ after.take n <+: file.readable.drop offset := by
  unfold RamFile.readat at h
  split at h
  · rename_i hpast
    cases h
    exact ⟨by omega, rfl, List.nil_prefix⟩
  · obtain ⟨after', hloop, heq⟩ := Option.map_eq_some_iff.mp h
    cases heq
    refine ⟨rfl, ?_⟩
    obtain ⟨n, hn⟩ : ∃ n, n = min buffer.length (file.len - offset) := ⟨_, rfl⟩
    rw [← hn] at hloop ⊢
    rcases Nat.eq_zero_or_pos n with hzero | hpos
    · rw [hzero, readLoop_zero] at hloop
      cases hloop
      rw [hzero]
      exact ⟨rfl, List.nil_prefix⟩
    · have hroom := readLoop_room hloop hpos
      rw [readLoop_eq _ _ _ _ _ hroom (by omega)] at hloop
      cases hloop
      have hlen : (((content file.pages).drop offset).take n).length = n := by
        rw [List.length_take, List.length_drop, length_content]
        omega
      refine ⟨length_splice (by omega), ?_⟩
      have hfront : (splice buffer 0 (((content file.pages).drop offset).take n)).take n
          = ((content file.pages).drop offset).take n := by
        unfold splice
        rw [List.take_zero, List.nil_append]
        exact List.take_left' hlen
      unfold RamFile.readable
      rw [hfront, List.drop_take]
      exact List.take_prefix_take_left (by omega)

/-- The front of the queue goes into the buffer; on an error nothing does. -/
theorem Pipe.readat_consumed {strongCount : Nat}
    (h : Pipe.readat queue strongCount buffer = (res, after, queue')) :
    moved res ≤ buffer.length ∧ after.length = buffer.length
      ∧ queue = after.take (moved res) ++ queue' := by
  unfold Pipe.readat at h
  split at h
  · cases h
    exact ⟨Nat.zero_le _, rfl, rfl⟩
  split at h
  · cases h
    have hlen : (queue.take (min queue.length buffer.length)).length
        = min queue.length buffer.length := by
      rw [List.length_take]
      omega
    refine ⟨Nat.min_le_right _ _, ?_, ?_⟩
    · rw [List.length_append, hlen, List.length_drop]
      omega
    · show queue = List.take (min _ _) _ ++ _
      rw [List.take_left' hlen, List.take_append_drop]
  · split at h
    · cases h
      exact ⟨Nat.zero_le _, rfl, rfl⟩
    · cases h
      exact ⟨Nat.zero_le _, rfl, rfl⟩

theorem SocketPair.readat_consumed (h : SocketPair.readat queue buffer = (res, after, queue')) :
    moved res ≤ buffer.length ∧ after.length = buffer.length
      ∧ queue = after.take (moved res) ++ queue' := by
  have hlen : (queue.take (min queue.length buffer.length)).length
      = min queue.length buffer.length := by
    rw [List.length_take]
    omega
  have hmoved : moved (if min queue.length buffer.length = 0 then .error .EWOULDBLOCK
      else .ok (min queue.length buffer.length)) = min queue.length buffer.length := by
    split
    · rename_i hzero
      exact hzero.symm
    · rfl
  cases h
  rw [hmoved]
  refine ⟨Nat.min_le_right _ _, ?_, ?_⟩
  · rw [List.length_append, hlen, List.length_drop]
    omega
  · rw [List.take_left' hlen, List.take_append_drop]

namespace FileNode

variable {x y z : FileNode} {offset : Nat} {data data' buffer after : List UInt8}
  {res : Except Errno Nat}

/-- Whatever the object is, a read consumes what it reports. -/
theorem readat_consumed (h : x.readat offset buffer = some (res, after, y)) :
    moved res ≤ buffer.length ∧ after.length = buffer.length
      ∧ x.Consumed offset (after.take (moved res)) y := by
  cases x with
  | ramFile file =>
    obtain ⟨⟨n, after'⟩, hread, heq⟩ := Option.map_eq_some_iff.mp h
    cases heq
    obtain ⟨hn, hlen, hdata⟩ := RamFile.readat_consumed hread
    exact ⟨hn ▸ Nat.min_le_left _ _, hlen, rfl, hdata⟩
  | pipeSender queue =>
    cases h
    exact ⟨Nat.zero_le _, rfl, rfl, rfl⟩
  | pipeReceiver queue strongCount =>
    cases h
    obtain ⟨hle, hlen, hdata⟩ := Pipe.readat_consumed
      (show Pipe.readat queue strongCount buffer = (_, _, _) from rfl)
    exact ⟨hle, hlen, _, rfl, hdata⟩
  | socketPair queue =>
    cases h
    obtain ⟨hle, hlen, hdata⟩ := SocketPair.readat_consumed
      (show SocketPair.readat queue buffer = (_, _, _) from rfl)
    exact ⟨hle, hlen, _, rfl, hdata⟩

theorem Consumed.nil (x : FileNode) (offset : Nat) : x.Consumed offset [] x := by
  cases x with
  | ramFile file => exact ⟨rfl, List.nil_prefix⟩
  | pipeSender queue => exact ⟨rfl, rfl⟩
  | pipeReceiver queue strongCount => exact ⟨queue, rfl, rfl⟩
  | socketPair queue => exact ⟨queue, rfl, rfl⟩

/-- Two reads in a row consume what one of both sizes would. -/
theorem Consumed.append (h : x.Consumed offset data y)
    (h' : y.Consumed (offset + data.length) data' z) : x.Consumed offset (data ++ data') z := by
  cases x with
  | ramFile file =>
    obtain ⟨rfl, rest, hdata⟩ := h
    obtain ⟨rfl, rest', hdata'⟩ := h'
    refine ⟨rfl, rest', ?_⟩
    rw [← List.drop_drop, ← hdata, List.drop_left] at hdata'
    rw [List.append_assoc, hdata', hdata]
  | pipeSender queue =>
    obtain ⟨rfl, rfl⟩ := h
    exact h'
  | pipeReceiver queue strongCount =>
    obtain ⟨queue', rfl, rfl⟩ := h
    obtain ⟨queue'', rfl, rfl⟩ := h'
    exact ⟨queue'', rfl, (List.append_assoc _ _ _).symm⟩
  | socketPair queue =>
    obtain ⟨queue', rfl, rfl⟩ := h
    obtain ⟨queue'', rfl, rfl⟩ := h'
    exact ⟨queue'', rfl, (List.append_assoc _ _ _).symm⟩

end FileNode

/-! ## What a write puts -/

/-- `data` is at `offset`, and around it is what was there. -/
structure RamFile.Wrote (file : RamFile) (offset : Nat) (data : List UInt8) (file' : RamFile) : Prop where
  new : ∀ i b, data[i]? = some b → (content file'.pages)[offset + i]? = some b
  old : ∀ i b, (i < offset ∨ offset + data.length ≤ i) → (content file.pages)[i]? = some b →
    (content file'.pages)[i]? = some b
  len : file'.len = max file.len (offset + data.length) ∨ data = [] ∧ file'.len = file.len

def FileNode.Written (x : FileNode) (offset : Nat) (data : List UInt8) (y : FileNode) : Prop :=
  match x with
  | .ramFile file => ∃ file', y = .ramFile file' ∧ file.Wrote offset data file'
  | .pipeSender queue => y = .pipeSender (queue ++ data)
  | .pipeReceiver _ _ => y = x ∧ data = []
  | .socketPair queue => y = .socketPair (queue ++ data)

namespace RamFile

variable {file file' file'' : RamFile} {offset n : Nat} {data data' buffer : List UInt8}
  {frameAlloc : Nat → Option Page}

theorem Wrote.nil (file : RamFile) (offset : Nat) : file.Wrote offset [] file where
  new := by simp
  old := fun _ _ _ h => h
  len := .inr ⟨rfl, rfl⟩

/-- The second write is behind the first and leaves its bytes alone. -/
theorem Wrote.append (h : file.Wrote offset data file')
    (h' : file'.Wrote (offset + data.length) data' file'') :
    file.Wrote offset (data ++ data') file'' where
  new := by
    intro i b hb
    rcases Nat.lt_or_ge i data.length with hi | hi
    · rw [List.getElem?_append_left hi] at hb
      exact h'.old _ _ (.inl (by omega)) (h.new i b hb)
    · rw [List.getElem?_append_right hi] at hb
      have hnew := h'.new _ _ hb
      rwa [show offset + data.length + (i - data.length) = offset + i by omega] at hnew
  old := by
    intro i b hi hb
    rw [List.length_append] at hi
    exact h'.old i b (by omega) (h.old i b (by omega) hb)
  len := by
    rw [List.length_append]
    rcases h.len with hlen | ⟨rfl, hlen⟩
    · left
      rcases h'.len with hlen' | ⟨rfl, hlen'⟩
      · omega
      · rw [hlen', hlen]
        rfl
    · rw [← hlen, List.length_nil, Nat.zero_add]
      exact h'.len

/-- A write that is granted a frame puts what it reports, which may be short. -/
theorem writeatWord_wrote (h : file.writeatWord frameAlloc offset buffer = (.ok n, file')) :
    n ≤ buffer.length ∧ file.Wrote offset (buffer.take n) file' := by
  by_cases hrefused : file.Refused frameAlloc offset buffer.length
  · rw [writeatWord_eq_of_refused hrefused] at h
    cases h
  obtain ⟨n', frames, hn, hframes, heq⟩ := writeatWord_granted hrefused
  rw [heq] at h
  cases h
  have hle : n ≤ buffer.length := hn ▸ Nat.min_le_left _ _
  have htake : (buffer.take n).length = n := by rw [List.length_take, Nat.min_eq_left hle]
  have hpages : content (file.pages ++ frames) = content file.pages ++ content frames :=
    content_append _ _
  refine ⟨hle, ?_⟩
  rcases Nat.eq_zero_or_pos n with hzero | hpos
  · -- the length may grow, the bytes do not change
    have hsame : (writeLoop buffer (file.pages ++ frames) offset 0 0).1 = file.pages ++ frames := by
      unfold writeLoop
      simp
    subst hzero
    refine ⟨by simp, fun i b _ hb => ?_, .inl rfl⟩
    show (content (writeLoop buffer (file.pages ++ frames) offset 0 0).1)[i]? = some b
    rw [hsame, hpages, List.getElem?_append_left (List.getElem?_eq_some_iff.mp hb).1]
    exact hb
  · have hlength : (file.pages ++ frames).length
        = file.pages.length + file.gotten frameAlloc offset buffer.length := by
      rw [List.length_append, hframes]
    have hroom : offset + n ≤ (file.pages ++ frames).length * pageSize := by
      rw [hlength]
      omega
    have hcontent := (writeLoop_eq buffer (file.pages ++ frames) offset 0 n hroom (by omega)).1
    rw [List.drop_zero] at hcontent
    have hfits : offset + (buffer.take n).length ≤ (content (file.pages ++ frames)).length := by
      rw [htake, length_content]
      exact hroom
    refine ⟨fun i b hb => ?_, fun i b hi hb => ?_, .inl (by rw [htake])⟩
    · show (content (writeLoop buffer (file.pages ++ frames) offset 0 n).1)[offset + i]? = some b
      rw [hcontent, getElem?_splice_inside (by omega) (List.getElem?_eq_some_iff.mp hb).1]
      exact hb
    · show (content (writeLoop buffer (file.pages ++ frames) offset 0 n).1)[i]? = some b
      rw [hcontent, getElem?_splice_outside hfits hi, hpages,
        List.getElem?_append_left (List.getElem?_eq_some_iff.mp hb).1]
      exact hb

/-- An error means that the first frame was refused. -/
theorem writeatWord_error {e : Errno}
    (h : file.writeatWord frameAlloc offset buffer = (.error e, file')) : file' = file := by
  by_cases hrefused : file.Refused frameAlloc offset buffer.length
  · rw [writeatWord_eq_of_refused hrefused] at h
    cases h
    rfl
  · obtain ⟨n, g, -, -, -, heq⟩ := writeatWord_eq_of_granted hrefused
    rw [heq] at h
    cases h

end RamFile

theorem SocketPair.writeat_cases (queue buffer : List UInt8) :
    SocketPair.writeat queue buffer = (.ok buffer.length, queue ++ buffer)
      ∨ SocketPair.writeat queue buffer = (.error .EWOULDBLOCK, queue) := by
  unfold SocketPair.writeat
  split
  · exact .inr rfl
  · exact .inl rfl

namespace FileNode

variable {x y z : FileNode} {offset : Nat} {data data' buffer : List UInt8} {res : Except Errno Nat}
  {frameAlloc : Nat → Option Page}

theorem Written.nil (x : FileNode) (offset : Nat) : x.Written offset [] x := by
  cases x with
  | ramFile file => exact ⟨file, rfl, .nil file offset⟩
  | pipeSender queue => exact congrArg pipeSender (List.append_nil queue).symm
  | pipeReceiver queue strongCount => exact ⟨rfl, rfl⟩
  | socketPair queue => exact congrArg socketPair (List.append_nil queue).symm

theorem Written.append (h : x.Written offset data y)
    (h' : y.Written (offset + data.length) data' z) : x.Written offset (data ++ data') z := by
  cases x with
  | ramFile file =>
    obtain ⟨file', rfl, h⟩ := h
    obtain ⟨file'', rfl, h'⟩ := h'
    exact ⟨file'', rfl, h.append h'⟩
  | pipeSender queue =>
    cases h
    exact h'.trans (congrArg pipeSender (List.append_assoc _ _ _))
  | pipeReceiver queue strongCount =>
    obtain ⟨rfl, rfl⟩ := h
    exact h'
  | socketPair queue =>
    cases h
    exact h'.trans (congrArg socketPair (List.append_assoc _ _ _))

/-- A queue takes the buffer whole or not at all. -/
theorem writeat_queue {queue queue' : List UInt8}
    (h : (res, queue') = (.ok buffer.length, queue ++ buffer)
      ∨ (res, queue') = (.error .EWOULDBLOCK, queue)) :
    moved res ≤ buffer.length ∧ queue' = queue ++ buffer.take (moved res) := by
  rcases h with h | h
  · cases h
    exact ⟨Nat.le_refl _, by rw [moved, List.take_length]⟩
  · cases h
    exact ⟨Nat.zero_le _, (List.append_nil _).symm⟩

theorem writeat_ramFile {file : RamFile}
    (h : (ramFile file).writeat frameAlloc offset buffer = (res, y)) :
    ∃ file', file.writeatWord frameAlloc offset buffer = (res, file') ∧ y = .ramFile file' := by
  obtain ⟨hres, hnode⟩ := Prod.mk.inj h
  exact ⟨_, Prod.ext hres rfl, hnode.symm⟩

theorem writeat_pipeSender {queue : List UInt8}
    (h : (pipeSender queue).writeat frameAlloc offset buffer = (res, y)) :
    ∃ queue', Pipe.writeat queue buffer = (res, queue') ∧ y = .pipeSender queue' := by
  obtain ⟨hres, hnode⟩ := Prod.mk.inj h
  exact ⟨_, Prod.ext hres rfl, hnode.symm⟩

theorem writeat_socketPair {queue : List UInt8}
    (h : (socketPair queue).writeat frameAlloc offset buffer = (res, y)) :
    ∃ queue', SocketPair.writeat queue buffer = (res, queue') ∧ y = .socketPair queue' := by
  obtain ⟨hres, hnode⟩ := Prod.mk.inj h
  exact ⟨_, Prod.ext hres rfl, hnode.symm⟩

/-- Whatever the object is, a write puts what it reports. -/
theorem writeat_written (h : x.writeat frameAlloc offset buffer = (res, y)) :
    moved res ≤ buffer.length ∧ x.Written offset (buffer.take (moved res)) y := by
  cases x with
  | ramFile file =>
    obtain ⟨file', hwrite, rfl⟩ := writeat_ramFile h
    cases res with
    | ok n =>
      obtain ⟨hle, hwrote⟩ := RamFile.writeatWord_wrote hwrite
      exact ⟨hle, file', rfl, hwrote⟩
    | error e =>
      rw [RamFile.writeatWord_error hwrite]
      exact ⟨Nat.zero_le _, .nil (.ramFile file) offset⟩
  | pipeSender queue =>
    cases h
    obtain ⟨hle, hqueue⟩ := writeat_queue (Pipe.writeat_cases queue buffer)
    exact ⟨hle, congrArg pipeSender hqueue⟩
  | pipeReceiver queue strongCount =>
    cases h
    exact ⟨Nat.zero_le _, rfl, rfl⟩
  | socketPair queue =>
    cases h
    obtain ⟨hle, hqueue⟩ := writeat_queue (SocketPair.writeat_cases queue buffer)
    exact ⟨hle, congrArg socketPair hqueue⟩

end FileNode

/-! ## Files -/

namespace File

def Consumed (f : File) (data : List UInt8) (g : File) : Prop :=
  f.inner.Consumed f.offset data g.inner ∧ g = { f with inner := g.inner, offset := f.offset + data.length }

def Written (f : File) (data : List UInt8) (g : File) : Prop :=
  f.inner.Written f.offset data g.inner ∧ g = { f with inner := g.inner, offset := f.offset + data.length }

variable {f g : File} {buffer after : List UInt8} {res : Except Errno Nat}
  {frameAlloc : Nat → Option Page}

theorem read_consumed (h : f.read buffer = some (res, after, g)) :
    moved res ≤ buffer.length ∧ after.length = buffer.length
      ∧ f.Consumed (after.take (moved res)) g := by
  obtain ⟨⟨res', after', inner⟩, hread, heq⟩ := Option.map_eq_some_iff.mp h
  cases heq
  obtain ⟨hle, hlen, hconsumed⟩ := FileNode.readat_consumed hread
  refine ⟨hle, hlen, hconsumed, ?_⟩
  rw [List.length_take, hlen, Nat.min_eq_left hle]

/-- `check_writeable` comes first, and an empty buffer never reaches the object. -/
theorem write_cases (h : f.write frameAlloc buffer = (res, g)) :
    (f.writeable = false ∧ res = .error .EPERM ∧ g = f)
      ∨ (f.writeable = true ∧ buffer.length = 0 ∧ res = .ok 0 ∧ g = f)
      ∨ (f.writeable = true ∧ buffer.length ≠ 0
        ∧ ∃ inner, f.inner.writeat frameAlloc f.offset buffer = (res, inner)
          ∧ g = { f with inner := inner, offset := f.offset + moved res }) := by
  unfold write at h
  split at h
  · rename_i hwriteable
    cases h
    exact .inl ⟨by simpa using hwriteable, rfl, rfl⟩
  · rename_i hwriteable
    have hwriteable : f.writeable = true := by simpa using hwriteable
    split at h
    · rename_i hempty
      cases h
      exact .inr (.inl ⟨hwriteable, hempty, rfl, rfl⟩)
    · rename_i hempty
      cases hwrite : f.inner.writeat frameAlloc f.offset buffer with
      | mk res' inner =>
        rw [hwrite] at h
        cases h
        exact .inr (.inr ⟨hwriteable, hempty, inner, rfl, rfl⟩)

theorem write_written (h : f.write frameAlloc buffer = (res, g)) :
    moved res ≤ buffer.length ∧ f.Written (buffer.take (moved res)) g := by
  rcases write_cases h with ⟨-, rfl, rfl⟩ | ⟨-, -, rfl, rfl⟩ | ⟨-, -, inner, hwrite, rfl⟩
  · exact ⟨Nat.zero_le _, .nil _ _, rfl⟩
  · exact ⟨Nat.zero_le _, .nil _ _, rfl⟩
  · obtain ⟨hle, hwritten⟩ := FileNode.writeat_written hwrite
    refine ⟨hle, hwritten, ?_⟩
    rw [List.length_take, Nat.min_eq_left hle]

end File

end MonkeyOS
