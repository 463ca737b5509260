import MonkeyOS.Basic
import MonkeyOS.Lib.Paged
import MonkeyOS.Lib.Run

/-!
# MonkeyOS — regular files of the ram file system (`filesystem/ramfs/src/lib.rs`)

A `RamFile` keeps its bytes in page frames and its length beside them. Frames are added when
a write or a truncate needs them and are never given back: a shrinking truncate clears them.

* `writeLoop_eq`, `readLoop_eq` — the page-by-page loops, on the flattened content;
* `RamFile.Represents` — the content is the file's bytes followed by zeros only;
* `ramFile_refines_flat` — every run of calls is a run of `FlatStep`, the file as one byte
  list, with the same answers.

`frame_alloc` is a parameter: the frame (or refusal) it answers with when page `i` is wanted.
Offsets are natural numbers, so `offset + len` is taken not to wrap.
-/

namespace MonkeyOS

open Lib

/-- The bytes of one frame. -/
structure Page where
  bytes : List UInt8
  length_bytes : bytes.length = pageSize
  deriving DecidableEq

namespace Page

def zero : Page := ⟨List.replicate pageSize 0, List.length_replicate⟩

/-- `copy_from_slice` into the frame from offset `j` on. -/
def write (p : Page) (j : Nat) (s : List UInt8) (h : j + s.length ≤ pageSize) : Page :=
  ⟨splice p.bytes j s, by rw [length_splice (by rw [p.length_bytes]; exact h), p.length_bytes]⟩

/-- `page.0.add(offset).clear_len(PAGE_SIZE - offset)`. -/
def clearFrom (p : Page) (offset : Nat) (h : offset ≤ pageSize) : Page :=
  p.write offset (List.replicate (pageSize - offset) 0) (by rw [List.length_replicate]; omega)

end Page

structure RamFile where
  name : String
  len : Nat
  pages : List Page
  /-- ctime, atime, mtime -/
  times : TimeSpec × TimeSpec × TimeSpec
  deriving DecidableEq

inductive StatMode where
  | FILE
  | DIR
  | LINK
  deriving DecidableEq

/-- The fields of `Stat` that a `RamFile` fills in. -/
structure Stat where
  ino : Nat
  mode : StatMode
  nlink : Nat
  uid : Nat
  gid : Nat
  size : Nat
  blksize : Nat
  blocks : Nat
  rdev : Nat
  atime : TimeSpec
  mtime : TimeSpec
  deriving DecidableEq

/-! ## The functions of `RamFile` -/

theorem length_chunk_le (l : List UInt8) (o n : Nat) : ((l.drop o).take n).length ≤ n := by
  rw [List.length_take]
  exact Nat.min_le_left _ _

/-- The read loop; `none` is the panic of `inner[index]`. -/
def readLoop (pages : List Page) (offset lastLen bufferOff : Nat) (buffer : List UInt8) :
    Option (List UInt8) :=
  let currSize := min (pageSize - offset % pageSize) lastLen
  if _hcurr : currSize = 0 then some buffer
  else
    match pages[offset / pageSize]? with
    | none => none
    | some page =>
      readLoop pages (offset + currSize) (lastLen - currSize) (bufferOff + currSize)
        (splice buffer bufferOff ((page.bytes.drop (offset % pageSize)).take currSize))
termination_by lastLen
decreasing_by omega

/-- The write loop: the pages afterwards and the final `write_offset`. -/
def writeLoop (buffer : List UInt8) (pages : List Page) (writeOffset bufferOff wsize : Nat) :
    List Page × Nat :=
  let currSize := min (pageSize - writeOffset % pageSize) wsize
  if _hcurr : currSize = 0 then (pages, writeOffset)
  else if writeOffset / pageSize ≥ pages.length then (pages, writeOffset)
  else
    have hfits : writeOffset % pageSize + ((buffer.drop bufferOff).take currSize).length
        ≤ pageSize := by
      have hmod := Nat.mod_lt writeOffset pageSize_pos
      have hchunk := length_chunk_le buffer bufferOff currSize
      omega
    writeLoop buffer
      (pages.modify (writeOffset / pageSize)
        (fun p => p.write (writeOffset % pageSize) ((buffer.drop bufferOff).take currSize) hfits))
      (writeOffset + currSize) (bufferOff + currSize) (wsize - currSize)
termination_by wsize
decreasing_by omega

/-- Up to `n` frames more, one `frame_alloc` each; the flag says that none was refused. -/
def allocPages (frameAlloc : Nat → Option Page) : Nat → List Page → Bool × List Page
  | 0, pages => (true, pages)
  | n + 1, pages =>
    match frameAlloc pages.length with
    | some frame => allocPages frameAlloc n (pages ++ [frame])
    | none => (false, pages)

namespace RamFile

def new (name : String) (times : TimeSpec × TimeSpec × TimeSpec) : RamFile := ⟨name, 0, [], times⟩

def readat (f : RamFile) (offset : Nat) (buffer : List UInt8) : Option (Nat × List UInt8) :=
  if offset ≥ f.len then some (0, buffer)
  else
    let readLen := min buffer.length (f.len - offset)
    (readLoop f.pages offset readLen 0 buffer).map (fun buffer => (readLen, buffer))

/-- `writeat` once its page count is known. -/
def writeatPages (f : RamFile) (frameAlloc : Nat → Option Page) (pages offset : Nat)
    (buffer : List UInt8) : Except Errno Nat × RamFile :=
  let (complete, inner) := allocPages frameAlloc (pages - f.pages.length) f.pages
  -- a refused frame fails the write only when it is the first one asked for
  if !complete && inner.length == f.pages.length then (.error .ENOMEM, f)
  else
    let availableSpace := inner.length * pageSize
    let maxWritable := if offset < availableSpace then availableSpace - offset else 0
    let actualWriteSize := min buffer.length maxWritable
    let (inner, writeOffset) := writeLoop buffer inner offset 0 actualWriteSize
    (.ok actualWriteSize,
      { f with pages := inner, len := if writeOffset > f.len then writeOffset else f.len })

def writeat (f : RamFile) (frameAlloc : Nat → Option Page) (offset : Nat) (buffer : List UInt8) :
    Except Errno Nat × RamFile :=
  f.writeatPages frameAlloc (divCeil (offset + buffer.length) pageSize) offset buffer

/-- The clearing `truncate` does before it adds frames. -/
def clearPast (pages : List Page) (size : Nat) : List Page :=
  let targetPages := divCeil size pageSize
  let cleared := pages.take targetPages ++ (pages.drop targetPages).map (fun _ => Page.zero)
  if size % pageSize ≠ 0 then
    cleared.modify (size / pageSize)
      (fun p => p.clearFrom (size % pageSize) (Nat.le_of_lt (Nat.mod_lt _ pageSize_pos)))
  else cleared

def truncate (f : RamFile) (frameAlloc : Nat → Option Page) (size : Nat) :
    Except Errno Unit × RamFile :=
  let targetPages := divCeil size pageSize
  let (complete, inner) :=
    allocPages frameAlloc (targetPages - f.pages.length) (clearPast f.pages size)
  (if complete then .ok () else .error .ENOMEM, { f with len := size, pages := inner })

def stat (f : RamFile) : Stat where
  ino := if f.name.endsWith ".s" then 2 else 1
  mode := .FILE
  nlink := 1
  uid := 0
  gid := 0
  size := f.len
  blksize := 512
  blocks := 0
  rdev := 0
  atime := f.times.2.1
  mtime := f.times.2.2

end RamFile

/-! ## The loops on the flattened content -/

def content (pages : List Page) : List UInt8 := (pages.map Page.bytes).flatten

theorem bytes_length {pages : List Page} : ∀ p ∈ pages.map Page.bytes, p.length = pageSize := by
  intro p hp
  obtain ⟨q, -, rfl⟩ := List.mem_map.mp hp
  exact q.length_bytes

theorem length_content (pages : List Page) : (content pages).length = pages.length * pageSize := by
  unfold content
  rw [length_flatten_pages bytes_length, List.length_map]

@[simp] theorem content_append (ps qs : List Page) :
    content (ps ++ qs) = content ps ++ content qs := by
  simp [content]

theorem content_replicate_zero (n : Nat) :
    content (List.replicate n Page.zero) = List.replicate (n * pageSize) 0 := by
  simp [content, Page.zero]

theorem content_modify_write {pages : List Page} {i j : Nat} {s : List UInt8}
    (hi : i < pages.length) (hj : j + s.length ≤ pageSize) :
    content (pages.modify i (·.write j s hj))
      = splice (content pages) (i * pageSize + j) s := by
  unfold content
  rw [← flatten_modify_splice bytes_length (by rwa [List.length_map]) hj]
  congr 1
  apply List.ext_getElem?
  intro k
  simp only [List.getElem?_map, List.getElem?_modify]
  cases pages[k]? with
  | none => rfl
  | some p =>
    by_cases hik : i = k
    · simp [hik, Page.write]
    · simp [hik]

/-- One turn of either loop stays on its page and makes progress. -/
theorem div_lt_of_room {offset n pages : Nat} (hn : 0 < n) (hroom : offset + n ≤ pages * pageSize) :
    offset / pageSize < pages :=
  (Nat.div_lt_iff_lt_mul pageSize_pos).mpr (by omega)

theorem readLoop_eq (pages : List Page) (offset lastLen bufferOff : Nat) (buffer : List UInt8)
    (hroom : offset + lastLen ≤ pages.length * pageSize)
    (hbuf : bufferOff + lastLen ≤ buffer.length) :
    readLoop pages offset lastLen bufferOff buffer
      = some (splice buffer bufferOff (((content pages).drop offset).take lastLen)) := by
  -- along the loop: the bytes still to be read, at the place they go to
  induction lastLen using Nat.strong_induction_on generalizing offset bufferOff buffer with
  | _ lastLen ih =>
    have hmod := Nat.mod_lt offset pageSize_pos
    unfold readLoop
    by_cases hzero : lastLen = 0
    · subst hzero
      simp
    obtain ⟨n, hn⟩ : ∃ n, n = min (pageSize - offset % pageSize) lastLen := ⟨_, rfl⟩
    have hindex := div_lt_of_room (Nat.pos_of_ne_zero hzero) hroom
    have hpage : (pages.map Page.bytes)[offset / pageSize]?
        = some (pages[offset / pageSize]).bytes := by
      rw [List.getElem?_map, List.getElem?_eq_getElem hindex]
      rfl
    have hchunk := take_drop_page bytes_length hpage
      (j := offset % pageSize) (n := n) (by omega)
    rw [Nat.div_add_mod'] at hchunk
    have hlen : (((content pages).drop offset).take n).length = n := by
      rw [List.length_take, List.length_drop, length_content]
      omega
    simp only [← hn, List.getElem?_eq_getElem hindex]
    rw [dif_neg (by omega), hchunk]
    show readLoop pages (offset + n) (lastLen - n) (bufferOff + n)
      (splice buffer bufferOff (((content pages).drop offset).take n)) = _
    rw [ih (lastLen - n) (by omega) _ _ _ (by omega)
      (by rw [length_splice (by omega)]; omega)]
    -- this turn's bytes and the rest are adjacent
    have hjoin := splice_splice (l := buffer) (o := bufferOff)
      (((content pages).drop offset).take n)
      (((content pages).drop (offset + n)).take (lastLen - n)) (by omega)
    rw [hlen] at hjoin
    rw [hjoin, ← List.drop_drop, ← List.take_add, show n + (lastLen - n) = lastLen from by omega]

theorem writeLoop_eq (buffer : List UInt8) (pages : List Page) (writeOffset bufferOff wsize : Nat)
    (hroom : writeOffset + wsize ≤ pages.length * pageSize)
    (hbuf : bufferOff + wsize ≤ buffer.length) :
    content (writeLoop buffer pages writeOffset bufferOff wsize).1
        = splice (content pages) writeOffset ((buffer.drop bufferOff).take wsize)
      ∧ (writeLoop buffer pages writeOffset bufferOff wsize).2 = writeOffset + wsize := by
  induction wsize using Nat.strong_induction_on generalizing pages writeOffset bufferOff with
  | _ wsize ih =>
    have hmod := Nat.mod_lt writeOffset pageSize_pos
    unfold writeLoop
    by_cases hzero : wsize = 0
    · subst hzero
      simp
    obtain ⟨n, hn⟩ : ∃ n, n = min (pageSize - writeOffset % pageSize) wsize := ⟨_, rfl⟩
    have hindex := div_lt_of_room (Nat.pos_of_ne_zero hzero) hroom
    have hlen : ((buffer.drop bufferOff).take n).length = n := by
      rw [List.length_take, List.length_drop]
      omega
    simp only [← hn]
    rw [dif_neg (by omega), if_neg (by omega)]
    obtain ⟨hcontent, hoffset⟩ := ih (wsize - n) (by omega)
      (pages.modify (writeOffset / pageSize) (fun p => p.write (writeOffset % pageSize)
        ((buffer.drop bufferOff).take n) (by omega)))
      (writeOffset + n) (bufferOff + n) (by rw [List.length_modify]; omega) (by omega)
    refine ⟨hcontent.trans ?_, hoffset.trans (by omega)⟩
    have hjoin := splice_splice (l := content pages) (o := writeOffset)
      ((buffer.drop bufferOff).take n) ((buffer.drop (bufferOff + n)).take (wsize - n))
      (by rw [length_content]; omega)
    rw [hlen] at hjoin
    rw [content_modify_write hindex, Nat.div_add_mod', hjoin, ← List.drop_drop, ← List.take_add,
      show n + (wsize - n) = wsize from by omega]

/-! ## The file as one byte list

`Represents f b`: the bytes are `b`, and whatever the frames hold behind them is zero. That
is the invariant a shrinking truncate pays for, and the reason why growing again, by a write
or a truncate, finds zeros there. -/

structure RamFile.Represents (f : RamFile) (b : List UInt8) : Prop where
  len : f.len = b.length
  padded : ∃ z, content f.pages = b ++ List.replicate z 0

inductive RamCall where
  | readat (offset : Nat) (buffer : List UInt8)
  | writeat (offset : Nat) (buffer : List UInt8)
  | truncate (size : Nat)
  | stat
  deriving DecidableEq

/-- What a call answers; `readat` also gives the caller's buffer back. -/
inductive RamAnswer where
  | read (n : Nat) (buffer : List UInt8)
  | written (res : Except Errno Nat)
  | truncated (res : Except Errno Unit)
  | stat (st : Stat)

/-- One call; `none` is a panic. -/
def RamFile.exec (f : RamFile) (frameAlloc : Nat → Option Page) :
    RamCall → Option (RamAnswer × RamFile)
  | .readat offset buffer =>
    (f.readat offset buffer).map (fun (n, buffer) => (.read n buffer, f))
  | .writeat offset buffer =>
    let (res, f) := f.writeat frameAlloc offset buffer
    some (.written res, f)
  | .truncate size =>
    let (res, f) := f.truncate frameAlloc size
    some (.truncated res, f)
  | .stat => some (.stat f.stat, f)

/-- Every `frame_alloc` succeeds with a zeroed frame. -/
def zeroedFrames : Nat → Option Page := fun _ => some Page.zero

/-- A write has something to write. -/
def RamCall.Allowed : RamCall → Prop
  | .writeat _ buffer => buffer ≠ []
  | _ => True

def RamStep (f : RamFile) (l : RamCall × RamAnswer) (g : RamFile) : Prop :=
  l.1.Allowed ∧ f.exec zeroedFrames l.1 = some (l.2, g)

def padTo (b : List UInt8) (n : Nat) : List UInt8 := b ++ List.replicate (n - b.length) 0

/-- The abstract file: a byte list. -/
inductive FlatStep : List UInt8 → RamCall × RamAnswer → List UInt8 → Prop where
  | readat (b : List UInt8) (o : Nat) (buffer : List UInt8) (n : Nat)
      (hn : n = min buffer.length (b.length - o)) :
      FlatStep b (.readat o buffer, .read n ((b.drop o).take n ++ buffer.drop n)) b
  | writeat (b : List UInt8) (o : Nat) (s : List UInt8) :
      FlatStep b (.writeat o s, .written (.ok s.length)) (splice (padTo b o) o s)
  | truncate (b : List UInt8) (n : Nat) :
      FlatStep b (.truncate n, .truncated (.ok ())) ((padTo b n).take n)
  | stat (b : List UInt8) (st : Stat) (hsize : st.size = b.length) :
      FlatStep b (.stat, .stat st) b

theorem allocPages_zeroed (n : Nat) (pages : List Page) :
    allocPages zeroedFrames n pages = (true, pages ++ List.replicate n Page.zero) := by
  induction n generalizing pages with
  | zero => simp [allocPages]
  | succ n ih =>
    show allocPages zeroedFrames n (pages ++ [Page.zero]) = _
    rw [ih, List.append_assoc, List.singleton_append, List.replicate_succ]

theorem content_take (pages : List Page) (t : Nat) :
    content (pages.take t) = (content pages).take (t * pageSize) := by
  have hsplit : content pages = content (pages.take t) ++ content (pages.drop t) := by
    rw [← content_append, List.take_append_drop]
  rcases Nat.le_total t pages.length with hle | hle
  · rw [hsplit, List.take_left']
    rw [length_content, List.length_take, Nat.min_eq_left hle]
  · rw [List.take_of_length_le hle, List.take_of_length_le]
    rw [length_content]
    exact Nat.mul_le_mul_right _ hle

/-- The whole frames past the target are zeroed. -/
theorem content_clear_frames (pages : List Page) (t : Nat) :
    content (pages.take t ++ (pages.drop t).map (fun _ => Page.zero))
      = (content pages).take (t * pageSize)
        ++ List.replicate (pages.length * pageSize - t * pageSize) 0 := by
  rw [content_append, content_take, List.map_const', content_replicate_zero, List.length_drop,
    Nat.sub_mul]

/-- The page that holds byte `size` is cleared from there on, when only zeros follow it. -/
theorem content_modify_clearFrom {pages : List Page} {data : List UInt8} {size n : Nat}
    (hpages : content pages
      = data.take (size + (pageSize - size % pageSize)) ++ List.replicate n 0)
    (hroom : size + (pageSize - size % pageSize) ≤ data.length)
    (hin : size / pageSize < pages.length) (hle : size % pageSize ≤ pageSize) :
    content (pages.modify (size / pageSize) (fun p => p.clearFrom (size % pageSize) hle))
      = data.take size ++ List.replicate (pageSize - size % pageSize + n) 0 := by
  have hdiv := Nat.div_add_mod' size pageSize
  have hlen : (data.take (size + (pageSize - size % pageSize))).length
      = size + (pageSize - size % pageSize) := by
    rw [List.length_take, Nat.min_eq_left hroom]
  unfold Page.clearFrom
  rw [content_modify_write hin, hpages, hdiv, splice_append _ _ (by omega), hlen,
    List.length_replicate, Nat.sub_self, List.drop_zero]
  unfold splice
  rw [List.length_replicate, List.drop_eq_nil_of_le (Nat.le_of_eq hlen), List.append_nil,
    List.take_take, Nat.min_eq_left (by omega), List.append_assoc,
    List.replicate_append_replicate]

/-- Everything from `size` on is cleared, and nothing before it. -/
theorem content_clearPast (pages : List Page) (size : Nat) :
    content (RamFile.clearPast pages size)
      = (content pages).take size ++ List.replicate (pages.length * pageSize - size) 0 := by
  have hmod := Nat.mod_lt size pageSize_pos
  have hdiv := Nat.div_add_mod' size pageSize
  have hframes := content_clear_frames pages (divCeil size pageSize)
  have hlength : (pages.take (divCeil size pageSize)
      ++ (pages.drop (divCeil size pageSize)).map (fun _ => Page.zero)).length = pages.length := by
    rw [List.length_append, List.length_map, List.length_take, List.length_drop]
    omega
  unfold RamFile.clearPast
  by_cases hexact : size % pageSize = 0
  · rw [if_neg (by simpa using hexact), hframes, divCeil_mul_cancel hexact]
  have htarget : divCeil size pageSize * pageSize
      = size + (pageSize - size % pageSize) := by
    unfold divCeil
    rw [if_neg hexact, Nat.succ_mul]
    omega
  rw [if_pos hexact]
  rw [htarget] at hframes
  rcases Nat.lt_or_ge (size / pageSize) pages.length with hin | hout
  · have hroom : size + (pageSize - size % pageSize) ≤ pages.length * pageSize := by
      have hmul := Nat.mul_le_mul_right pageSize hin
      rw [Nat.succ_mul] at hmul
      omega
    rw [content_modify_clearFrom hframes (by rw [length_content]; exact hroom)
      (by rw [hlength]; exact hin)]
    congr 2
    omega
  · -- `size` lies past the last page: there is nothing to clear
    have hpast : pages.length * pageSize ≤ size := by
      have hmul := Nat.mul_le_mul_right pageSize hout
      omega
    rw [List.modify_eq_self (by rw [hlength]; exact hout), hframes, List.take_of_length_le,
      List.take_of_length_le]
    · congr 2
      omega
    · rw [length_content]
      exact hpast
    · rw [length_content]
      omega

namespace RamFile.Represents

variable {f : RamFile} {b : List UInt8}

theorem len_le (h : f.Represents b) : b.length ≤ f.pages.length * pageSize := by
  obtain ⟨z, hz⟩ := h.padded
  rw [← length_content, hz, List.length_append]
  omega

theorem readat (h : f.Represents b) {o n : Nat} {buffer : List UInt8}
    (hn : n = min buffer.length (b.length - o)) :
    f.readat o buffer = some (n, (b.drop o).take n ++ buffer.drop n) := by
  have hle := h.len_le
  unfold RamFile.readat
  rw [h.len]
  split
  · have hzero : n = 0 := by omega
    simp [hzero]
  have hloop := readLoop_eq f.pages o n 0 buffer (by omega) (by omega)
  obtain ⟨z, hz⟩ := h.padded
  have hbytes : ((content f.pages).drop o).take n = (b.drop o).take n := by
    rw [hz, List.drop_append_of_le_length (by omega),
      List.take_append_of_le_length (by rw [List.length_drop]; omega)]
  have hlen : ((b.drop o).take n).length = n := by
    rw [List.length_take, List.length_drop]
    omega
  rw [hbytes] at hloop
  simp only [← hn, hloop, Option.map_some]
  unfold splice
  rw [hlen, List.take_zero, List.nil_append, Nat.zero_add]

/-- Adding zeroed frames keeps what the file represents. -/
theorem content_grow (h : f.Represents b) (n : Nat) :
    ∃ z, content (f.pages ++ List.replicate n Page.zero) = b ++ List.replicate z 0 := by
  obtain ⟨z, hz⟩ := h.padded
  refine ⟨z + n * pageSize, ?_⟩
  rw [content_append, content_replicate_zero, hz, List.append_assoc, List.replicate_append_replicate]

theorem writeat (h : f.Represents b) (o : Nat) {s : List UInt8} (hs : s ≠ []) :
    ∃ g : RamFile, f.writeat zeroedFrames o s = (.ok s.length, g)
      ∧ g.Represents (splice (padTo b o) o s) := by
  have hspos : 0 < s.length := List.length_pos_iff.mpr hs
  obtain ⟨inner, hinner⟩ : ∃ inner, inner = f.pages
      ++ List.replicate (divCeil (o + s.length) pageSize - f.pages.length) Page.zero := ⟨_, rfl⟩
  have hroom : o + s.length ≤ inner.length * pageSize := by
    have hceil := le_mul_divCeil (o + s.length) pageSize_pos
    have hcount : divCeil (o + s.length) pageSize ≤ inner.length := by
      rw [hinner, List.length_append, List.length_replicate]
      omega
    calc o + s.length ≤ pageSize * divCeil (o + s.length) pageSize := hceil
      _ ≤ pageSize * inner.length := Nat.mul_le_mul_left _ hcount
      _ = inner.length * pageSize := Nat.mul_comm _ _
  obtain ⟨hcontent, hoffset⟩ := writeLoop_eq s inner o 0 s.length hroom (by omega)
  rw [List.drop_zero, List.take_length] at hcontent
  obtain ⟨z, hz⟩ := h.content_grow (divCeil (o + s.length) pageSize - f.pages.length)
  rw [← hinner] at hz
  have hlen : b.length + z = inner.length * pageSize := by
    rw [← length_content, hz, List.length_append, List.length_replicate]
  have hwritten : f.writeat zeroedFrames o s = (.ok s.length,
      { f with
        pages := (writeLoop s inner o 0 s.length).1
        len := if o + s.length > f.len then o + s.length else f.len }) := by
    simp only [RamFile.writeat, writeatPages, allocPages_zeroed, ← hinner]
    rw [if_neg (by simp), if_pos (by omega),
      Nat.min_eq_left (by omega : s.length ≤ inner.length * pageSize - o), hoffset]
  refine ⟨_, hwritten, ?_, ?_⟩
  · have hflen := h.len
    simp only [padTo, splice, List.length_append, List.length_take, List.length_drop,
      List.length_replicate]
    split <;> omega
  · -- the zeros behind `b` reach up to `o`, and what the write leaves of them stays behind
    have hpad : (padTo b o).length = max b.length o := by
      simp only [padTo, List.length_append, List.length_replicate]
      omega
    have hsplit : b ++ List.replicate z 0
        = padTo b o ++ List.replicate (z - (o - b.length)) 0 := by
      rw [padTo, List.append_assoc, List.replicate_append_replicate]
      congr 2
      omega
    refine ⟨z - (o - b.length) - (o + s.length - (padTo b o).length), ?_⟩
    show content (writeLoop s inner o 0 s.length).1 = _
    rw [hcontent, hz, hsplit, splice_append _ _ (by omega), List.drop_replicate]

theorem truncate (h : f.Represents b) (n : Nat) :
    ∃ g : RamFile, f.truncate zeroedFrames n = (.ok (), g)
      ∧ g.Represents ((padTo b n).take n) := by
  obtain ⟨z, hz⟩ := h.padded
  have hlen : b.length + z = f.pages.length * pageSize := by
    rw [← length_content, hz, List.length_append, List.length_replicate]
  have htrunc : f.truncate zeroedFrames n = (.ok (),
      { f with
        len := n
        pages := RamFile.clearPast f.pages n
          ++ List.replicate (divCeil n pageSize - f.pages.length) Page.zero }) := by
    simp only [RamFile.truncate, allocPages_zeroed, if_true]
  have hpad : ((padTo b n).take n).length = n := by
    simp only [padTo, List.length_take, List.length_append, List.length_replicate]
    omega
  refine ⟨_, htrunc, hpad.symm, ?_⟩
  -- the frames are `b` cut at `n` and zeros from there on; enough of them to reach `n`
  have hceil := le_mul_divCeil n pageSize_pos
  have hgrow : n - b.length ≤ min (n - b.length) z
      + (f.pages.length * pageSize - n)
      + (divCeil n pageSize - f.pages.length) * pageSize := by
    rw [Nat.sub_mul, Nat.mul_comm (divCeil n pageSize)]
    omega
  refine ⟨min (n - b.length) z + (f.pages.length * pageSize - n)
    + (divCeil n pageSize - f.pages.length) * pageSize - (n - b.length), ?_⟩
  show content (RamFile.clearPast f.pages n ++ List.replicate _ Page.zero) = _
  rw [content_append, content_clearPast, content_replicate_zero, hz, padTo, List.take_append,
    List.take_append, List.take_replicate, List.take_replicate, Nat.min_self]
  simp only [List.append_assoc, List.replicate_append_replicate]
  congr 2
  omega

end RamFile.Represents

theorem RamFile.Represents.step {f g : RamFile} {l : RamCall × RamAnswer} {b : List UInt8}
    (h : f.Represents b) (hstep : RamStep f l g) : ∃ c, FlatStep b l c ∧ g.Represents c := by
  obtain ⟨call, answer⟩ := l
  obtain ⟨hallowed, hexec⟩ := hstep
  cases call with
  | readat o buffer =>
      simp only [RamFile.exec, h.readat rfl, Option.map_some] at hexec
      cases hexec
      exact ⟨b, .readat b o buffer _ rfl, h⟩
  | writeat o s =>
      obtain ⟨f', hwrite, hrep⟩ := h.writeat o hallowed
      simp only [RamFile.exec, hwrite] at hexec
      cases hexec
      exact ⟨_, .writeat b o s, hrep⟩
  | truncate n =>
      obtain ⟨f', htrunc, hrep⟩ := h.truncate n
      simp only [RamFile.exec, htrunc] at hexec
      cases hexec
      exact ⟨_, .truncate b n, hrep⟩
  | stat =>
      cases hexec
      exact ⟨b, .stat b f.stat h.len, h⟩

/-- No call panics on a file that represents a byte list. -/
theorem RamFile.Represents.exec_isSome {f : RamFile} {b : List UInt8} (h : f.Represents b)
    (call : RamCall) : ∃ answer g, f.exec zeroedFrames call = some (answer, g) := by
  cases call with
  | readat o buffer =>
      obtain ⟨res, hres⟩ : ∃ res, f.readat o buffer = some res := ⟨_, h.readat rfl⟩
      exact ⟨.read res.1 res.2, f, by simp [RamFile.exec, hres]⟩
  | writeat o s => exact ⟨_, _, rfl⟩
  | truncate n => exact ⟨_, _, rfl⟩
  | stat => exact ⟨_, _, rfl⟩

/-- **A RamFile is a flat byte file.** Every run of calls on a new file is, answer for answer,
a run of the byte list that starts empty; the file then represents that list, and every
further call is answered. -/
theorem ramFile_refines_flat {name : String} {times : TimeSpec × TimeSpec × TimeSpec}
    {labels : List (RamCall × RamAnswer)} {f : RamFile}
    (hrun : Run RamStep (RamFile.new name times) labels f) :
    ∃ b, Run FlatStep [] labels b ∧ f.Represents b
      ∧ ∀ call : RamCall, call.Allowed → ∃ answer g, RamStep f (call, answer) g := by
  have hnew : (RamFile.new name times).Represents [] := ⟨rfl, 0, rfl⟩
  obtain ⟨b, hflat, hrep⟩ := hrun.refines (fun _ _ _ _ h hstep => h.step hstep) hnew
  refine ⟨b, hflat, hrep, fun call hallowed => ?_⟩
  obtain ⟨answer, g, hexec⟩ := hrep.exec_isSome call
  exact ⟨answer, g, hallowed, hexec⟩

/-- Three bytes written, the file cut to one and grown again: the other two read as zeros. -/
theorem ramFile_refines_flat_regrown :
    ∃ (labels : List (RamCall × RamAnswer)) (f : RamFile) (b : List UInt8),
      labels = [(.writeat 0 [1, 2, 3], .written (.ok 3)), (.truncate 1, .truncated (.ok ())),
        (.truncate 3, .truncated (.ok ())), (.readat 0 [9, 9, 9, 9], .read 3 [1, 0, 0, 9])]
      ∧ Run RamStep (.new "a" ⟨⟨0, 0⟩, ⟨0, 0⟩, ⟨0, 0⟩⟩) labels f
      ∧ Run FlatStep [] labels b ∧ f.Represents b := by
  have hnew : (RamFile.new "a" ⟨⟨0, 0⟩, ⟨0, 0⟩, ⟨0, 0⟩⟩).Represents [] := ⟨rfl, 0, rfl⟩
  obtain ⟨f, hwrite, hf⟩ := hnew.writeat 0 (s := [1, 2, 3]) (by decide)
  obtain ⟨g, hcut, hg⟩ := hf.truncate 1
  obtain ⟨h, hgrow, hh⟩ := hg.truncate 3
  have hread : h.readat 0 [9, 9, 9, 9] = some (3, [1, 0, 0, 9]) := hh.readat (by decide)
  have hrun : Run RamStep (.new "a" ⟨⟨0, 0⟩, ⟨0, 0⟩, ⟨0, 0⟩⟩)
      [(.writeat 0 [1, 2, 3], .written (.ok 3)), (.truncate 1, .truncated (.ok ())),
        (.truncate 3, .truncated (.ok ())), (.readat 0 [9, 9, 9, 9], .read 3 [1, 0, 0, 9])] h := by
    refine .cons (t := f) ⟨by show _ ≠ _; decide, ?_⟩ (.cons (t := g) ⟨trivial, ?_⟩
      (.cons (t := h) ⟨trivial, ?_⟩ (.cons (t := h) ⟨trivial, ?_⟩ (.nil h))))
    · simp [RamFile.exec, hwrite]
    · simp [RamFile.exec, hcut]
    · simp [RamFile.exec, hgrow]
    · simp [RamFile.exec, hread]
  obtain ⟨b, hflat, hrep, -⟩ := ramFile_refines_flat hrun
  exact ⟨_, h, b, rfl, hrun, hflat, hrep⟩

end MonkeyOS
