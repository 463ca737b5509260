import MonkeyOS.Fs.File
import MonkeyOS.Lib.Vectored

/-!
# MonkeyOS — `sys_readv` and `sys_writev` (`kernel/src/syscall/fd.rs`)

Both go over the `IoVec`s with one `File::read` or `File::write` each and stop at the first error. What
the earlier buffers moved is then moved, and the caller is told the error only.

* `ReadLaw`, `WriteLaw` — what was moved is the front of the concatenated buffers, as long as the answer
  says, and nothing on an error;
* `ReadFails`, `WriteFails` — the buffers that fail, by the sizes alone;
* `readLaw_of_clean` — the law of `readv` holds if no buffer fails once a byte has been moved;
* `writeLaw_of_clean` — the same for `writev` to a queue; to a `RamFile` it is enough that the frames
  are granted (`RamFile.AllGranted`). One that is refused frames can also leave a gap, or be stretched
  by a write of no bytes.

The `IoVec`s are read before the call; a buffer is not over them.
-/

namespace MonkeyOS

open Lib

/-- `base` and `len`. -/
abbrev IoVec := Nat × Nat

/-- One turn of `sys_readv`: the buffer is a slice of the user's memory. -/
def readvOne : File × ByteMem → IoVec → Option (Except Errno Nat × File × ByteMem)
  | (file, mem), io =>
    (file.read (window mem io)).map (fun (res, buffer, file) => (res, file, store mem io.1 buffer))

/-- `sys_readv` on the file behind the descriptor. -/
def sysReadv (file : Option File) (mem : ByteMem) (iov : List IoVec) :
    Option (Except Errno Nat × Option File × ByteMem) :=
  match file with
  | none => some (.error .EBADF, none, mem)
  | some file => (vectored readvOne (file, mem) iov).map (fun (res, file, mem) => (res, some file, mem))

/-- One turn of `sys_writev`, the `k`-th; `frameAlloc k` are the frames handed out in it. -/
def writevOne (mem : ByteMem) (frameAlloc : Nat → Nat → Option Page) :
    File × Nat → IoVec → Option (Except Errno Nat × File × Nat)
  | (file, k), io =>
    let (res, file) := file.write (frameAlloc k) (window mem io)
    some (res, file, k + 1)

def sysWritev (file : Option File) (mem : ByteMem) (frameAlloc : Nat → Nat → Option Page)
    (iov : List IoVec) : Option (Except Errno Nat × Option File) :=
  match file with
  | none => some (.error .EBADF, none)
  | some file =>
    (vectored (writevOne mem frameAlloc) (file, 0) iov).map (fun (res, file, _) => (res, some file))

/-! ## The laws -/

def sizes (iov : List IoVec) : List Nat := iov.map Prod.snd

/-- The concatenated buffers. -/
def buffers (mem : ByteMem) (iov : List IoVec) : List UInt8 := (iov.map (window mem)).flatten

def ReadLaw (f : File) (mem : ByteMem) (iov : List IoVec) : Prop :=
  ∀ res g mem', sysReadv (some f) mem iov = some (res, some g, mem') →
    match res with
    | .ok n => n ≤ (sizes iov).sum ∧ f.Consumed ((buffers mem' iov).take n) g
    | .error _ => f.Consumed [] g

def FileNode.len : FileNode → Nat
  | .ramFile file => file.len
  | .pipeSender queue => queue.length
  | .pipeReceiver queue _ => queue.length
  | .socketPair queue => queue.length

/-- Without data it also does not get longer. -/
def File.Appended (f : File) (data : List UInt8) (g : File) : Prop :=
  f.Written data g ∧ (data = [] → g.inner.len = f.inner.len)

def WriteLaw (f : File) (mem : ByteMem) (frameAlloc : Nat → Nat → Option Page) (iov : List IoVec) : Prop :=
  ∀ res g, sysWritev (some f) mem frameAlloc iov = some (res, some g) →
    match res with
    | .ok n => n ≤ (sizes iov).sum ∧ f.Appended ((buffers mem iov).take n) g
    | .error _ => f.Appended [] g

/-! ## Which buffers fail -/

/-- A read of `n` bytes fails, once `asked` bytes were asked for. -/
def FileNode.ReadFails (x : FileNode) (asked n : Nat) : Prop :=
  match x with
  | .ramFile _ => False
  | .pipeSender _ => True
  | .pipeReceiver queue strongCount => 0 < strongCount ∧ n ≠ 0 ∧ queue.length ≤ asked
  -- also an empty buffer
  | .socketPair queue => n = 0 ∨ queue.length ≤ asked

/-- A write of `n` bytes to a queue fails, once `asked` bytes are written. -/
def File.WriteFails (f : File) (asked n : Nat) : Prop :=
  f.writeable = false ∨ n ≠ 0 ∧
    match f.inner with
    | .ramFile _ => False
    | .pipeSender queue => 16 < n ∧ Pipe.bufferSize < queue.length + asked + n
    | .pipeReceiver _ _ => True
    | .socketPair queue => 0x50000 < queue.length + asked

def ReadClean (f : File) (iov : List IoVec) : Prop := Lib.Clean f.inner.ReadFails (sizes iov)

/-- The frames that `writev` asks for are granted. The buffer behind `front` asks, in turn
`front.length`, for the pages up to its end that the file does not have and that the buffers in front
have not got. -/
def RamFile.AllGranted (file : RamFile) (offset : Nat) (frameAlloc : Nat → Nat → Option Page)
    (sizes : List Nat) : Prop :=
  ∀ front n back, sizes = front ++ n :: back → n ≠ 0 → ∀ i, file.pages.length ≤ i →
    (front.sum ≠ 0 → offset + front.sum ≤ i * pageSize) →
    i * pageSize < offset + front.sum + n → (frameAlloc front.length i).isSome

/-- In terms of the file before the call and of the frames. -/
def WriteClean (f : File) (frameAlloc : Nat → Nat → Option Page) (iov : List IoVec) : Prop :=
  match f.inner with
  | .ramFile file => f.writeable = false
    ∨ f.offset + (sizes iov).sum < 2 ^ 64 ∧ file.AllGranted f.offset frameAlloc (sizes iov)
  | _ => Lib.Clean f.WriteFails (sizes iov)

/-! ## Reading -/

section Read

variable {x y : FileNode} {offset m : Nat} {buffer after queue queue' : List UInt8}
  {res : Except Errno Nat} {f g : File} {mem mem' : ByteMem} {iov : List IoVec} {ms : List Nat}
  {e : Option Errno} {s t : File × ByteMem}

/-- The bytes that a read can still take. -/
def FileNode.available (x : FileNode) (offset : Nat) : Nat :=
  match x with
  | .ramFile file => file.len - offset
  | .pipeSender _ => 0
  | .pipeReceiver queue _ => queue.length
  | .socketPair queue => queue.length

theorem Pipe.readat_error_iff (queue buffer : List UInt8) (strongCount : Nat) :
    (∃ e, (Pipe.readat queue strongCount buffer).1 = .error e)
      ↔ 0 < strongCount ∧ buffer.length ≠ 0 ∧ queue.length = 0 := by
  unfold Pipe.readat
  split
  · rename_i hempty
    rw [List.isEmpty_iff_length_eq_zero] at hempty
    exact ⟨fun ⟨e, h⟩ => (nomatch h), fun h => absurd hempty h.2.1⟩
  · rename_i hempty
    rw [List.isEmpty_iff_length_eq_zero] at hempty
    split
    · rename_i hqueue
      exact ⟨fun ⟨e, h⟩ => (nomatch h), fun h => absurd h.2.2 (by omega)⟩
    rename_i hqueue
    split
    · rename_i hcount
      exact iff_of_true ⟨_, rfl⟩ ⟨hcount, hempty, by omega⟩
    · rename_i hcount
      exact ⟨fun ⟨e, h⟩ => (nomatch h), fun h => absurd h.1 hcount⟩

theorem Pipe.readat_ok {strongCount : Nat}
    (h : Pipe.readat queue strongCount buffer = (.ok m, after, queue')) :
    m = min buffer.length queue.length ∧ queue'.length = queue.length - m := by
  unfold Pipe.readat at h
  split at h
  · rename_i hempty
    rw [List.isEmpty_iff_length_eq_zero] at hempty
    cases h
    exact ⟨by omega, rfl⟩
  · split at h
    · cases h
      exact ⟨Nat.min_comm _ _, List.length_drop⟩
    · split at h
      · cases h
      · cases h
        exact ⟨by omega, rfl⟩

theorem SocketPair.readat_error_iff (queue buffer : List UInt8) :
    (∃ e, (SocketPair.readat queue buffer).1 = .error e)
      ↔ buffer.length = 0 ∨ queue.length = 0 := by
  unfold SocketPair.readat
  simp only
  split
  · exact iff_of_true ⟨_, rfl⟩ (by omega)
  · exact ⟨fun ⟨e, h⟩ => (nomatch h), fun h => absurd h (by omega)⟩

theorem SocketPair.readat_ok (h : SocketPair.readat queue buffer = (.ok m, after, queue')) :
    m = min buffer.length queue.length ∧ m ≠ 0 ∧ queue'.length = queue.length - m := by
  unfold SocketPair.readat at h
  obtain ⟨hres, hrest⟩ := Prod.mk.inj h
  obtain ⟨-, hqueue⟩ := Prod.mk.inj hrest
  split at hres
  · cases hres
  rename_i hpos
  cases hres
  refine ⟨Nat.min_comm _ _, hpos, ?_⟩
  rw [← hqueue, List.length_drop]

namespace FileNode

theorem readat_pipeReceiver {queue : List UInt8} {strongCount : Nat}
    (h : (pipeReceiver queue strongCount).readat offset buffer = some (res, after, y)) :
    ∃ queue', Pipe.readat queue strongCount buffer = (res, after, queue')
      ∧ y = pipeReceiver queue' strongCount := by
  obtain ⟨hres, hrest⟩ := Prod.mk.inj (Option.some.inj h)
  obtain ⟨hafter, hnode⟩ := Prod.mk.inj hrest
  exact ⟨_, Prod.ext hres (Prod.ext hafter rfl), hnode.symm⟩

theorem readat_socketPair {queue : List UInt8}
    (h : (socketPair queue).readat offset buffer = some (res, after, y)) :
    ∃ queue', SocketPair.readat queue buffer = (res, after, queue') ∧ y = socketPair queue' := by
  obtain ⟨hres, hrest⟩ := Prod.mk.inj (Option.some.inj h)
  obtain ⟨hafter, hnode⟩ := Prod.mk.inj hrest
  exact ⟨_, Prod.ext hres (Prod.ext hafter rfl), hnode.symm⟩

/-- A read takes what is there, as much as fits. -/
theorem readat_available (h : x.readat offset buffer = some (.ok m, after, y)) :
    m = min buffer.length (x.available offset)
      ∧ y.available (offset + m) = x.available offset - m := by
  cases x with
  | ramFile file =>
    obtain ⟨⟨n, after'⟩, hread, heq⟩ := Option.map_eq_some_iff.mp h
    cases heq
    refine ⟨(RamFile.readat_consumed hread).1, ?_⟩
    show file.len - _ = file.len - _ - _
    omega
  | pipeSender queue => cases h
  | pipeReceiver queue strongCount =>
    obtain ⟨queue', hread, rfl⟩ := readat_pipeReceiver h
    exact Pipe.readat_ok hread
  | socketPair queue =>
    obtain ⟨queue', hread, rfl⟩ := readat_socketPair h
    obtain ⟨hm, -, hqueue⟩ := SocketPair.readat_ok hread
    exact ⟨hm, hqueue⟩

theorem readat_fails_iff (h : x.readat offset buffer = some (res, after, y)) :
    (∃ e, res = .error e) ↔ x.ReadFails 0 buffer.length := by
  cases x with
  | ramFile file =>
    obtain ⟨⟨n, after'⟩, -, heq⟩ := Option.map_eq_some_iff.mp h
    cases heq
    exact ⟨fun ⟨e, he⟩ => (nomatch he), False.elim⟩
  | pipeSender queue =>
    cases h
    exact iff_of_true ⟨_, rfl⟩ trivial
  | pipeReceiver queue strongCount =>
    obtain ⟨queue', hread, rfl⟩ := readat_pipeReceiver h
    have hiff := Pipe.readat_error_iff queue buffer strongCount
    rw [hread] at hiff
    show _ ↔ 0 < strongCount ∧ buffer.length ≠ 0 ∧ queue.length ≤ 0
    rw [Nat.le_zero]
    exact hiff
  | socketPair queue =>
    obtain ⟨queue', hread, rfl⟩ := readat_socketPair h
    have hiff := SocketPair.readat_error_iff queue buffer
    rw [hread] at hiff
    show _ ↔ buffer.length = 0 ∨ queue.length ≤ 0
    rw [Nat.le_zero]
    exact hiff

/-- What comes next fails as if this read had been the first of two. -/
theorem readFails_readat (h : x.readat offset buffer = some (.ok m, after, y)) (asked n : Nat) :
    y.ReadFails asked n ↔ x.ReadFails (buffer.length + asked) n := by
  cases x with
  | ramFile file =>
    obtain ⟨⟨n, after'⟩, -, heq⟩ := Option.map_eq_some_iff.mp h
    cases heq
    rfl
  | pipeSender queue => cases h
  | pipeReceiver queue strongCount =>
    obtain ⟨queue', hread, rfl⟩ := readat_pipeReceiver h
    obtain ⟨hm, hqueue⟩ := Pipe.readat_ok hread
    show 0 < strongCount ∧ n ≠ 0 ∧ queue'.length ≤ asked
      ↔ 0 < strongCount ∧ n ≠ 0 ∧ queue.length ≤ buffer.length + asked
    rw [hqueue]
    omega
  | socketPair queue =>
    obtain ⟨queue', hread, rfl⟩ := readat_socketPair h
    obtain ⟨hm, -, hqueue⟩ := SocketPair.readat_ok hread
    show n = 0 ∨ queue'.length ≤ asked ↔ n = 0 ∨ queue.length ≤ buffer.length + asked
    rw [hqueue]
    omega

end FileNode

/-- The operation of one turn, on the buffer as a slice. -/
theorem readvOne_cases {f : File} {mem : ByteMem} {io : IoVec}
    (h : readvOne (f, mem) io = some (res, g, mem')) :
    ∃ after, f.inner.readat f.offset (window mem io) = some (res, after, g.inner)
      ∧ g.offset = f.offset + moved res ∧ f.Consumed (after.take (moved res)) g
      ∧ moved res ≤ io.2 ∧ after.length = io.2 ∧ mem' = store mem io.1 after := by
  obtain ⟨⟨res', after, g'⟩, hread, heq⟩ := Option.map_eq_some_iff.mp h
  cases heq
  obtain ⟨hle, hlen, hconsumed⟩ := File.read_consumed hread
  rw [length_window] at hle hlen
  obtain ⟨⟨res', after', inner⟩, hnode, heq⟩ := Option.map_eq_some_iff.mp hread
  cases heq
  exact ⟨after, hnode, rfl, hconsumed, hle, hlen, rfl⟩

/-- Where a read fails is known from what was asked for before it. -/
theorem readv_gauged (x : FileNode) :
    Gauged readvOne Prod.snd
      (fun asked s => ∀ more n, s.1.inner.ReadFails more n ↔ x.ReadFails (asked + more) n)
      x.ReadFails where
  error := by
    intro asked s io e t hat hop
    obtain ⟨after, hread, -⟩ := readvOne_cases hop
    have hfails := (FileNode.readat_fails_iff hread).mp ⟨e, rfl⟩
    rw [length_window, hat 0 io.2] at hfails
    exact hfails
  ok := by
    intro asked s io m t hat hop
    obtain ⟨after, hread, -⟩ := readvOne_cases hop
    have hpass : ¬ s.1.inner.ReadFails 0 io.2 := by
      rw [← length_window s.2 io, ← FileNode.readat_fails_iff hread]
      exact fun ⟨e, he⟩ => (nomatch he)
    rw [hat 0 io.2] at hpass
    refine ⟨hpass, fun more n => ?_⟩
    rw [FileNode.readFails_readat hread, length_window, hat, Nat.add_assoc]

/-- An error comes before any byte is moved. -/
theorem readv_quiet (h : Transfers readvOne (f, mem) iov ms e t) (hclean : ReadClean f iov)
    (he : e ≠ none) : ms.sum = 0 := by
  refine (readv_gauged f.inner).quiet_of_clean (fun s io m t hop => ?_)
    (fun more n => by rw [Nat.zero_add]) h hclean he
  obtain ⟨after, -, -, -, hle, -⟩ := readvOne_cases hop
  exact hle

/-- No bytes are left once a buffer was not filled. -/
theorem readv_gapless {iov : List IoVec}
    (h : Transfers readvOne s iov ms none t) : Gapless (sizes iov) ms := by
  have hamount : ∀ s io m t, readvOne s io = some (.ok m, t) →
      m = min io.2 (s.1.inner.available s.1.offset)
        ∧ t.1.inner.available t.1.offset = s.1.inner.available s.1.offset - m := by
    intro s io m t hop
    obtain ⟨after, hread, hoffset, -⟩ := readvOne_cases hop
    have hamount := FileNode.readat_available hread
    rw [length_window] at hamount
    rw [hoffset]
    exact hamount
  apply h.gapless _ (fun s => s.1.inner.available s.1.offset = 0)
  · intro s io m t hop hshort
    obtain ⟨hm, hleft⟩ := hamount s io m t hop
    omega
  · intro s io m t hdry hop
    obtain ⟨hm, hleft⟩ := hamount s io m t hop
    omega
  · intro s io m t hop
    obtain ⟨hm, -⟩ := hamount s io m t hop
    omega

/-- Memory outside the buffers is left alone. -/
theorem readv_outside {iov : List IoVec} (h : Transfers readvOne s iov ms e t) {a : Nat}
    (ha : ∀ io ∈ iov, ¬ (io.1 ≤ a ∧ a < io.1 + io.2)) : t.2 a = s.2 a := by
  have hone : ∀ s io res t, readvOne s io = some (res, t) → ¬ (io.1 ≤ a ∧ a < io.1 + io.2) →
      t.2 a = s.2 a := by
    intro s io res t hop hio
    obtain ⟨after, -, -, -, -, hlen, hmem⟩ := readvOne_cases hop
    rw [hmem]
    exact store_outside (by rw [hlen]; exact hio)
  induction h with
  | done => rfl
  | failed hop => exact hone _ _ _ _ hop (ha _ List.mem_cons_self)
  | next hop _ ih =>
    obtain ⟨hhead, htail⟩ := List.forall_mem_cons.mp ha
    exact (ih htail).trans (hone _ _ _ _ hop hhead)

theorem File.Consumed.append {f h : File} {data data' : List UInt8} (hf : f.Consumed data g)
    (hg : g.Consumed data' h) : f.Consumed (data ++ data') h := by
  obtain ⟨hnode, hoffset⟩ := hf
  obtain ⟨hnode', hoffset'⟩ := hg
  have hnext : g.offset = f.offset + data.length := by rw [hoffset]
  rw [hnext] at hnode'
  refine ⟨hnode.append hnode', ?_⟩
  rw [hoffset', hnext, hoffset, List.length_append, Nat.add_assoc]

/-- What is in the buffers at the end is what was consumed. -/
theorem readv_consumed {iov : List IoVec} (h : Transfers readvOne s iov ms e t)
    (hapart : iov.Pairwise NoOverlap) :
    s.1.Consumed (pieces ms (iov.map (window t.2))) t.1 := by
  induction h with
  | done s => exact ⟨.nil _ _, rfl⟩
  | failed hop =>
    obtain ⟨after, -, -, hconsumed, -⟩ := readvOne_cases hop
    exact hconsumed
  | @next s t u io iov m ms e hop hrest ih =>
    obtain ⟨hhead, hapart⟩ := List.pairwise_cons.mp hapart
    obtain ⟨after, -, -, hconsumed, -, hlen, hmem⟩ := readvOne_cases hop
    have hwindow : window u.2 io = after := by
      rw [window_congr (fun a hlo hhi => readv_outside hrest
        (fun io' hio' hin => hhead io' hio' a ⟨hlo, hhi, hin.1, hin.2⟩)), hmem]
      exact window_store hlen
    show s.1.Consumed ((window u.2 io).take m ++ pieces ms (iov.map (window u.2))) u.1
    rw [hwindow]
    exact hconsumed.append (ih hapart)

theorem sysReadv_some (h : sysReadv (some f) mem iov = some (res, some g, mem')) :
    ∃ ms e, Transfers readvOne (f, mem) iov ms e (g, mem') ∧ res = answer ms e := by
  obtain ⟨⟨res', g', mem''⟩, hloop, heq⟩ := Option.map_eq_some_iff.mp h
  cases heq
  exact transfers_of_vectored hloop

theorem readLaw_of_clean (hclean : ReadClean f iov) (hapart : iov.Pairwise NoOverlap) (mem : ByteMem) :
    ReadLaw f mem iov := by
  intro res g mem' h
  obtain ⟨ms, e, htransfers, rfl⟩ := sysReadv_some h
  have hconsumed := readv_consumed htransfers hapart
  cases e with
  | none =>
    have hgapless := readv_gapless htransfers
    refine ⟨hgapless.sum_le, ?_⟩
    unfold sizes at hgapless
    rw [← map_length_windows mem'] at hgapless
    rw [hgapless.pieces_eq] at hconsumed
    exact hconsumed
  | some e =>
    have hsum := readv_quiet htransfers hclean (Option.some_ne_none e)
    rw [pieces_eq_nil (List.sum_eq_zero_iff_forall_eq_nat.mp hsum)] at hconsumed
    exact hconsumed

def FileNode.IsQueue : FileNode → Prop
  | .ramFile _ => False
  | _ => True

theorem FileNode.isQueue_of_ne {x : FileNode} (h : ∀ file, x = .ramFile file → False) : x.IsQueue := by
  cases x with
  | ramFile file => exact h file rfl
  | pipeSender queue => trivial
  | pipeReceiver queue strongCount => trivial
  | socketPair queue => trivial

end Read

/-! ## Writing to a queue -/

section Write

variable {f g : File} {buffer : List UInt8} {res : Except Errno Nat}
  {frame : Nat → Option Page} {frameAlloc : Nat → Nat → Option Page} {mem : ByteMem}
  {iov : List IoVec} {ms : List Nat} {e : Option Errno}

namespace File

/-- What is left to write fails as if it were written behind this buffer. -/
structure Whole (f : File) (size : Nat) (m : Nat) (g : File) : Prop where
  whole : m = size
  queue : g.inner.IsQueue
  fails : ∀ more n, g.WriteFails more n ↔ f.WriteFails (size + more) n

/-- A queue that takes the buffer whole or refuses it. -/
theorem write_queue_of {queue queue' : List UInt8} {full : Prop} [Decidable full]
    (hstep : (if full then (.error .EWOULDBLOCK, queue) else (.ok buffer.length, queue ++ buffer))
      = (res, queue'))
    (hfull : f.WriteFails 0 buffer.length ↔ full) (hqueue : g.inner.IsQueue)
    (hnext : queue' = queue ++ buffer → ∀ more n,
      g.WriteFails more n ↔ f.WriteFails (buffer.length + more) n) :
    (res = .error .EWOULDBLOCK ∧ f.WriteFails 0 buffer.length)
      ∨ res = .ok buffer.length ∧ ¬ f.WriteFails 0 buffer.length
        ∧ f.Whole buffer.length buffer.length g := by
  split at hstep
  · rename_i hrefused
    cases hstep
    exact .inl ⟨rfl, hfull.mpr hrefused⟩
  · rename_i hfits
    cases hstep
    exact .inr ⟨rfl, fun h => hfits (hfull.mp h), rfl, hqueue, hnext rfl⟩

theorem write_queue (hqueue : f.inner.IsQueue) (h : f.write frame buffer = (res, g)) :
    match res with
    | .error _ => f.WriteFails 0 buffer.length
    | .ok m => ¬ f.WriteFails 0 buffer.length ∧ f.Whole buffer.length m g := by
  rcases write_cases h with ⟨hnot, rfl, rfl⟩ | ⟨hwriteable, hempty, rfl, rfl⟩
    | ⟨hwriteable, hne, inner, hwrite, rfl⟩
  · exact .inl hnot
  · refine ⟨?_, hempty.symm, hqueue, fun more n => by rw [hempty, Nat.zero_add]⟩
    rintro (hnot | hne)
    · rw [hwriteable] at hnot
      cases hnot
    · exact hne.1 hempty
  · cases hinner : f.inner with
    | ramFile file =>
      rw [hinner] at hqueue
      exact hqueue.elim
    | pipeSender queue =>
      rw [hinner] at hwrite
      obtain ⟨queue', hqueued, rfl⟩ := FileNode.writeat_pipeSender hwrite
      rw [Pipe.writeat_eq] at hqueued
      have hfull : f.WriteFails 0 buffer.length ↔ 16 < buffer.length
          ∧ Pipe.bufferSize < queue.length + buffer.length := by
        unfold WriteFails
        rw [hinner]
        simp [hwriteable, hne]
      rcases write_queue_of (g := { f with inner := .pipeSender queue', offset := f.offset + moved res })
        hqueued hfull trivial (by
          rintro rfl more n
          unfold WriteFails
          rw [hinner]
          simp only [List.length_append, Nat.add_assoc]) with ⟨rfl, hrefused⟩ | ⟨rfl, htaken⟩
      · exact hrefused
      · exact htaken
    | pipeReceiver queue strongCount =>
      rw [hinner] at hwrite
      obtain ⟨hres, -⟩ := Prod.mk.inj hwrite
      cases hres
      refine .inr ⟨hne, ?_⟩
      rw [hinner]
      trivial
    | socketPair queue =>
      rw [hinner] at hwrite
      obtain ⟨queue', hqueued, rfl⟩ := FileNode.writeat_socketPair hwrite
      unfold SocketPair.writeat at hqueued
      have hfull : f.WriteFails 0 buffer.length ↔ 0x50000 < queue.length := by
        unfold WriteFails
        rw [hinner]
        simp [hwriteable, hne]
      rcases write_queue_of (g := { f with inner := .socketPair queue', offset := f.offset + moved res })
        hqueued hfull trivial (by
          rintro rfl more n
          unfold WriteFails
          rw [hinner]
          simp only [List.length_append, Nat.add_assoc]) with ⟨rfl, hrefused⟩ | ⟨rfl, htaken⟩
      · exact hrefused
      · exact htaken

end File

variable {file : RamFile} {offset n : Nat} {s t : File × Nat} {io : IoVec}

theorem writevOne_eq (h : writevOne mem frameAlloc s io = some (res, t)) :
    s.1.write (frameAlloc s.2) (window mem io) = (res, t.1) ∧ t.2 = s.2 + 1 := by
  obtain ⟨hres, hstate⟩ := Prod.mk.inj (Option.some.inj h)
  rw [← hstate]
  exact ⟨Prod.ext hres rfl, rfl⟩

theorem sysWritev_some (h : sysWritev (some f) mem frameAlloc iov = some (res, some g)) :
    ∃ ms e k, Transfers (writevOne mem frameAlloc) (f, 0) iov ms e (g, k) ∧ res = answer ms e := by
  obtain ⟨⟨res', g', k⟩, hloop, heq⟩ := Option.map_eq_some_iff.mp h
  cases heq
  obtain ⟨ms, e, htransfers, hres⟩ := transfers_of_vectored hloop
  exact ⟨ms, e, k, htransfers, hres⟩

/-- The same for a queue that is written to. -/
theorem writev_gauged (f : File) (mem : ByteMem) (frameAlloc : Nat → Nat → Option Page) :
    Gauged (writevOne mem frameAlloc) Prod.snd
      (fun asked s => s.1.inner.IsQueue
        ∧ ∀ more n, s.1.WriteFails more n ↔ f.WriteFails (asked + more) n)
      f.WriteFails where
  error := by
    rintro asked s io e t ⟨hqueue, hat⟩ hop
    have hfails := File.write_queue hqueue (writevOne_eq hop).1
    rw [length_window, hat] at hfails
    exact hfails
  ok := by
    rintro asked s io m t ⟨hqueue, hat⟩ hop
    obtain ⟨hpass, hwhole⟩ := File.write_queue hqueue (writevOne_eq hop).1
    rw [length_window] at hpass hwhole
    rw [hat] at hpass
    refine ⟨hpass, hwhole.queue, fun more n => ?_⟩
    rw [hwhole.fails, hat, Nat.add_assoc]

theorem writev_whole {asked m : Nat}
    (hat : s.1.inner.IsQueue ∧ ∀ more n, s.1.WriteFails more n ↔ f.WriteFails (asked + more) n)
    (hop : writevOne mem frameAlloc s io = some (.ok m, t)) : m = io.2 := by
  have hwhole := (File.write_queue hat.1 (writevOne_eq hop).1).2.whole
  rwa [length_window] at hwhole

theorem writev_gapless (hqueue : f.inner.IsQueue)
    (h : Transfers (writevOne mem frameAlloc) (f, 0) iov ms none t) : Gapless (sizes iov) ms := by
  have hall := (writev_gauged f mem frameAlloc).moves_all writev_whole
    ⟨hqueue, fun more n => by rw [Nat.zero_add]⟩ h
  rw [hall]
  exact .refl _

/-! ## What was written -/

theorem File.Written.append {f g h : File} {data data' : List UInt8} (hf : f.Written data g)
    (hg : g.Written data' h) : f.Written (data ++ data') h := by
  obtain ⟨hnode, hoffset⟩ := hf
  obtain ⟨hnode', hoffset'⟩ := hg
  have hnext : g.offset = f.offset + data.length := by rw [hoffset]
  rw [hnext] at hnode'
  refine ⟨hnode.append hnode', ?_⟩
  rw [hoffset', hnext, hoffset, List.length_append, Nat.add_assoc]

theorem writev_written (h : Transfers (writevOne mem frameAlloc) s iov ms e t) :
    s.1.Written (pieces ms (iov.map (window mem))) t.1 := by
  induction h with
  | done s => exact ⟨.nil _ _, rfl⟩
  | failed hop => exact (File.write_written (writevOne_eq hop).1).2
  | next hop _ ih => exact (File.write_written (writevOne_eq hop).1).2.append ih

/-- A queue that got no bytes is not longer. -/
theorem File.Written.len_eq (hqueue : f.inner.IsQueue) (h : f.Written [] g) :
    g.inner.len = f.inner.len := by
  obtain ⟨hnode, -⟩ := h
  cases hinner : f.inner with
  | ramFile file =>
    rw [hinner] at hqueue
    exact hqueue.elim
  | pipeSender queue =>
    rw [hinner] at hnode
    rw [show g.inner = _ from hnode, List.append_nil]
  | pipeReceiver queue strongCount =>
    rw [hinner] at hnode
    rw [hnode.1]
  | socketPair queue =>
    rw [hinner] at hnode
    rw [show g.inner = _ from hnode, List.append_nil]

/-! ## Writing to a `RamFile` that gets its frames -/

theorem granted_all {i : Nat} (hframes : ∀ j, i ≤ j → j < i + n → (frame j).isSome) :
    granted frame n i = n := by
  induction n generalizing i with
  | zero => rfl
  | succ n ih =>
    unfold granted
    rw [if_pos (hframes i (Nat.le_refl _) (by omega)), ih (fun j hj hlt => hframes j (by omega) (by omega))]

/-- The whole buffer is taken, and the file then has a page for each of its bytes. -/
theorem RamFile.writeatWord_granted_all (file : RamFile)
    (hframes : ∀ i, file.pages.length ≤ i → i * pageSize < offset + buffer.length → (frame i).isSome)
    (hwrap : offset + buffer.length < 2 ^ 64) :
    ∃ file', file.writeatWord frame offset buffer = (.ok buffer.length, file')
      ∧ file.pages.length ≤ file'.pages.length
      ∧ offset + buffer.length ≤ file'.pages.length * pageSize := by
  have hwanted : file.wanted offset buffer.length
      = divCeil (offset + buffer.length) pageSize - file.pages.length := by
    unfold wanted wordPages
    rw [Nat.mod_eq_of_lt hwrap]
  have hgotten : file.gotten frame offset buffer.length = file.wanted offset buffer.length := by
    apply granted_all
    intro i hi hlt
    refine hframes i hi (Nat.lt_of_not_le fun hle => ?_)
    have := divCeil_le_of_le_mul pageSize_pos hle
    omega
  have hgranted : ¬ file.Refused frame offset buffer.length := by
    unfold Refused
    rw [hgotten]
    omega
  obtain ⟨n, file', hn, hpages, -, heq⟩ := writeatWord_eq_of_granted hgranted
  have hroom : offset + buffer.length
      ≤ (file.pages.length + file.gotten frame offset buffer.length) * pageSize := by
    calc offset + buffer.length
        ≤ pageSize * divCeil (offset + buffer.length) pageSize := le_mul_divCeil _ pageSize_pos
      _ ≤ pageSize * (file.pages.length + file.gotten frame offset buffer.length) := by
        apply Nat.mul_le_mul_left
        rw [hgotten, hwanted]
        omega
      _ = _ := Nat.mul_comm _ _
  have hall : n = buffer.length := by omega
  rw [hall] at heq
  refine ⟨file', heq, by omega, ?_⟩
  rw [hpages]
  exact hroom

/-- What the buffers behind the first ask for is granted too. -/
theorem RamFile.AllGranted.tail {file' : RamFile} {ns : List Nat}
    (h : file.AllGranted offset frameAlloc (n :: ns))
    (hpages : file.pages.length ≤ file'.pages.length)
    (hroom : n ≠ 0 → offset + n ≤ file'.pages.length * pageSize) :
    file'.AllGranted (offset + n) (fun k => frameAlloc (k + 1)) ns := by
  rintro front size back rfl hsize i hi hfront hlt
  rw [Nat.add_assoc offset, ← List.sum_cons] at hfront hlt
  refine h (n :: front) size back rfl hsize i (by omega) (fun hsum => ?_) hlt
  by_cases hzero : front.sum = 0
  · -- the pages up to the end of the first buffer are there by now
    have hmul : file'.pages.length * pageSize ≤ i * pageSize := Nat.mul_le_mul_right _ hi
    rw [List.sum_cons, hzero, Nat.add_zero] at hsum ⊢
    exact Nat.le_trans (hroom hsum) hmul
  · exact hfront hzero

theorem File.write_granted_all (hinner : f.inner = .ramFile file) (hwriteable : f.writeable = true)
    (hframes : buffer.length ≠ 0 → ∀ i, file.pages.length ≤ i →
      i * pageSize < f.offset + buffer.length → (frame i).isSome)
    (hwrap : f.offset + buffer.length < 2 ^ 64) (h : f.write frame buffer = (res, g)) :
    res = .ok buffer.length ∧ g.writeable = true ∧ g.offset = f.offset + buffer.length
      ∧ (buffer.length = 0 → g = f)
      ∧ ∃ file', g.inner = .ramFile file' ∧ file.pages.length ≤ file'.pages.length
        ∧ (buffer.length ≠ 0 → f.offset + buffer.length ≤ file'.pages.length * pageSize) := by
  rcases write_cases h with ⟨hnot, -⟩ | ⟨-, hempty, rfl, rfl⟩ | ⟨-, hne, inner, hwrite, rfl⟩
  · rw [hwriteable] at hnot
    cases hnot
  · exact ⟨by rw [hempty], hwriteable, by rw [hempty]; rfl, fun _ => rfl, file, hinner, Nat.le_refl _,
      fun hne => absurd hempty hne⟩
  · rw [hinner] at hwrite
    obtain ⟨file', hword, rfl⟩ := FileNode.writeat_ramFile hwrite
    obtain ⟨file'', hall, hpages, hroom⟩ :=
      RamFile.writeatWord_granted_all file (hframes hne) hwrap
    rw [hall] at hword
    cases hword
    exact ⟨rfl, hwriteable, rfl, fun hempty => absurd hempty hne, _, rfl, hpages, fun _ => hroom⟩

/-- Each buffer is taken whole. -/
theorem writev_granted_all (h : Transfers (writevOne mem frameAlloc) s iov ms e t)
    (hinner : s.1.inner = .ramFile file) (hwriteable : s.1.writeable = true)
    (hwrap : s.1.offset + (sizes iov).sum < 2 ^ 64)
    (hframes : file.AllGranted s.1.offset (fun k => frameAlloc (s.2 + k)) (sizes iov)) :
    e = none ∧ ms = sizes iov ∧ (ms.sum = 0 → t.1 = s.1) := by
  have hone : ∀ s io iov (res : Except Errno Nat) (t : File × Nat) (file : RamFile),
      writevOne mem frameAlloc s io = some (res, t) → s.1.inner = .ramFile file →
      s.1.writeable = true → s.1.offset + (sizes (io :: iov)).sum < 2 ^ 64 →
      file.AllGranted s.1.offset (fun k => frameAlloc (s.2 + k)) (sizes (io :: iov)) →
      res = .ok io.2 ∧ (io.2 = 0 → t.1 = s.1) ∧ t.1.writeable = true
        ∧ t.1.offset + (sizes iov).sum < 2 ^ 64
        ∧ ∃ file', t.1.inner = .ramFile file'
          ∧ file'.AllGranted t.1.offset (fun k => frameAlloc (t.2 + k)) (sizes iov) := by
    intro s io iov res t file hop hinner hwriteable hwrap hframes
    obtain ⟨hwrite, hnext⟩ := writevOne_eq hop
    have hsum : (sizes (io :: iov)).sum = io.2 + (sizes iov).sum := List.sum_cons
    obtain ⟨hres, hwriteable', hoffset, hsame, file', hinner', hpages, hroom⟩ :=
      File.write_granted_all hinner hwriteable
        (fun hne i hi hlt => hframes [] io.2 (sizes iov) rfl (by rwa [length_window] at hne) i hi
          (fun hnil => absurd rfl hnil) (by rwa [length_window] at hlt))
        (by rw [length_window]; omega) hwrite
    rw [length_window] at hres hoffset hsame hroom
    refine ⟨hres, hsame, hwriteable', by omega, file', hinner', ?_⟩
    rw [hoffset, hnext]
    have htail := RamFile.AllGranted.tail hframes hpages hroom
    simp only [Nat.add_assoc, Nat.add_comm 1] at htail ⊢
    exact htail
  induction h generalizing file with
  | done => exact ⟨rfl, rfl, fun _ => rfl⟩
  | failed hop =>
    obtain ⟨hres, -⟩ := hone _ _ _ _ _ _ hop hinner hwriteable hwrap hframes
    cases hres
  | next hop _ ih =>
    obtain ⟨hres, hsame, hwriteable', hwrap', file', hinner', hframes'⟩ :=
      hone _ _ _ _ _ _ hop hinner hwriteable hwrap hframes
    obtain ⟨he, hms, hrest⟩ := ih hinner' hwriteable' hwrap' hframes'
    cases hres
    refine ⟨he, congrArg (List.cons _) hms, fun hsum => ?_⟩
    rw [List.sum_cons, Nat.add_eq_zero_iff] at hsum
    exact (hrest hsum.2).trans (hsame hsum.1)

/-- The first buffer is refused. -/
theorem writev_readonly (hreadonly : f.writeable = false)
    (h : Transfers (writevOne mem frameAlloc) (f, 0) iov ms e t) : ms = [] ∧ t.1 = f := by
  have hone : ∀ io (res : Except Errno Nat) (t : File × Nat),
      writevOne mem frameAlloc (f, 0) io = some (res, t) → res = .error .EPERM ∧ t.1 = f := by
    intro io res t hop
    rcases File.write_cases (writevOne_eq hop).1 with ⟨-, hres, hsame⟩ | ⟨hnot, -⟩ | ⟨hnot, -⟩
    · exact ⟨hres, hsame⟩
    · rw [hreadonly] at hnot
      cases hnot
    · rw [hreadonly] at hnot
      cases hnot
  cases h with
  | done => exact ⟨rfl, rfl⟩
  | failed hop => exact ⟨rfl, (hone _ _ _ hop).2⟩
  | next hop _ => cases (hone _ _ _ hop).1

/-! ## The law of `writev` -/

/-- A trace without a gap, without an error after a byte was written, and without a file that gets
longer by no bytes. -/
structure CleanTrace (f : File) (iov : List IoVec) (ms : List Nat) (e : Option Errno) (g : File) : Prop where
  gapless : e = none → Gapless (sizes iov) ms
  quiet : e ≠ none → ms.sum = 0
  kept : ms.sum = 0 → g.inner.len = f.inner.len

theorem WriteClean.trace (hclean : WriteClean f frameAlloc iov)
    (h : Transfers (writevOne mem frameAlloc) (f, 0) iov ms e t) : CleanTrace f iov ms e t.1 := by
  unfold WriteClean at hclean
  split at hclean
  · rename_i file hinner
    -- a file that may not be written to refuses the first buffer
    by_cases hreadonly : f.writeable = false
    · obtain ⟨rfl, hsame⟩ := writev_readonly hreadonly h
      refine ⟨fun he => ?_, fun _ => rfl, fun _ => by rw [hsame]⟩
      cases he
      cases h
      exact .done
    · obtain ⟨hwrap, hframes⟩ := hclean.resolve_left hreadonly
      obtain ⟨rfl, rfl, hsame⟩ := writev_granted_all h hinner (by simpa using hreadonly) hwrap
        (by simpa only [Nat.zero_add] using hframes)
      exact ⟨fun _ => .refl _, fun he => absurd rfl he, fun hsum => by rw [hsame hsum]⟩
  · rename_i hnot
    have hqueue := FileNode.isQueue_of_ne hnot
    have hle : ∀ s io m (t : File × Nat), writevOne mem frameAlloc s io = some (.ok m, t) → m ≤ io.2 := by
      intro s io m t hop
      have hle := (File.write_written (writevOne_eq hop).1).1
      rwa [length_window] at hle
    refine ⟨fun he => ?_, (writev_gauged f mem frameAlloc).quiet_of_clean hle
      ⟨hqueue, fun more n => by rw [Nat.zero_add]⟩ h hclean, fun hsum => ?_⟩
    · cases he
      exact writev_gapless hqueue h
    have hwritten := writev_written h
    rw [pieces_eq_nil (List.sum_eq_zero_iff_forall_eq_nat.mp hsum)] at hwritten
    exact hwritten.len_eq hqueue

theorem writeLaw_of_clean (hclean : WriteClean f frameAlloc iov) (mem : ByteMem) :
    WriteLaw f mem frameAlloc iov := by
  intro res g h
  obtain ⟨ms, e, k, htransfers, rfl⟩ := sysWritev_some h
  have htrace := hclean.trace htransfers
  have hwritten := writev_written htransfers
  cases e with
  | none =>
    have hgapless := htrace.gapless rfl
    have hle := hgapless.sum_le
    refine ⟨hle, ?_⟩
    unfold sizes at hgapless
    rw [← map_length_windows mem] at hgapless
    rw [hgapless.pieces_eq] at hwritten
    refine ⟨hwritten, fun hempty => htrace.kept ?_⟩
    have hlength := congrArg List.length hempty
    unfold buffers at hlength
    rw [List.length_take, List.length_flatten, map_length_windows, List.length_nil] at hlength
    unfold sizes at hle
    omega
  | some e =>
    have hsum := htrace.quiet (Option.some_ne_none e)
    rw [pieces_eq_nil (List.sum_eq_zero_iff_forall_eq_nat.mp hsum)] at hwritten
    exact ⟨hwritten, fun _ => htrace.kept hsum⟩

end Write

/-! ## The two calls -/

/-- There is room for one buffer more, and not for two. -/
theorem not_writeLaw_full {queue : List UInt8} (hlen : queue.length = 0x50000) {mem : ByteMem}
    {frameAlloc : Nat → Nat → Option Page} :
    ¬ WriteLaw ⟨.socketPair queue, 0, true⟩ mem frameAlloc [(0, 1), (16, 1)] := by
  intro hlaw
  have hcall : sysWritev (some ⟨.socketPair queue, 0, true⟩) mem frameAlloc [(0, 1), (16, 1)]
      = some (.error .EWOULDBLOCK, some ⟨.socketPair (queue ++ window mem (0, 1)), 1, true⟩) := by
    simp [sysWritev, vectored, writevOne, File.write, FileNode.writeat, SocketPair.writeat, moved, hlen]
    rfl
  exact absurd (congrArg File.offset (hlaw _ _ hcall).1.2) Nat.one_ne_zero

end MonkeyOS
