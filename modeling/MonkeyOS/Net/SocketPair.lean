import MonkeyOS.Net.Socket
import MonkeyOS.Task.FdTable

/-!
# MonkeyOS — socket pairs (`kernel/src/user/socket_pair.rs`, `sys_socket_pair`)

`create_socket_pair` makes one byte queue, and `sys_socket_pair` opens two descriptors on it. Both
ends write at its back and read from its front, so an end gets whatever byte is at the front, also
one it wrote itself.

* `sysSocketPair_shared` — the two descriptors are the same object;
* `PairRun.Inv` — the bytes in the queue are the ones written and not yet read, of both ends in one
  order;
* `socketPair_streams_iff` — the two directions are independent streams exactly if every read finds
  only bytes of the other end at the front of the queue.
-/

namespace MonkeyOS

open Lib

namespace SocketPair

def writeat (queue buffer : List UInt8) : Except Errno Nat × List UInt8 :=
  if queue.length > 0x50000 then (.error .EWOULDBLOCK, queue)
  else (.ok buffer.length, queue ++ buffer)

/-- The answer, the caller's buffer and the queue. -/
def readat (queue buffer : List UInt8) : Except Errno Nat × List UInt8 × List UInt8 :=
  let rlen := min queue.length buffer.length
  (if rlen = 0 then .error .EWOULDBLOCK else .ok rlen,
    queue.take rlen ++ buffer.drop rlen, queue.drop rlen)

def poll (queue : List UInt8) (events : PollEvent) : PollEvent where
  pollin := events.pollin && decide (queue.length > 0)
  pollout := events.pollout && decide (queue.length ≤ 0x50000)
  pollerr := false

/-- A read delivers the front of the queue and leaves the rest in it. -/
theorem delivered_readat (queue buffer : List UInt8) :
    delivered (readat queue buffer).1 (readat queue buffer).2.1 = queue.take buffer.length
      ∧ (readat queue buffer).2.2 = queue.drop (queue.take buffer.length).length := by
  have hlen : (queue.take buffer.length).length = min queue.length buffer.length := by
    rw [List.length_take, Nat.min_comm]
  rw [hlen]
  refine ⟨?_, rfl⟩
  unfold readat
  dsimp only
  split
  · rename_i hzero
    rw [hzero] at hlen
    exact (List.eq_nil_of_length_eq_zero hlen).symm
  · exact take_copy queue buffer

end SocketPair

/-! ## The descriptors -/

/-- The descriptors of a process, with what is behind a file. -/
structure PairSys where
  fds : FdState
  /-- the inode of a file, by number -/
  inode : Nat → Nat
  /-- the queue of a `SocketPair`, by number -/
  queue : Nat → List UInt8

namespace PairSys

/-- `sys_socket_pair`, where `socket` is the new `SocketPair` and `rx`, `tx` are the two new files; the
descriptors are stored for the user as 32-bit words. -/
def sysSocketPair (s : PairSys) (socket rx tx : Nat) :
    Option (Except Errno (Nat × Nat) × PairSys) :=
  let s := { s with
    inode := Function.update (Function.update s.inode rx socket) tx socket
    queue := Function.update s.queue socket [] }
  match s.fds.install .ENFILE rx with
  | none => none
  | some (.error e, fds) => some (.error e, { s with fds := fds })
  | some (.ok rxFd, fds) =>
    match fds.install .ENFILE tx with
    | none => none
    | some (.error e, fds) => some (.error e, { s with fds := fds })
    | some (.ok txFd, fds) => some (.ok (rxFd, txFd), { s with fds := fds })

/-- The object behind a descriptor. -/
def object (s : PairSys) (fd : Nat) : Option Nat := ((s.fds.getFd fd).getD none).map s.inode

def setQueue (s : PairSys) (socket : Nat) (queue : List UInt8) : PairSys :=
  { s with queue := Function.update s.queue socket queue }

def write (s : PairSys) (fd : Nat) (buffer : List UInt8) : Except Errno Nat × PairSys :=
  match s.object fd with
  | none => (.error .EBADF, s)
  | some socket =>
    let r := SocketPair.writeat (s.queue socket) buffer
    (r.1, s.setQueue socket r.2)

def read (s : PairSys) (fd : Nat) (buffer : List UInt8) :
    Except Errno Nat × List UInt8 × PairSys :=
  match s.object fd with
  | none => (.error .EBADF, buffer, s)
  | some socket =>
    let r := SocketPair.readat (s.queue socket) buffer
    (r.1, r.2.1, s.setQueue socket r.2.2)

/-- A write goes to the back of the queue, or is refused. -/
theorem write_cases {s : PairSys} {fd socket : Nat} (h : s.object fd = some socket)
    (buffer : List UInt8) :
    s.write fd buffer = (.ok buffer.length, s.setQueue socket (s.queue socket ++ buffer))
      ∨ s.write fd buffer = (.error .EWOULDBLOCK, s) := by
  unfold write
  rw [h]
  dsimp only
  unfold SocketPair.writeat
  split
  · right
    show (_, s.setQueue socket (s.queue socket)) = _
    unfold setQueue
    rw [Function.update_eq_self]
  · exact .inl rfl

/-- A read takes bytes off the front of the queue. -/
theorem read_eq {s : PairSys} {fd socket : Nat} (h : s.object fd = some socket)
    (buffer : List UInt8) :
    delivered (s.read fd buffer).1 (s.read fd buffer).2.1 = (s.queue socket).take buffer.length
      ∧ (s.read fd buffer).2.2 = s.setQueue socket
          ((s.queue socket).drop ((s.queue socket).take buffer.length).length) := by
  obtain ⟨hbytes, hqueue⟩ := SocketPair.delivered_readat (s.queue socket) buffer
  unfold read
  rw [h]
  dsimp only
  rw [hqueue]
  exact ⟨hbytes, rfl⟩

end PairSys

/-- **One object.** The two descriptors that `sys_socket_pair` returns are the same `SocketPair`, and
its queue is empty. -/
theorem sysSocketPair_shared {s t : PairSys} {socket rx tx a b : Nat}
    (h : s.sysSocketPair socket rx tx = some (.ok (a, b), t)) :
    a ≠ b ∧ t.object a = some socket ∧ t.object b = some socket ∧ t.queue socket = [] := by
  unfold PairSys.sysSocketPair at h
  dsimp only at h
  rcases s.fds.install_cases .ENFILE rx with hrx | ⟨d, u, hrx, -, -, -, hslot, hget, -⟩
  · rw [hrx] at h
    cases h
  rw [hrx] at h
  dsimp only at h
  rcases u.install_cases .ENFILE tx with htx | ⟨d', v, htx, -, hfree, -, -, hget', hrest⟩
  · rw [htx] at h
    cases h
  rw [htx] at h
  cases h
  have hne : a ≠ b := by
    intro hab
    exact hfree rx (hab ▸ hslot)
  refine ⟨hne, ?_, ?_, Function.update_self _ _ _⟩
  · unfold PairSys.object
    rw [(hrest a hne).2, hget]
    show some (Function.update (Function.update s.inode rx socket) tx socket rx) = some socket
    rw [Function.update_apply, Function.update_self, ite_self]
  · unfold PairSys.object
    rw [hget']
    show some (Function.update (Function.update s.inode rx socket) tx socket tx) = some socket
    rw [Function.update_self]

/-! ## Runs -/

inductive End where
  | a
  | b
  deriving DecidableEq

def End.other : End → End
  | a => b
  | b => a

inductive PairCall where
  | write (e : End) (buffer : List UInt8)
  | read (e : End) (buffer : List UInt8)

/-- A pair in use: the descriptors of its ends, what each end has written and got, and who wrote and
who read every byte that went through. -/
structure PairRun where
  sys : PairSys
  fd : End → Nat
  written : End → List UInt8
  got : End → List UInt8
  /-- all bytes written, in order, with the end that wrote them -/
  history : List (End × UInt8)
  /-- the end that read the first byte of the history, the second, … -/
  readers : List End

namespace PairRun

def new (sys : PairSys) (rxFd txFd : Nat) : PairRun where
  sys := sys
  fd := fun e => match e with
    | .a => rxFd
    | .b => txFd
  written := fun _ => []
  got := fun _ => []
  history := []
  readers := []

/-- The history after a write that was accepted. -/
def wrote (s : PairRun) (sys : PairSys) (e : End) (buffer : List UInt8) : PairRun :=
  { s with
    sys := sys
    written := Function.update s.written e (s.written e ++ buffer)
    history := s.history ++ buffer.map (fun x => (e, x)) }

/-- The history after a read that delivered these bytes. -/
def gotten (s : PairRun) (sys : PairSys) (e : End) (bytes : List UInt8) : PairRun :=
  { s with
    sys := sys
    got := Function.update s.got e (s.got e ++ bytes)
    readers := s.readers ++ List.replicate bytes.length e }

def exec (s : PairRun) : PairCall → PairRun
  | .write e buffer =>
    match s.sys.write (s.fd e) buffer with
    | (.ok _, sys) => s.wrote sys e buffer
    | (.error _, sys) => { s with sys := sys }
  | .read e buffer =>
    let r := s.sys.read (s.fd e) buffer
    s.gotten r.2.2 e (delivered r.1 r.2.1)

/-- The bytes in the queue, with who wrote them. -/
def pending (s : PairRun) : List (End × UInt8) := s.history.drop s.readers.length

/-- The bytes that were read, with who wrote them. -/
def consumed (s : PairRun) : List (End × UInt8) := s.history.take s.readers.length

/-- The bytes that were read, with who read and who wrote them. -/
def log (s : PairRun) : List (End × End × UInt8) := s.readers.zip s.consumed

/-- No end has read back a byte it wrote itself. -/
def NoOwn (s : PairRun) : Prop := ∀ x ∈ s.log, x.1 ≠ x.2.1

instance (s : PairRun) : Decidable s.NoOwn :=
  inferInstanceAs (Decidable (∀ x ∈ s.log, x.1 ≠ x.2.1))

/-- **Two independent streams.** -/
structure Independent (s : PairRun) : Prop where
  toB : s.got .b <+: s.written .a
  toA : s.got .a <+: s.written .b
  noOwn : s.NoOwn

/-- A read finds only bytes of the other end at the front of the queue. -/
def FromOther (s : PairRun) : PairCall → Prop
  | .write _ _ => True
  | .read e buffer => ∀ x ∈ s.pending.take buffer.length, x.1 ≠ e

/-- What holds of the pair `socket` whatever is read and written. -/
structure Inv (socket : Nat) (s : PairRun) : Prop where
  shared : ∀ e, s.sys.object (s.fd e) = some socket
  queue : s.sys.queue socket = s.pending.map Prod.snd
  readers : s.readers.length ≤ s.history.length
  written : ∀ e, s.written e = (s.history.filter (·.1 = e)).map Prod.snd
  got : ∀ e, s.got e = (s.log.filter (·.1 = e)).map (·.2.2)

theorem inv_new {s t : PairSys} {socket rx tx rxFd txFd : Nat}
    (h : s.sysSocketPair socket rx tx = some (.ok (rxFd, txFd), t)) :
    (new t rxFd txFd).Inv socket := by
  obtain ⟨-, ha, hb, hqueue⟩ := sysSocketPair_shared h
  refine ⟨?_, hqueue, Nat.le_refl _, fun _ => rfl, fun _ => rfl⟩
  intro e
  cases e with
  | a => exact ha
  | b => exact hb

section Step

variable {socket : Nat} {s : PairRun} {e : End} {buffer : List UInt8}

theorem exec_write_cases (h : s.Inv socket) (e : End) (buffer : List UInt8) :
    s.exec (.write e buffer)
        = s.wrote (s.sys.setQueue socket (s.sys.queue socket ++ buffer)) e buffer
      ∨ s.exec (.write e buffer) = s := by
  unfold exec
  dsimp only
  rcases PairSys.write_cases (h.shared e) buffer with hwrite | hwrite
  · rw [hwrite]
    exact .inl rfl
  · rw [hwrite]
    exact .inr rfl

/-- The bytes that a read delivers, and what it leaves. -/
theorem exec_read_eq (h : s.Inv socket) (e : End) (buffer : List UInt8) :
    s.exec (.read e buffer)
      = s.gotten (s.sys.setQueue socket
          ((s.pending.drop (s.pending.take buffer.length).length).map Prod.snd)) e
        ((s.pending.take buffer.length).map Prod.snd) := by
  obtain ⟨hbytes, hsys⟩ := PairSys.read_eq (h.shared e) buffer
  show s.gotten _ e _ = _
  rw [hbytes, hsys, h.queue, ← List.map_take, ← List.map_drop, List.length_map]

/-- Of items that all have the same tag, a filter by tag keeps all or none. -/
theorem filter_tagged {β : Type*} (e other : End) (l : List β) :
    (l.map (fun x => (e, x))).filter (·.1 = other)
      = if other = e then l.map (fun x => (e, x)) else [] := by
  split
  · rename_i h
    rw [List.filter_eq_self, List.forall_mem_map]
    exact fun _ _ => decide_eq_true h.symm
  · rename_i h
    rw [List.filter_eq_nil_iff, List.forall_mem_map]
    exact fun _ _ => by simpa using Ne.symm h

theorem length_consumed (h : s.Inv socket) : s.consumed.length = s.readers.length := by
  unfold consumed
  rw [List.length_take]
  exact Nat.min_eq_left h.readers

theorem consumed_wrote (h : s.Inv socket) (sys : PairSys) :
    (s.wrote sys e buffer).consumed = s.consumed :=
  List.take_append_of_le_length h.readers

theorem inv_wrote (h : s.Inv socket) (e : End) (buffer : List UInt8) :
    (s.wrote (s.sys.setQueue socket (s.sys.queue socket ++ buffer)) e buffer).Inv socket where
  shared := h.shared
  queue := by
    show Function.update s.sys.queue socket _ socket
      = ((s.history ++ buffer.map (fun x => (e, x))).drop s.readers.length).map Prod.snd
    rw [Function.update_self, List.drop_append_of_le_length h.readers, List.map_append, h.queue,
      List.map_map]
    show _ = _ ++ buffer.map id
    rw [List.map_id]
    rfl
  readers := by
    show s.readers.length ≤ (s.history ++ _).length
    rw [List.length_append]
    exact Nat.le_add_right_of_le h.readers
  written := by
    intro other
    show Function.update s.written e (s.written e ++ buffer) other
      = ((s.history ++ buffer.map (fun x => (e, x))).filter _).map Prod.snd
    rw [List.filter_append, List.map_append, ← h.written other, filter_tagged,
      Function.update_apply]
    split
    · rename_i hother
      rw [hother, List.map_map]
      exact congrArg (s.written e ++ ·) (List.map_id buffer).symm
    · exact (List.append_nil _).symm
  got := by
    intro other
    unfold log
    rw [consumed_wrote h]
    exact h.got other

theorem replicate_zip (e : End) (l : List (End × UInt8)) :
    (List.replicate l.length e).zip l = l.map (fun x => (e, x)) := by
  induction l with
  | nil => rfl
  | cons x l ih =>
    rw [List.length_cons, List.replicate_succ, List.zip_cons_cons, ih]
    rfl

/-- A read by `e` moves the front of the pending bytes to the log. -/
theorem gotten_moves (h : s.Inv socket) (sys : PairSys) (e : End) (k : Nat) :
    (s.gotten sys e ((s.pending.take k).map Prod.snd)).log
        = s.log ++ (s.pending.take k).map (fun x => (e, x))
      ∧ (s.gotten sys e ((s.pending.take k).map Prod.snd)).pending
        = s.pending.drop (s.pending.take k).length := by
  have hreaders : (s.gotten sys e ((s.pending.take k).map Prod.snd)).readers.length
      = s.readers.length + (s.pending.take k).length := by
    show (s.readers ++ List.replicate _ e).length = _
    rw [List.length_append, List.length_replicate, List.length_map]
  have htake : s.pending.take (s.pending.take k).length = s.pending.take k := by
    rw [List.length_take, List.take_eq_take_iff]
    omega
  constructor
  · have hconsumed : (s.gotten sys e ((s.pending.take k).map Prod.snd)).consumed
        = s.consumed ++ s.pending.take k := by
      unfold consumed
      rw [hreaders]
      show s.history.take _ = _
      rw [List.take_add]
      exact congrArg (s.history.take s.readers.length ++ ·) htake
    unfold log
    rw [hconsumed]
    show (s.readers ++ List.replicate _ e).zip _ = _
    rw [List.zip_append (length_consumed h).symm, List.length_map]
    exact congrArg (s.readers.zip s.consumed ++ ·) (replicate_zip e _)
  · show s.history.drop (s.gotten sys e _).readers.length = _
    rw [hreaders]
    exact List.drop_drop.symm

theorem inv_gotten (h : s.Inv socket) (e : End) (k : Nat) :
    (s.gotten (s.sys.setQueue socket ((s.pending.drop (s.pending.take k).length).map Prod.snd)) e
      ((s.pending.take k).map Prod.snd)).Inv socket := by
  obtain ⟨hlog, hpending⟩ := gotten_moves h
    (s.sys.setQueue socket ((s.pending.drop (s.pending.take k).length).map Prod.snd)) e k
  refine ⟨h.shared, ?_, ?_, h.written, ?_⟩
  · rw [hpending]
    exact Function.update_self _ _ _
  · show (s.readers ++ List.replicate _ e).length ≤ s.history.length
    have hpend : s.pending.length = s.history.length - s.readers.length := List.length_drop
    have hreaders := h.readers
    rw [List.length_append, List.length_replicate, List.length_map, List.length_take]
    omega
  · intro other
    rw [hlog, List.filter_append, List.map_append, ← h.got other, filter_tagged]
    show Function.update s.got e _ other = _
    rw [Function.update_apply]
    split
    · rename_i hother
      rw [hother, List.map_map]
      rfl
    · exact (List.append_nil _).symm

theorem inv_exec (h : s.Inv socket) (call : PairCall) : (s.exec call).Inv socket := by
  cases call with
  | write e buffer =>
    rcases exec_write_cases h e buffer with hexec | hexec
    · rw [hexec]
      exact inv_wrote h e buffer
    · rw [hexec]
      exact h
  | read e buffer =>
    rw [exec_read_eq h]
    exact inv_gotten h e buffer.length

/-- The bytes that `e` got are bytes that the other end wrote, when no end has read back its own. -/
theorem got_of_noOwn (h : s.Inv socket) (hown : s.NoOwn) (e : End) :
    s.got e <+: s.written e.other := by
  have hfilter : s.log.filter (·.1 = e) = s.log.filter (·.2.1 = e.other) := by
    apply List.filter_congr
    rintro ⟨reader, writer, byte⟩ hx
    have hne : reader ≠ writer := hown _ hx
    show decide (reader = e) = decide (writer = e.other)
    cases reader <;> cases writer <;> cases e <;> first | rfl | exact absurd rfl hne
  have hread : s.got e = (s.consumed.filter (·.1 = e.other)).map Prod.snd := by
    have hsnd : s.consumed = s.log.map Prod.snd :=
      (List.map_snd_zip (Nat.le_of_eq (length_consumed h))).symm
    rw [h.got e, hfilter, hsnd, List.filter_map, List.map_map]
    rfl
  rw [hread, h.written e.other]
  exact ((List.take_prefix _ _).filter _).map _

theorem independent_iff (h : s.Inv socket) : s.Independent ↔ s.NoOwn := by
  constructor
  · exact Independent.noOwn
  · intro hown
    exact ⟨got_of_noOwn h hown .b, got_of_noOwn h hown .a, hown⟩

/-- **One call.** Streams that were independent stay so exactly if a read finds the other end's
bytes. -/
theorem independent_exec_iff (h : s.Inv socket) (hown : s.NoOwn) (call : PairCall) :
    (s.exec call).Independent ↔ s.FromOther call := by
  rw [independent_iff (inv_exec h call)]
  cases call with
  | write e buffer =>
    refine iff_of_true ?_ trivial
    rcases exec_write_cases h e buffer with hexec | hexec
    · rw [hexec]
      unfold NoOwn log
      rw [consumed_wrote h]
      exact hown
    · rw [hexec]
      exact hown
  | read e buffer =>
    rw [exec_read_eq h]
    unfold NoOwn
    rw [(gotten_moves h _ e buffer.length).1, List.forall_mem_append, List.forall_mem_map]
    constructor
    · intro hnew x hx heq
      exact hnew.2 x hx heq.symm
    · intro hother
      exact ⟨hown, fun x hx heq => hother x hx heq.symm⟩

end Step

end PairRun

def PairStep (s : PairRun) (call : PairCall) (t : PairRun) : Prop := t = s.exec call

/-- **A socket pair as two streams.** On the descriptors that `sys_socket_pair` returns, over every
interleaving of reads and writes: after every call each end has got a prefix of what the other has
written, and nothing of its own, exactly if every read finds only bytes of the other end at the front
of the queue. -/
theorem socketPair_streams_iff {s t : PairSys} {socket rx tx rxFd txFd : Nat}
    (h : s.sysSocketPair socket rx tx = some (.ok (rxFd, txFd), t)) (calls : List PairCall) :
    Throughout PairStep (fun s call => (s.exec call).Independent) (.new t rxFd txFd) calls
      ↔ Throughout PairStep PairRun.FromOther (.new t rxFd txFd) calls := by
  have hnew : (PairRun.new t rxFd txFd).Inv socket ∧ (PairRun.new t rxFd txFd).NoOwn :=
    ⟨PairRun.inv_new h, fun _ hx => nomatch hx⟩
  apply throughout_iff (I := fun s => s.Inv socket ∧ s.NoOwn) _ _ hnew
  · intro s call hs
    exact PairRun.independent_exec_iff hs.1 hs.2 call
  intro s call u hs hother hstep
  rw [hstep]
  refine ⟨PairRun.inv_exec hs.1 call, ?_⟩
  exact ((PairRun.independent_exec_iff hs.1 hs.2 call).mpr hother).noOwn

/-- A process with a socket pair, `0`, and nothing else open. -/
def PairSys.sample : PairSys := ⟨⟨[some 0, some 1], 2⟩, fun _ => 0, fun _ => []⟩

theorem sysSocketPair_sample :
    PairSys.sysSocketPair ⟨⟨[], 2⟩, fun _ => 0, fun _ => []⟩ 0 0 1
      = some (.ok (0, 1), PairSys.sample) := by
  have hinode : Function.update (Function.update (fun _ => 0) 0 0) 1 0 = fun _ : Nat => 0 := by
    funext x
    simp [Function.update_apply]
  have hqueue : Function.update (fun _ => []) 0 [] = fun _ : Nat => ([] : List UInt8) := by
    funext x
    simp [Function.update_apply]
  unfold PairSys.sysSocketPair
  dsimp only
  rw [hinode, hqueue]
  rfl

theorem socketPair_streams_iff_sample :
    PairSys.sysSocketPair ⟨⟨[], 2⟩, fun _ => 0, fun _ => []⟩ 0 0 1
        = some (.ok (0, 1), PairSys.sample)
      ∧ (Throughout PairStep (fun s call => (s.exec call).Independent) (.new .sample 0 1)
          [.write .a [7], .read .b [0]]
        ↔ Throughout PairStep PairRun.FromOther (.new .sample 0 1)
          [.write .a [7], .read .b [0]]) :=
  ⟨sysSocketPair_sample, socketPair_streams_iff sysSocketPair_sample _⟩

/-- An end that writes a byte and then reads gets its own byte back. -/
theorem socketPair_reads_own :
    PairSys.sysSocketPair ⟨⟨[], 2⟩, fun _ => 0, fun _ => []⟩ 0 0 1
        = some (.ok (0, 1), PairSys.sample)
      ∧ ∃ u, Run PairStep (.new .sample 0 1) [.write .a [7], .read .a [0]] u
        ∧ u.got .a = [7] ∧ u.written .b = [] ∧ ¬ u.got .a <+: u.written .b ∧ ¬ u.NoOwn := by
  refine ⟨sysSocketPair_sample, _, .cons rfl (.cons rfl (.nil _)), ?_⟩
  decide +kernel

end MonkeyOS
