import MonkeyOS.Fs.Pipe
import MonkeyOS.Net.Socket
import MonkeyOS.Net.SocketPair

/-!
# MonkeyOS — what `poll` says and what `readat` does

The objects that can be read and polled, each with the two functions that its source has: the
receiving end of a pipe (`filesystem/fs/src/pipe.rs`), a stream socket (`kernel/src/socket.rs`), a
socket pair (`kernel/src/user/socket_pair.rs`) and the terminal (`filesystem/devfs/src/tty.rs`).

`poll` and `readat` are written apart, over the same hidden state. They disagree for a pipe that is
empty and has no sender (`readat` answers end of file, `poll` reports an error and no input) and
for a socket that has bytes left over while the stack has none; nowhere else
(`poll_agrees_iff`).
-/

namespace MonkeyOS

/-- `PipeReceiver::poll`. -/
def Pipe.poll (queue : List UInt8) (strongCount : Nat) (events : PollEvent) : PollEvent :=
  let senderAlive := decide (strongCount > 0)
  let empty := decide (queue.length = 0)
  { pollin := events.pollin && !empty
    pollout := false
    pollerr := (events.pollin && empty && !senderAlive)
      || (events.pollerr && empty && !senderAlive) }

/-- The terminal, and the characters that wait at the console. -/
structure Tty where
  buffer : List UInt8
  console : List UInt8

namespace Tty

/-- `get_char`, with what is left at the console. -/
def getChar (t : Tty) : Option (UInt8 × Tty) :=
  match t.console with
  | [] => none
  | c :: console => some (c, { t with console := console })

/-- The answer, the caller's buffer and the terminal; `none` is the failed assertion on an empty
buffer. -/
def readat (t : Tty) (buffer : List UInt8) : Option (Except Errno Nat × List UInt8 × Tty) :=
  if buffer.length > 0 then
    if t.buffer.length > 0 then
      let rlen := min buffer.length t.buffer.length
      some (.ok rlen, t.buffer.take rlen ++ buffer.drop rlen, { t with buffer := t.buffer.drop rlen })
    else
      match t.getChar with
      | some (c, t) => some (.ok 1, c :: buffer.drop 1, t)
      | none => some (.error .EWOULDBLOCK, buffer, t)
  else none

/-- Looking for input takes a character from the console and keeps it. -/
def poll (t : Tty) (events : PollEvent) : PollEvent × Tty :=
  if events.pollin then
    if t.buffer.length > 0 then (⟨true, events.pollout, false⟩, t)
    else
      match t.getChar with
      | some (c, t) => (⟨true, events.pollout, false⟩, { t with buffer := t.buffer ++ [c] })
      | none => (⟨false, events.pollout, false⟩, t)
  else (⟨false, events.pollout, false⟩, t)

end Tty

/-- A socket and the state of the network stack: `recv_from` would answer `recv`, and `readable`
says whether it has an answer. -/
structure SocketState where
  socket : Socket
  inner : Socket.Inner
  recv : Option (List UInt8)
  readable : inner.readable = recv.isSome

/-- The objects that can be read and polled, in any state. -/
inductive Readable where
  | pipe (queue : List UInt8) (strongCount : Nat)
  | socketPair (queue : List UInt8)
  | socket (s : SocketState)
  | tty (t : Tty)

namespace Readable

def poll (events : PollEvent) : Readable → PollEvent × Readable
  | pipe queue strongCount => (Pipe.poll queue strongCount events, pipe queue strongCount)
  | socketPair queue => (SocketPair.poll queue events, socketPair queue)
  | socket s => (Socket.poll s.inner events, socket s)
  | tty t => ((t.poll events).1, tty (t.poll events).2)

/-- What `readat` answers; `none` is a panic. -/
def readat (buffer : List UInt8) : Readable → Option (Except Errno Nat)
  | pipe queue strongCount => some (Pipe.readat queue strongCount buffer).1
  | socketPair queue => some (SocketPair.readat queue buffer).1
  | socket s => some (s.socket.readat s.recv buffer).1
  | tty t => (t.readat buffer).map Prod.fst

/-- `poll` reports input exactly if a read into a buffer with room, made next, would not have to
wait. -/
def Agrees (o : Readable) : Prop :=
  ∀ buffer, buffer ≠ [] →
    ((o.poll .POLLIN).1.pollin = true → ∃ n, (o.poll .POLLIN).2.readat buffer = some (.ok n))
    ∧ ((o.poll .POLLIN).1.pollin = false →
        (o.poll .POLLIN).2.readat buffer = some (.error .EWOULDBLOCK))

/-- The pipe is not at its end, and the stack has something when the socket has bytes left over. -/
def PollSound : Readable → Prop
  | pipe queue strongCount => ¬ (queue = [] ∧ strongCount = 0)
  | socketPair _ => True
  | socket s => s.socket.buf ≠ [] → s.inner.readable = true
  | tty _ => True

/-- A read does not have to wait exactly if `R`: then `poll` agrees with it exactly if it reports
input when `R`. -/
theorem agrees_iff {o : Readable} {R : Prop}
    (h : ∀ buffer, buffer ≠ [] →
      (R → ∃ n, (o.poll .POLLIN).2.readat buffer = some (.ok n))
      ∧ (¬ R → (o.poll .POLLIN).2.readat buffer = some (.error .EWOULDBLOCK))) :
    o.Agrees ↔ ((o.poll .POLLIN).1.pollin = true ↔ R) := by
  constructor
  · intro hagrees
    obtain ⟨hin, hout⟩ := hagrees [0] (by decide)
    obtain ⟨hready, hwait⟩ := h [0] (by decide)
    constructor
    · intro hpoll
      by_contra hR
      obtain ⟨n, hn⟩ := hin hpoll
      cases (hwait hR).symm.trans hn
    · intro hR
      by_contra hpoll
      obtain ⟨n, hn⟩ := hready hR
      cases (hout (by simpa using hpoll)).symm.trans hn
  · intro hiff buffer hbuffer
    obtain ⟨hready, hwait⟩ := h buffer hbuffer
    refine ⟨fun hpoll => hready (hiff.mp hpoll), fun hpoll => hwait (fun hR => ?_)⟩
    exact Bool.false_ne_true (hpoll.symm.trans (hiff.mpr hR))

/-! ## The four objects -/

theorem agrees_pipe_iff (queue : List UInt8) (strongCount : Nat) :
    (pipe queue strongCount).Agrees ↔ ¬ (queue = [] ∧ strongCount = 0) := by
  have hread : ∀ buffer, buffer ≠ [] →
      ((queue ≠ [] ∨ strongCount = 0) →
        ∃ n, (pipe queue strongCount).readat buffer = some (.ok n))
      ∧ (¬ (queue ≠ [] ∨ strongCount = 0) →
        (pipe queue strongCount).readat buffer = some (.error .EWOULDBLOCK)) := by
    intro buffer hbuffer
    show (_ → ∃ n, some (Pipe.readat queue strongCount buffer).1 = _)
      ∧ (_ → some (Pipe.readat queue strongCount buffer).1 = _)
    unfold Pipe.readat
    rw [if_neg (by simpa using hbuffer)]
    cases queue with
    | nil =>
      rw [if_neg (by simp)]
      by_cases hsender : strongCount > 0
      · rw [if_pos hsender]
        exact ⟨fun h => absurd h (by simp; omega), fun _ => rfl⟩
      · rw [if_neg hsender]
        exact ⟨fun _ => ⟨0, rfl⟩, fun h => absurd (.inr (by omega)) h⟩
    | cons x queue =>
      rw [if_pos (by simp)]
      exact ⟨fun _ => ⟨_, rfl⟩, fun h => absurd (.inl (by simp)) h⟩
  have hpoll : ((pipe queue strongCount).poll .POLLIN).1.pollin = true ↔ queue ≠ [] := by
    show (true && !decide (queue.length = 0)) = true ↔ _
    simp
  rw [agrees_iff hread, hpoll]
  tauto

theorem agrees_socketPair (queue : List UInt8) : (socketPair queue).Agrees := by
  have hread : ∀ buffer, buffer ≠ [] →
      (queue ≠ [] → ∃ n, (socketPair queue).readat buffer = some (.ok n))
      ∧ (¬ queue ≠ [] → (socketPair queue).readat buffer = some (.error .EWOULDBLOCK)) := by
    intro buffer hbuffer
    show (_ → ∃ n, some (SocketPair.readat queue buffer).1 = _)
      ∧ (_ → some (SocketPair.readat queue buffer).1 = _)
    unfold SocketPair.readat
    dsimp only
    have hlen := List.length_pos_iff.mpr hbuffer
    constructor
    · intro hqueue
      have hpos := List.length_pos_iff.mpr hqueue
      rw [if_neg (by omega)]
      exact ⟨_, rfl⟩
    · intro hqueue
      rw [not_not.mp hqueue]
      rfl
  have hpoll : ((socketPair queue).poll .POLLIN).1.pollin = true ↔ queue ≠ [] := by
    show (true && decide (queue.length > 0)) = true ↔ _
    simp [List.length_pos_iff]
  rw [agrees_iff hread]
  exact hpoll

theorem agrees_socket_iff (s : SocketState) :
    (socket s).Agrees ↔ (s.socket.buf ≠ [] → s.inner.readable = true) := by
  have hread : ∀ buffer, buffer ≠ [] →
      ((s.socket.buf ≠ [] ∨ s.recv.isSome = true) →
        ∃ n, (socket s).readat buffer = some (.ok n))
      ∧ (¬ (s.socket.buf ≠ [] ∨ s.recv.isSome = true) →
        (socket s).readat buffer = some (.error .EWOULDBLOCK)) := by
    intro buffer _
    show (_ → ∃ n, some (s.socket.readat s.recv buffer).1 = _)
      ∧ (_ → some (s.socket.readat s.recv buffer).1 = _)
    unfold Socket.readat
    by_cases hbuf : s.socket.buf = []
    · rw [if_pos (by rw [hbuf]; rfl)]
      cases s.recv with
      | none => exact ⟨fun h => absurd h (by simp [hbuf]), fun _ => rfl⟩
      | some data => exact ⟨fun _ => ⟨_, rfl⟩, fun h => absurd (.inr rfl) h⟩
    · rw [if_neg (by rwa [List.length_eq_zero_iff])]
      exact ⟨fun _ => ⟨_, rfl⟩, fun h => absurd (.inl hbuf) h⟩
  have hpoll : ((socket s).poll .POLLIN).1.pollin = true ↔ s.recv.isSome = true := by
    show (s.inner.readable && true) = true ↔ _
    rw [Bool.and_true, s.readable]
  rw [agrees_iff hread, hpoll, s.readable]
  tauto

/-- The terminal keeps the character it looked at, so a read finds it. -/
theorem agrees_tty (t : Tty) : (tty t).Agrees := by
  intro buffer hbuffer
  have hlen := List.length_pos_iff.mpr hbuffer
  show ((t.poll .POLLIN).1.pollin = true →
      ∃ n, ((t.poll .POLLIN).2.readat buffer).map Prod.fst = some (.ok n))
    ∧ ((t.poll .POLLIN).1.pollin = false →
      ((t.poll .POLLIN).2.readat buffer).map Prod.fst = some (.error .EWOULDBLOCK))
  obtain ⟨kept, console⟩ := t
  unfold Tty.readat
  rw [if_pos hlen]
  cases kept with
  | cons x kept => exact ⟨fun _ => ⟨_, rfl⟩, fun h => nomatch h⟩
  | nil =>
    cases console with
    | nil => exact ⟨(fun h => nomatch h), fun _ => rfl⟩
    | cons c console => exact ⟨fun _ => ⟨_, rfl⟩, fun h => nomatch h⟩

end Readable

/-- **Readiness.** For every object in every state, `poll` and the read that follows agree exactly
if the object is neither a pipe at its end nor a socket with bytes left over that the stack has
none for. -/
theorem poll_agrees_iff (o : Readable) : o.Agrees ↔ o.PollSound := by
  cases o with
  | pipe queue strongCount => exact Readable.agrees_pipe_iff queue strongCount
  | socketPair queue => exact iff_of_true (Readable.agrees_socketPair queue) trivial
  | socket s => exact Readable.agrees_socket_iff s
  | tty t => exact iff_of_true (Readable.agrees_tty t) trivial

/-- The last sender of an empty pipe is gone: a read answers end of file, and `poll` reports no
input. A read of one byte of two leaves a byte in the socket, and `poll` reports no input. -/
theorem poll_misses_input :
    ¬ (Readable.pipe [] 0).Agrees
    ∧ ((Readable.pipe [] 0).poll .POLLIN).1 = ⟨false, false, true⟩
    ∧ (Readable.pipe [] 0).readat [0] = some (.ok 0)
    ∧ (Socket.new.readat (some [1, 2]) [0]).2.2 = ⟨[2], 1⟩
    ∧ ¬ (Readable.socket ⟨⟨[2], 1⟩, ⟨false, false, true⟩, none, rfl⟩).Agrees
    ∧ (Readable.socket ⟨⟨[2], 1⟩, ⟨false, false, true⟩, none, rfl⟩).readat [0] = some (.ok 1) := by
  refine ⟨?_, rfl, rfl, rfl, ?_, rfl⟩
  · rw [Readable.agrees_pipe_iff]
    simp
  · rw [Readable.agrees_socket_iff]
    simp

end MonkeyOS
