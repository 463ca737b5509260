import MonkeyOS.Basic
import MonkeyOS.Lib.Run

/-!
# MonkeyOS — stream sockets (`kernel/src/socket.rs`, `sys_recvfrom`)

The network stack hands the bytes of a connection over in chunks (`inner.recv_from()`). There are
two ways to them. `readat`, under `sys_read`, gives out a chunk in pieces: what does not fit the
caller's buffer is kept in `buf` and comes first the next time. `sys_recvfrom` asks the stack for the
next chunk without a look at `buf`, and drops what does not fit.

* `readat_conserves` — a read returns the front of what was left over and received, and keeps the
  rest;
* `socket_stream_iff` — over every sequence of the two calls: nothing is lost or out of order exactly
  if every chunk that `sys_recvfrom` takes fits, and there was nothing left over in front of it.

A blocking call that has to wait is a call for each of its polls; the ones that find nothing return
nothing.
-/

namespace MonkeyOS

open Lib

structure Socket where
  /-- what is left of a chunk -/
  buf : List UInt8
  /-- `options.rsize` -/
  rsize : Nat

namespace Socket

/-- `Socket::new`, `Socket::new_with_inner`. -/
def new : Socket := ⟨[], 0⟩

/-- `Socket::readat`, when `inner.recv_from()` would answer `recv`: the answer, the caller's buffer and
the socket. -/
def readat (s : Socket) (recv : Option (List UInt8)) (buffer : List UInt8) :
    Except Errno Nat × List UInt8 × Socket :=
  match (if s.buf.length = 0 then recv else some s.buf) with
  | none => (.error .EWOULDBLOCK, buffer, s)
  | some data =>
    let rlen := min data.length buffer.length
    (.ok rlen, data.take rlen ++ buffer.drop rlen,
      { buf := if rlen < data.length then data.drop rlen else []
        rsize := (s.rsize + rlen) % 2 ^ 64 })

/-- One turn of the loop of `sys_recvfrom`, which does not touch the socket: the answer and the
caller's buffer, or `none` when the call yields to ask again. -/
def sysRecvfrom (recv : Option (List UInt8)) (nonblock : Bool) (buffer : List UInt8) :
    Option (Except Errno Nat × List UInt8) :=
  match recv with
  | some data =>
    let rlen := min data.length buffer.length
    some (.ok rlen, data.take rlen ++ buffer.drop rlen)
  | none => if nonblock then some (.error .EAGAIN, buffer) else none

/-- What `poll` asks the stack. -/
structure Inner where
  readable : Bool
  closed : Bool
  /-- `get_remote().is_ok()` -/
  connected : Bool

def poll (inner : Inner) (events : PollEvent) : PollEvent where
  pollin := inner.readable && events.pollin
  pollout := events.pollout && !inner.closed && inner.connected
  pollerr := false

end Socket

/-- The bytes a call has put into the caller's buffer. -/
def delivered : Except Errno Nat → List UInt8 → List UInt8
  | .ok n, buffer => buffer.take n
  | .error _, _ => []

/-! ## One call -/

theorem take_copy (data buffer : List UInt8) :
    (data.take (min data.length buffer.length) ++ buffer.drop (min data.length buffer.length)).take
        (min data.length buffer.length)
      = data.take buffer.length := by
  rw [List.take_left' (by rw [List.length_take]; omega), List.take_eq_take_iff]
  omega

/-- What `readat` takes from the stack. -/
def Socket.taken (s : Socket) (recv : Option (List UInt8)) : List UInt8 :=
  if s.buf.length = 0 then recv.getD [] else []

/-- A read returns the front of what was left over and what it took, and keeps the rest. -/
theorem Socket.readat_conserves (s : Socket) (recv : Option (List UInt8)) (buffer : List UInt8) :
    delivered (s.readat recv buffer).1 (s.readat recv buffer).2.1 ++ (s.readat recv buffer).2.2.buf
      = s.buf ++ s.taken recv := by
  -- the bytes at hand are the leftover or the chunk, since one of the two is empty
  have hsplit : ∀ data : List UInt8,
      data.take buffer.length
          ++ (if min data.length buffer.length < data.length
              then data.drop (min data.length buffer.length) else [])
        = data := by
    intro data
    split
    · rename_i hlt
      rw [Nat.min_eq_right (by omega), List.take_append_drop]
    · rename_i hle
      rw [List.append_nil, List.take_of_length_le (by omega)]
  unfold readat taken
  by_cases hbuf : s.buf.length = 0
  · rw [if_pos hbuf, if_pos hbuf, List.eq_nil_of_length_eq_zero hbuf, List.nil_append]
    cases recv with
    | none => exact List.eq_nil_of_length_eq_zero hbuf
    | some data =>
      show (_ : List UInt8).take _ ++ _ = data
      rw [take_copy]
      exact hsplit data
  · rw [if_neg hbuf, if_neg hbuf, List.append_nil]
    show (_ : List UInt8).take _ ++ _ = s.buf
    rw [take_copy]
    exact hsplit s.buf

/-! ## The stream -/

/-- A call, with what `inner.recv_from()` would answer when it is made. -/
inductive SockCall where
  | read (buffer : List UInt8) (recv : Option (List UInt8))
  | recvfrom (buffer : List UInt8) (nonblock : Bool) (recv : Option (List UInt8))

/-- A socket with its history: the chunks the stack has handed over, and the bytes the calls have
returned. -/
structure SockStream where
  socket : Socket
  received : List UInt8
  returned : List UInt8

namespace SockStream

def new : SockStream := ⟨.new, [], []⟩

def exec (s : SockStream) : SockCall → SockStream
  | .read buffer recv =>
    let r := s.socket.readat recv buffer
    { socket := r.2.2
      received := s.received ++ s.socket.taken recv
      returned := s.returned ++ delivered r.1 r.2.1 }
  | .recvfrom buffer nonblock recv =>
    { s with
      received := s.received ++ recv.getD []
      returned := s.returned ++ ((Socket.sysRecvfrom recv nonblock buffer).elim []
        (fun (res, after) => delivered res after)) }

/-- No byte is lost, returned twice or out of order: what was received is what was returned and
what is left to return. -/
def InOrder (s : SockStream) : Prop := s.returned ++ s.socket.buf = s.received

/-- The call takes no chunk past the leftover, and none that does not fit. A chunk that commutes
with the leftover (which is then a repetition of the same bytes) is not out of order. -/
def Fits (s : SockStream) : SockCall → Prop
  | .read _ _ => True
  | .recvfrom buffer _ recv => ∀ data, recv = some data →
      data.length ≤ buffer.length ∧ data ++ s.socket.buf = s.socket.buf ++ data

theorem returned_recvfrom (buffer : List UInt8) (nonblock : Bool) (recv : Option (List UInt8)) :
    (Socket.sysRecvfrom recv nonblock buffer).elim [] (fun (res, after) => delivered res after)
      = (recv.getD []).take buffer.length := by
  unfold Socket.sysRecvfrom
  cases recv with
  | none =>
    cases nonblock
    · exact List.take_nil.symm
    · exact List.take_nil.symm
  | some data => exact take_copy data buffer

theorem take_append_comm_iff {data buf : List UInt8} {n : Nat} :
    data.take n ++ buf = buf ++ data ↔ data.length ≤ n ∧ data ++ buf = buf ++ data := by
  constructor
  · intro h
    have hlen := congrArg List.length h
    rw [List.length_append, List.length_append, List.length_take] at hlen
    have hle : data.length ≤ n := by omega
    rw [List.take_of_length_le hle] at h
    exact ⟨hle, h⟩
  · intro h
    rw [List.take_of_length_le h.1]
    exact h.2

/-- **One call.** From a stream in order, a call leaves it in order exactly if it fits. -/
theorem inOrder_exec_iff {s : SockStream} (h : s.InOrder) (call : SockCall) :
    (s.exec call).InOrder ↔ s.Fits call := by
  unfold InOrder at h
  cases call with
  | read buffer recv =>
    refine iff_of_true ?_ trivial
    show (s.returned ++ delivered (s.socket.readat recv buffer).1 (s.socket.readat recv buffer).2.1)
      ++ (s.socket.readat recv buffer).2.2.buf = s.received ++ s.socket.taken recv
    rw [List.append_assoc, s.socket.readat_conserves recv buffer, ← h, List.append_assoc]
  | recvfrom buffer nonblock recv =>
    show (s.returned ++ _) ++ s.socket.buf = s.received ++ recv.getD [] ↔ _
    rw [returned_recvfrom, ← h, List.append_assoc, List.append_assoc, List.append_right_inj,
      take_append_comm_iff]
    cases recv with
    | none => exact iff_of_true ⟨Nat.zero_le _, (List.append_nil _).symm⟩ (fun _ hd => nomatch hd)
    | some data =>
      constructor
      · intro hfits other hother
        cases hother
        exact hfits
      · intro hfits
        exact hfits data rfl

end SockStream

def SockStep (s : SockStream) (call : SockCall) (t : SockStream) : Prop := t = s.exec call

/-- **The bytes of a connection, once and in order.** Over every sequence of reads and
`sys_recvfrom` calls of a new socket, the stream is in order after every call exactly if every call
fits; and then the bytes returned are a prefix of the bytes received. -/
theorem socket_stream_iff (calls : List SockCall) :
    (Throughout SockStep (fun s call => (s.exec call).InOrder) .new calls
      ↔ Throughout SockStep SockStream.Fits .new calls)
    ∧ (Throughout SockStep SockStream.Fits .new calls →
        ∀ t, Run SockStep .new calls t → t.returned <+: t.received) := by
  have hnew : SockStream.new.InOrder := rfl
  have hpres : ∀ s call t, s.InOrder → s.Fits call → SockStep s call t → t.InOrder := by
    intro s call t hs hfits hstep
    rw [hstep]
    exact (SockStream.inOrder_exec_iff hs call).mpr hfits
  constructor
  · apply throughout_iff (I := SockStream.InOrder) _ hpres hnew
    intro s call hs
    exact SockStream.inOrder_exec_iff hs call
  · intro hfits t hrun
    have hend : t.InOrder := hrun.invariant_throughout hpres hfits hnew
    exact ⟨t.socket.buf, hend⟩

/-- A chunk `[1, 2]`, of which a read of one byte leaves `[2]`, is overtaken by the next chunk; a
`sys_recvfrom` of one byte drops the rest of it. -/
theorem socket_recvfrom_loses :
    (∃ t, Run SockStep .new [.read [0] (some [1, 2]), .recvfrom [0] false (some [3])] t
      ∧ t.returned = [1, 3] ∧ t.received = [1, 2, 3] ∧ ¬ t.returned <+: t.received)
    ∧ ∃ t, Run SockStep .new [.recvfrom [0] false (some [1, 2]), .recvfrom [0] false (some [3])] t
      ∧ t.returned = [1, 3] ∧ t.received = [1, 2, 3] ∧ ¬ t.returned <+: t.received :=
  ⟨⟨_, .cons rfl (.cons rfl (.nil _)), rfl, rfl, by decide⟩,
    ⟨_, .cons rfl (.cons rfl (.nil _)), rfl, rfl, by decide⟩⟩

end MonkeyOS
