import MonkeyOS.Net.Loopback
import MonkeyOS.Net.Socket

/-!
# MonkeyOS — reads and writes on connected sockets

A process sees a connection through the kernel's `Socket`: `writeat` hands the bytes to the stack,
`readat` takes a chunk from it when nothing is left of the one before. This module puts the socket
(`Net/Socket`) on top of the stack (`Net/Loopback`). A run of the two is a run of the stack
(`net_run`), in which a read is a `recv_from` or nothing at all.
-/

namespace MonkeyOS.LoseNet

open Lib NetServer

/-- The stack, and the socket of each connection. -/
structure SocketSys where
  net : NetServer
  socks : Nat → Socket

inductive SockEvent where
  /-- a call of the stack, which `writeat` makes for a write -/
  | call (ev : NetEvent)
  | read (c : Nat) (data : List UInt8)

/-- `sys_read` of a connection: the bytes that were read. -/
def SocketSys.read (s : SocketSys) (c : Nat) (buffer : List UInt8) : List UInt8 × SocketSys :=
  let sock := s.socks c
  let (res, after, sock') := sock.readat ((s.net.recvFrom c).map Prod.fst) buffer
  (delivered res after,
    { net := if sock.buf.length = 0 then ((s.net.recvFrom c).map Prod.snd).getD s.net else s.net
      socks := Function.update s.socks c sock' })

/-- An orderly call, or a read. The stack is read from by `readat` only. -/
inductive SocketStep : SocketSys → SockEvent → SocketSys → Prop where
  | call {s : SocketSys} {ev : NetEvent} {t : NetServer} (hev : ∀ c, receivedBytes c ev = [])
      (h : OrderlyStep s.net ev t) : SocketStep s (.call ev) { s with net := t }
  | read {s : SocketSys} {x : Handle} {c : Nat} (buffer : List UInt8)
      (hx : s.net.handle x = some c) :
      SocketStep s (.read c (s.read c buffer).1) (s.read c buffer).2

def writtenBytes (c : Nat) : SockEvent → List UInt8
  | .call ev => sentBytes c ev
  | .read _ _ => []

def readBytes (c : Nat) : SockEvent → List UInt8
  | .call _ => []
  | .read c' data => if c' = c then data else []

variable {s t : SocketSys} {ev : SockEvent} {evs : List SockEvent} {ip c : Nat}

/-- What a read asks of the stack, and gets. -/
theorem read_net {x : Handle} (buffer : List UInt8) (hx : s.net.handle x = some c) :
    ∃ nevs, Run OrderlyStep s.net nevs (s.read c buffer).2.net
      ∧ (∀ c', nevs.flatMap (sentBytes c') = [])
      ∧ ∀ c', nevs.flatMap (receivedBytes c')
        = if c = c' then (s.socks c).taken ((s.net.recvFrom c).map Prod.fst) else [] := by
  show ∃ nevs, Run OrderlyStep s.net nevs (if (s.socks c).buf.length = 0
    then ((s.net.recvFrom c).map Prod.snd).getD s.net else s.net) ∧ _
  unfold Socket.taken
  by_cases hbuf : (s.socks c).buf.length = 0
  · rw [if_pos hbuf, if_pos hbuf]
    cases hrecv : s.net.recvFrom c with
    | none => exact ⟨[], .nil _, fun _ => rfl, fun _ => (ite_self _).symm⟩
    | some r =>
      exact ⟨[.received c r.1], .cons ⟨trivial, .received hx hrecv⟩ (.nil _), fun _ => rfl,
        fun _ => List.append_nil _⟩
  · rw [if_neg hbuf, if_neg hbuf]
    exact ⟨[], .nil _, fun _ => rfl, fun _ => (ite_self _).symm⟩

/-- What the stack does in one step. -/
theorem net_step (hstep : SocketStep s ev t) : ∃ nevs, Run OrderlyStep s.net nevs t.net
    ∧ (∀ e, ev = .call e → e ∈ nevs) ∧ (∀ c, nevs.flatMap (sentBytes c) = writtenBytes c ev)
    ∧ ∀ c, (s.socks c).buf ++ nevs.flatMap (receivedBytes c)
      = readBytes c ev ++ (t.socks c).buf := by
  cases hstep with
  | @call ev _ hev h =>
    refine ⟨[ev], .cons h (.nil _), fun e he => ?_, fun c => List.append_nil _, fun c => ?_⟩
    · cases he
      exact List.mem_singleton_self _
    · rw [List.flatMap_singleton, hev c, List.append_nil]
      rfl
  | @read x c buffer hx =>
    obtain ⟨nevs, hrun, hsent, hreceived⟩ := read_net buffer hx
    refine ⟨nevs, hrun, fun _ he => (by cases he), hsent, fun c' => ?_⟩
    rw [hreceived]
    show _ = (if c = c' then _ else []) ++ (Function.update s.socks c _ c').buf
    by_cases hc : c = c'
    · subst hc
      rw [if_pos rfl, if_pos rfl, Function.update_self]
      exact (Socket.readat_conserves _ _ _).symm
    · rw [if_neg hc, if_neg hc, Function.update_of_ne (Ne.symm hc), List.append_nil]
      rfl

/-- The run of the stack under a run of the sockets. -/
theorem net_run (hrun : Run SocketStep s evs t) : ∃ nevs, Run OrderlyStep s.net nevs t.net
    ∧ (∀ e, .call e ∈ evs → e ∈ nevs)
    ∧ (∀ c, nevs.flatMap (sentBytes c) = evs.flatMap (writtenBytes c))
    ∧ ∀ c, (s.socks c).buf ++ nevs.flatMap (receivedBytes c)
      = evs.flatMap (readBytes c) ++ (t.socks c).buf := by
  induction hrun with
  | nil s =>
    exact ⟨[], .nil _, fun _ he => absurd he List.not_mem_nil, fun _ => rfl,
      fun _ => List.append_nil _⟩
  | cons hstep _ ih =>
    obtain ⟨nevs, hrun, hcall, hsent, hread⟩ := net_step hstep
    obtain ⟨nevs', hrun', hcall', hsent', hread'⟩ := ih
    refine ⟨nevs ++ nevs', hrun.append hrun', fun e he => ?_, fun c => ?_, fun c => ?_⟩
    · cases List.mem_cons.mp he with
      | inl hev => exact List.mem_append_left _ (hcall e hev.symm)
      | inr he => exact List.mem_append_right _ (hcall' e he)
    · rw [List.flatMap_append, List.flatMap_cons, hsent, hsent']
    · rw [List.flatMap_append, List.flatMap_cons, ← List.append_assoc, hread, List.append_assoc,
        hread', List.append_assoc]

/-- The stack at boot, with no byte left over in any socket. -/
def SocketSys.new (ip : Nat) : SocketSys := ⟨.new ip, fun _ => .new⟩

/-- **What is read is what was written.** However the calls of the processes interleave and whatever
the sizes of their buffers, the bytes read at one end of a connection, those left over in its socket
and those the stack still has for it are the bytes written at the other end, in order. -/
theorem socket_run {v d : Nat} {remote : SocketAddr} (hrun : Run SocketStep (.new ip) evs s)
    (hmem : .call (.connect v remote (.queued c d)) ∈ evs) :
    evs.flatMap (readBytes d) ++ (s.socks d).buf ++ s.net.bytes d = evs.flatMap (writtenBytes c)
      ∧ evs.flatMap (readBytes c) ++ (s.socks c).buf ++ s.net.bytes c
        = evs.flatMap (writtenBytes d) := by
  obtain ⟨nevs, hnet, hcall, hsent, hread⟩ := net_run hrun
  obtain ⟨b, -, -, -, hd, hc⟩ := pair_run hnet (hcall _ hmem)
  rw [← hread, ← hread, ← hsent, ← hsent]
  exact ⟨hd, hc⟩

/-- The calls of a run of the stack that receives nothing. -/
theorem call_run {n m : NetServer} {nevs : List NetEvent} (socks : Nat → Socket)
    (hrun : Run OrderlyStep n nevs m) (hnone : ∀ ev ∈ nevs, ∀ c, receivedBytes c ev = []) :
    Run SocketStep ⟨n, socks⟩ (nevs.map .call) ⟨m, socks⟩ := by
  induction hrun with
  | nil _ => exact .nil _
  | cons hstep _ ih =>
    rw [List.forall_mem_cons] at hnone
    exact .cons (.call hnone.1 hstep) (ih hnone.2)

/-- One of the two bytes of `hail` is read at the other end. -/
theorem socket_run_hail :
    let s := (SocketSys.read ⟨hailed, fun _ => .new⟩ 1 [0]).2
    [1] ++ (s.socks 1).buf ++ s.net.bytes 1 = [1, 2] := by
  have hcalls := call_run (fun _ => .new) hail_run (by simp [hail, receivedBytes])
  have hread := hcalls.snoc (.read (x := .conn 1) [0] rfl)
  exact (socket_run hread (List.mem_append_left _ (List.mem_map_of_mem connect_mem_hail))).1

end MonkeyOS.LoseNet
