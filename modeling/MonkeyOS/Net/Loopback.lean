import MonkeyOS.Lib.Run
import Mathlib.Data.List.Basic
import Mathlib.Logic.Relation

/-!
# MonkeyOS — TCP over the loopback (`vendor/lose-net-stack/src/connection/`)

The kernel never starts the task that reads from the network card, so what a TCP socket receives
comes from another socket of the same machine. There are no packets on that way: `send_data` looks
the peer up, by the port in `tcp_map` and then by address among the connections of the socket that
is found there, and puts the bytes into the peer's queue.

A socket is a `TcpServer`, whether it listens or connects. `connect` makes two connections, one for
the socket that connects and one for the listener, which waits in `wait_queue` until it is
accepted. Both can be sent to from the start: `send_data` looks in `clients` and in `wait_queue`.

The lookups name a peer by its address only. `Orderly` is what makes that enough: a socket that
connects is not connected to, connects once, and a socket with connections keeps its address. The
calls that set sockets up are then made of a few moves (`Move`, `setup_moves`), and two invariants
are kept by each of them (`Inv`, `Pair`): a lookup finds the peer and nobody else. The streams of
a pair follow from the flow rule of `Lib.Run`.

Sockets and connections are numbered; `conns` and `servers` are what is behind the numbers. A
number that is not in use has a blank socket.
-/

namespace MonkeyOS.LoseNet

open Lib

@[ext]
structure SocketAddr where
  ip : Nat
  port : Nat
  deriving DecidableEq

/-- `Ipv4Addr::is_loopback`, `is_unspecified` and `is_private`. -/
def isLoopback (ip : Nat) : Bool := ip / 2 ^ 24 == 127

def isUnspecified (ip : Nat) : Bool := ip == 0

def isPrivate (ip : Nat) : Bool :=
  ip / 2 ^ 24 == 10 || ip / 2 ^ 20 == 172 * 16 + 1 || ip / 2 ^ 16 == 192 * 256 + 168

inductive TcpStatus where
  | unconnected
  | waitingForSynAck
  | waitingForData
  | waitingForFinAck
  | closed
  deriving DecidableEq

structure TcpConnection where
  localAddr : SocketAddr
  remote : SocketAddr
  status : TcpStatus
  datas : List (List UInt8)
  remoteClosed : Bool

structure TcpServer where
  localAddr : SocketAddr
  clients : List Nat
  waitQueue : List Nat
  isClient : Bool

structure NetServer where
  localIp : Nat
  conns : Nat → TcpConnection
  nconn : Nat
  servers : Nat → TcpServer
  nserver : Nat
  tcpMap : Nat → Option Nat

/-- The peer is on this machine. -/
def TcpConnection.toSelf (conn : TcpConnection) : Bool :=
  isLoopback conn.remote.ip || isUnspecified conn.remote.ip || conn.remote.ip == conn.localAddr.ip

namespace NetServer

def setConn (s : NetServer) (c : Nat) (conn : TcpConnection) : NetServer :=
  { s with conns := fun i => if i = c then conn else s.conns i }

def setServer (s : NetServer) (v : Nat) (server : TcpServer) : NetServer :=
  { s with servers := fun i => if i = v then server else s.servers i }

/-- The socket of `blank_tcp`. -/
def blank (localIp : Nat) : TcpServer := ⟨⟨localIp, 0⟩, [], [], false⟩

def newConn (s : NetServer) (conn : TcpConnection) : NetServer :=
  { s.setConn s.nconn conn with nconn := s.nconn + 1 }

def blankTcp (s : NetServer) : NetServer :=
  { s.setServer s.nserver (blank s.localIp) with nserver := s.nserver + 1 }

/-- `alloc_tcp_port`. -/
def allocTcpPort (s : NetServer) : Nat :=
  ((List.range' 20000 45535).find? (fun p => (s.tcpMap p).isNone)).getD 0

/-- The address `bind` gives the socket. -/
def bindAddr (s : NetServer) (v : Nat) (addr : SocketAddr) : SocketAddr where
  ip := if isLoopback addr.ip || isUnspecified addr.ip then (s.servers v).localAddr.ip else addr.ip
  port := if addr.port = 0 then s.allocTcpPort else addr.port

/-- `TcpServer::bind`. -/
def bind (s : NetServer) (v : Nat) (addr : SocketAddr) : NetServer :=
  let old := (s.servers v).localAddr
  let addr := s.bindAddr v addr
  { s.setServer v { s.servers v with localAddr := addr } with
    tcpMap := fun p =>
      if p = addr.port then some v else if p = old.port then none else s.tcpMap p }

/-- `TcpServer::listen`. -/
def listen (s : NetServer) (v : Nat) : NetServer :=
  if (s.servers v).localAddr.port = 0 then s.bind v (s.servers v).localAddr else s

/-- `TcpServer::add_queue`. -/
def addQueue (s : NetServer) (v : Nat) (remote : SocketAddr) : NetServer :=
  let server := s.servers v
  (s.newConn ⟨server.localAddr, remote, .unconnected, [], false⟩).setServer v
    { server with waitQueue := server.waitQueue ++ [s.nconn] }

/-- `TcpServer::get_client`. -/
def getClient (s : NetServer) (v : Nat) (remote : SocketAddr) : Option Nat :=
  (s.servers v).clients.find? (fun c => (s.conns c).remote == remote)

/-- `TcpServer::accept`; a machine with a private address does not answer the other side. -/
def accept (s : NetServer) (v : Nat) : Option (Nat × NetServer) :=
  let server := s.servers v
  match server.waitQueue with
  | [] => none
  | c :: queue =>
    let s := s.setServer v { server with waitQueue := queue, clients := server.clients ++ [c] }
    -- `syn_ack` sends no bytes, which does nothing on the loopback
    some (c, if !isPrivate server.localAddr.ip
      then s.setConn c { s.conns c with status := .waitingForData } else s)

inductive Connected where
  | queued (c d : Nat)
  /-- nobody has the port; `sys_connect` tries again -/
  | blocking
  /-- to another machine -/
  | dialed (c : Nat)
  deriving DecidableEq

/-- The address `connect` goes to. -/
def connectAddr (s : NetServer) (v : Nat) (remote : SocketAddr) : SocketAddr :=
  if isLoopback remote.ip || isUnspecified remote.ip then ⟨(s.servers v).localAddr.ip, remote.port⟩
  else remote

/-- The socket is one that connects, -/
def mark (s : NetServer) (v : Nat) : NetServer :=
  s.setServer v { s.servers v with isClient := true }

/-- and has a port. -/
def ready (s : NetServer) (v : Nat) : NetServer := (s.mark v).listen v

/-- `TcpServer::connect`, with `TcpConnection::connect` for the new connection. -/
def connect (s : NetServer) (v : Nat) (remote : SocketAddr) : NetServer × Connected :=
  let remote := s.connectAddr v remote
  let s := s.ready v
  let conn : TcpConnection := ⟨(s.servers v).localAddr, remote, .unconnected, [], false⟩
  if conn.toSelf then
    match s.tcpMap remote.port with
    | none => (s, .blocking)
    | some b =>
      let c := s.nconn
      let s := s.newConn { conn with status := .waitingForData }
      let d := s.nconn
      let s := s.addQueue b conn.localAddr
      let s := s.setConn d { s.conns d with status := .waitingForData }
      let server := s.servers v
      (s.setServer v { server with clients := server.clients ++ [c] }, .queued c d)
  else
    let c := s.nconn
    -- the first packet, and with it the status `send_data` leaves
    let s := s.newConn { conn with status := .waitingForFinAck }
    let server := s.servers v
    (s.setServer v { server with clients := server.clients ++ [c] }, .dialed c)

/-- `TcpConnection::add_data`. -/
def addData (s : NetServer) (c : Nat) (data : List UInt8) : NetServer :=
  s.setConn c { s.conns c with datas := (s.conns c).datas ++ [data] }

/-- `TcpConnection::send_data`, as `sendto` calls it. -/
def sendData (s : NetServer) (c : Nat) (buf : List UInt8) : NetServer :=
  let conn := s.conns c
  if conn.toSelf then
    if buf.length = 0 then s
    else
      match s.tcpMap conn.remote.port with
      | none => s
      | some b =>
        let s := match s.getClient b conn.localAddr with
          | some x => s.addData x buf
          | none => s
        -- send to local data if the target is not accepted
        match (s.servers b).waitQueue.find? (fun c => (s.conns c).remote == conn.localAddr) with
        | some x => s.addData x buf
        | none => s
  else s

/-- `TcpConnection::recv_from`. -/
def recvFrom (s : NetServer) (c : Nat) : Option (List UInt8 × NetServer) :=
  match (s.conns c).datas with
  | [] => none
  | data :: datas => some (data, s.setConn c { s.conns c with datas := datas })

/-- What `close` does to one end. -/
def shut (s : NetServer) (c : Nat) : NetServer :=
  s.setConn c { s.conns c with
    status := .closed, remoteClosed := true, datas := (s.conns c).datas ++ [[]] }

/-- `TcpConnection::close`. It unwraps the peer, and panics if there is none. -/
def close (s : NetServer) (c : Nat) : Option NetServer :=
  let conn := s.conns c
  if conn.toSelf then
    match s.tcpMap conn.remote.port with
    | none => some s
    | some b =>
      match s.getClient b ⟨conn.remote.ip, conn.localAddr.port⟩ with
      | none => none
      | some x => some ((s.shut x).shut c)
  else if conn.status = .closed ∨ conn.remoteClosed then some s
  else some (s.setConn c { conn with status := .waitingForFinAck })

/-- What a socket of the kernel holds: a `TcpServer` or an accepted connection. -/
inductive Handle where
  | server (v : Nat)
  | conn (c : Nat)

/-- The connection that `sendto`, `recv_from` and `close` are for. A socket that connects stands
for the first of its connections, and the index panics if there is none; one that does not
refuses all three. -/
def handle (s : NetServer) : Handle → Option Nat
  | .server v =>
    if v < s.nserver ∧ (s.servers v).isClient then (s.servers v).clients.head? else none
  | .conn c => if c < s.nconn then some c else none

/-- `NetServer::new`. -/
def new (localIp : Nat) : NetServer where
  localIp := localIp
  conns _ := ⟨⟨0, 0⟩, ⟨0, 0⟩, .unconnected, [], false⟩
  nconn := 0
  servers _ := blank localIp
  nserver := 0
  tcpMap _ := none

end NetServer

inductive NetEvent where
  | socket (v : Nat)
  | bind (v : Nat) (addr : SocketAddr)
  | listen (v : Nat)
  | connect (v : Nat) (remote : SocketAddr) (res : NetServer.Connected)
  | accept (v d : Nat)
  | sent (c : Nat) (data : List UInt8)
  | received (c : Nat) (data : List UInt8)
  | closed (c : Nat)

/-- A call on one of the sockets. `sys_bind` of a port in use does not bind. -/
inductive NetStep : NetServer → NetEvent → NetServer → Prop where
  | socket {s : NetServer} : NetStep s (.socket s.nserver) s.blankTcp
  | bind {s : NetServer} {v : Nat} {addr : SocketAddr} (hv : v < s.nserver)
      (hfree : s.tcpMap addr.port = none) : NetStep s (.bind v addr) (s.bind v addr)
  | listen {s : NetServer} {v : Nat} (hv : v < s.nserver) : NetStep s (.listen v) (s.listen v)
  | connect {s t : NetServer} {v : Nat} {remote : SocketAddr} {res : NetServer.Connected}
      (hv : v < s.nserver) (h : s.connect v remote = (t, res)) :
      NetStep s (.connect v remote res) t
  | accept {s t : NetServer} {v d : Nat} (hv : v < s.nserver) (h : s.accept v = some (d, t)) :
      NetStep s (.accept v d) t
  | sent {s : NetServer} {x : NetServer.Handle} {c : Nat} {data : List UInt8}
      (hx : s.handle x = some c) : NetStep s (.sent c data) (s.sendData c data)
  | received {s t : NetServer} {x : NetServer.Handle} {c : Nat} {data : List UInt8}
      (hx : s.handle x = some c) (h : s.recvFrom c = some (data, t)) :
      NetStep s (.received c data) t
  | closed {s t : NetServer} {x : NetServer.Handle} {c : Nat} (hx : s.handle x = some c)
      (h : s.close c = some t) : NetStep s (.closed c) t

namespace NetServer

/-- The connections of a socket, the accepted ones first. -/
def held (s : NetServer) (v : Nat) : List Nat := (s.servers v).clients ++ (s.servers v).waitQueue

/-- A port can be had. -/
def PortLeft (s : NetServer) : Prop := s.allocTcpPort ≠ 0

/-- What programs with clear roles do: addresses of this machine are bound, by sockets without
connections; a socket connects when it has no connections, and to one that does not connect. -/
def Orderly (s : NetServer) : NetEvent → Prop
  | .bind v addr => s.PortLeft ∧ s.held v = []
      ∧ (isLoopback addr.ip ∨ isUnspecified addr.ip ∨ addr.ip = s.localIp)
  | .listen _ => s.PortLeft
  | .connect v remote _ => s.PortLeft ∧ s.held v = []
      ∧ ∀ b, (s.ready v).tcpMap remote.port = some b → b ≠ v ∧ (s.servers b).isClient = false
  | _ => True

end NetServer

/-- The bytes sent through a connection, and those received from it. -/
def sentBytes (c : Nat) : NetEvent → List UInt8
  | .sent c' data => if c' = c then data else []
  | _ => []

def receivedBytes (c : Nat) : NetEvent → List UInt8
  | .received c' data => if c' = c then data else []
  | _ => []

/-! ## What the calls change -/

namespace NetServer

variable {s t : NetServer} {v b c d w x : Nat} {remote : SocketAddr}

theorem setServer_self (server : TcpServer) : (s.setServer w server).servers w = server :=
  if_pos rfl

/-- The sockets keep their addresses and connections, and the connections their ends. -/
structure Same (s t : NetServer) : Prop where
  localIp : t.localIp = s.localIp
  nserver : t.nserver = s.nserver
  nconn : t.nconn = s.nconn
  tcpMap : t.tcpMap = s.tcpMap
  unborn : ∀ v, s.nserver ≤ v → t.servers v = s.servers v
  addr : ∀ v, (t.servers v).localAddr = (s.servers v).localAddr
  held : ∀ v, t.held v = s.held v
  client : ∀ v, (t.servers v).isClient = false → (s.servers v).isClient = false
  ends : ∀ c, (t.conns c).localAddr = (s.conns c).localAddr
    ∧ (t.conns c).remote = (s.conns c).remote

theorem Same.refl (s : NetServer) : Same s s := ⟨rfl, rfl, rfl, rfl, fun _ _ => rfl, fun _ => rfl,
  fun _ => rfl, fun _ h => h, fun _ => ⟨rfl, rfl⟩⟩

variable {u : NetServer} {res : Connected} {ev : NetEvent} {conn : TcpConnection}

theorem Same.trans (h : Same s t) (h' : Same t u) : Same s u where
  localIp := h'.localIp.trans h.localIp
  nserver := h'.nserver.trans h.nserver
  nconn := h'.nconn.trans h.nconn
  tcpMap := h'.tcpMap.trans h.tcpMap
  unborn v hv := (h'.unborn v (h.nserver ▸ hv)).trans (h.unborn v hv)
  addr v := (h'.addr v).trans (h.addr v)
  held v := (h'.held v).trans (h.held v)
  client v hv := h.client v (h'.client v hv)
  ends c := ⟨(h'.ends c).1.trans (h.ends c).1, (h'.ends c).2.trans (h.ends c).2⟩

theorem setConn_same (hlocal : conn.localAddr = (s.conns c).localAddr)
    (hremote : conn.remote = (s.conns c).remote) : Same s (s.setConn c conn) := by
  refine { Same.refl s with ends := fun x => ?_ }
  show (if x = c then conn else s.conns x).localAddr = _
    ∧ (if x = c then conn else s.conns x).remote = _
  by_cases hx : x = c
  · rw [if_pos hx, hx]
    exact ⟨hlocal, hremote⟩
  · rw [if_neg hx]
    exact ⟨rfl, rfl⟩

theorem setServer_same {server : TcpServer} (hw : w < s.nserver)
    (haddr : server.localAddr = (s.servers w).localAddr)
    (hheld : server.clients ++ server.waitQueue = s.held w)
    (hclient : server.isClient = false → (s.servers w).isClient = false) :
    Same s (s.setServer w server) := by
  refine { Same.refl s with
    unborn := fun v hv => if_neg (Nat.ne_of_gt (Nat.lt_of_lt_of_le hw hv))
    addr := fun v => ?_, held := fun v => ?_, client := fun v hv => ?_ }
  · show (if v = w then server else s.servers v).localAddr = _
    split_ifs with hvw
    · rw [hvw, haddr]
    · rfl
  · show (if v = w then server else s.servers v).clients
      ++ (if v = w then server else s.servers v).waitQueue = _
    split_ifs with hvw
    · rw [hvw, hheld]
    · rfl
  · change (if v = w then server else s.servers v).isClient = false at hv
    split_ifs at hv with hvw
    · rw [hvw, hclient hv]
    · exact hv

/-- Accepting moves a connection within what the socket holds. -/
structure Accepted (s t : NetServer) (v d : Nat) : Prop extends Same s t where
  waiting : d ∈ (s.servers v).waitQueue
  others : ∀ w, w ≠ v → t.servers w = s.servers w
  isClient : (t.servers v).isClient = (s.servers v).isClient
  clients : (t.servers v).clients = (s.servers v).clients ++ [d]
  datas : ∀ x, (t.conns x).datas = (s.conns x).datas

theorem accept_spec (hv : v < s.nserver) (h : s.accept v = some (d, t)) : Accepted s t v d := by
  unfold accept at h
  dsimp only at h
  cases hq : (s.servers v).waitQueue with
  | nil =>
    rw [hq] at h
    cases h
  | cons x queue =>
    rw [hq] at h
    obtain ⟨rfl, rfl⟩ := Prod.mk.inj (Option.some.inj h)
    have hmoved : Same s (s.setServer v
        { s.servers v with waitQueue := queue, clients := (s.servers v).clients ++ [x] }) := by
      refine setServer_same hv rfl ?_ id
      unfold held
      rw [hq, List.append_assoc]
      rfl
    have hself := setServer_self (s := s) (w := v)
      { s.servers v with waitQueue := queue, clients := (s.servers v).clients ++ [x] }
    refine ⟨?_, hq ▸ List.mem_cons_self, fun w hw => ?_, ?_, ?_, fun y => ?_⟩
    · split_ifs
      · exact hmoved.trans (setConn_same rfl rfl)
      · exact hmoved
    · split_ifs <;> exact if_neg hw
    · split_ifs <;> exact (congrArg TcpServer.isClient hself).trans rfl
    · split_ifs <;> exact (congrArg TcpServer.clients hself).trans rfl
    · split_ifs
      · show (if y = x then _ else s.conns y).datas = _
        split_ifs with hy
        · rw [hy]
          rfl
        · rfl
      · rfl

/-- The socket `w` gets a new connection, the last of those it holds. -/
structure Attached (s t : NetServer) (w x : Nat) (remote : SocketAddr) : Prop where
  localIp : t.localIp = s.localIp
  nserver : t.nserver = s.nserver
  tcpMap : t.tcpMap = s.tcpMap
  id : x = s.nconn
  nconn : t.nconn = s.nconn + 1
  old : ∀ y, y ≠ x → t.conns y = s.conns y
  localAddr : (t.conns x).localAddr = (s.servers w).localAddr
  remote : (t.conns x).remote = remote
  datas : (t.conns x).datas = []
  others : ∀ u, u ≠ w → t.servers u = s.servers u
  addr : (t.servers w).localAddr = (s.servers w).localAddr
  isClient : (t.servers w).isClient = (s.servers w).isClient
  held : t.held w = s.held w ++ [x]
  clients : ∀ y, y ≠ x → (y ∈ (t.servers w).clients ↔ y ∈ (s.servers w).clients)

namespace Attached

variable (h : Attached s t w x remote)
include h

theorem addr_all (u : Nat) : (t.servers u).localAddr = (s.servers u).localAddr := by
  by_cases hu : u = w
  · rw [hu, h.addr]
  · rw [h.others u hu]

theorem isClient_all (u : Nat) : (t.servers u).isClient = (s.servers u).isClient := by
  by_cases hu : u = w
  · rw [hu, h.isClient]
  · rw [h.others u hu]

theorem held_of_ne {u : Nat} (hu : u ≠ w) : t.held u = s.held u := by
  unfold NetServer.held
  rw [h.others u hu]

theorem mem_held {u y : Nat} : y ∈ t.held u ↔ y ∈ s.held u ∨ u = w ∧ y = x := by
  by_cases hu : u = w
  · rw [hu, h.held, List.mem_append, List.mem_singleton]
    simp
  · rw [h.held_of_ne hu]
    simp [hu]

theorem held_ne_nil {u : Nat} (hu : s.held u ≠ []) : t.held u ≠ [] := by
  obtain ⟨y, hy⟩ := List.exists_mem_of_ne_nil _ hu
  exact List.ne_nil_of_mem (h.mem_held.mpr (.inl hy))

theorem old_of_lt {y : Nat} (hy : y < s.nconn) : t.conns y = s.conns y :=
  h.old y (Nat.ne_of_lt (h.id ▸ hy))

end Attached

/-- `connect` on a socket without connections, once it has got a port. -/
theorem connect_cases (h : s.connect v remote = (t, res)) (hheld : (s.ready v).held v = []) :
    (res = .blocking ∧ t = s.ready v)
      ∨ (∃ b c d, res = .queued c d ∧ (s.ready v).tcpMap remote.port = some b
        ∧ (isLoopback (s.connectAddr v remote).ip ∨ isUnspecified (s.connectAddr v remote).ip
          ∨ (s.connectAddr v remote).ip = ((s.ready v).servers v).localAddr.ip)
        ∧ (b ≠ v → ∃ u, Attached (s.ready v) u v c (s.connectAddr v remote)
          ∧ (u.servers v).clients = [c] ∧ Attached u t b d ((s.ready v).servers v).localAddr
          ∧ (t.servers b).clients = (u.servers b).clients))
      ∨ ∃ c, res = .dialed c ∧ Attached (s.ready v) t v c (s.connectAddr v remote) := by
  have hport : (s.connectAddr v remote).port = remote.port := by
    unfold connectAddr
    split_ifs <;> rfl
  unfold connect at h
  dsimp only at h
  generalize s.ready v = s₁ at h hheld ⊢
  obtain ⟨hclients, hwait⟩ := List.append_eq_nil_iff.mp hheld
  -- the connection of the socket itself, which is the same in both cases
  have hown : ∀ status : TcpStatus, Attached s₁ ((s₁.newConn ⟨(s₁.servers v).localAddr,
      s.connectAddr v remote, status, [], false⟩).setServer v
        { s₁.servers v with clients := (s₁.servers v).clients ++ [s₁.nconn] }) v s₁.nconn
      (s.connectAddr v remote) := by
    intro status
    refine ⟨rfl, rfl, rfl, rfl, rfl, fun y hy => if_neg hy, ?_, ?_, ?_, fun u hu => if_neg hu, ?_,
      ?_, ?_, fun y hy => ?_⟩
    case refine_7 => simpa [setServer, hclients] using hy
    all_goals simp [setServer, setConn, newConn, held, hclients, hwait]
  split_ifs at h with hself
  · cases hmap : s₁.tcpMap (s.connectAddr v remote).port with
    | none =>
      rw [hmap] at h
      obtain ⟨rfl, rfl⟩ := Prod.mk.inj h
      exact .inl ⟨rfl, rfl⟩
    | some b =>
      rw [hmap] at h
      obtain ⟨rfl, rfl⟩ := Prod.mk.inj h
      refine .inr (.inl ⟨b, _, _, rfl, hport ▸ hmap, ?_, fun hbv =>
        ⟨_, hown .waitingForData, ?_, ?_, ?_⟩⟩)
      · unfold TcpConnection.toSelf at hself
        simpa [Bool.or_eq_true, or_assoc] using hself
      · rw [setServer_self, hclients]
        rfl
      · refine ⟨rfl, rfl, rfl, rfl, rfl, fun y hy => (if_neg hy).trans (if_neg hy), ?_, ?_, ?_,
          fun u hu => ?_, ?_, ?_, ?_, fun y hy => ?_⟩
        case refine_4 =>
          simp only [setServer, setConn, addQueue, newConn]
          rw [if_neg hu, if_neg hbv.symm]
        all_goals simp [setServer, setConn, addQueue, newConn, held, hbv]
      · simp [setServer, setConn, addQueue, newConn, hbv]
  · obtain ⟨rfl, rfl⟩ := Prod.mk.inj h
    exact .inr (.inr ⟨_, rfl, hown .waitingForFinAck⟩)

/-- What waits in the queue of a connection. -/
def bytes (s : NetServer) (x : Nat) : List UInt8 := (s.conns x).datas.flatten

/-- Only the queues and the states of connections change. -/
structure Quiet (s t : NetServer) : Prop extends Same s t where
  servers : t.servers = s.servers

theorem Quiet.refl (s : NetServer) : Quiet s s := ⟨.refl s, rfl⟩

theorem Quiet.trans (h : Quiet s t) (h' : Quiet t u) : Quiet s u :=
  ⟨h.toSame.trans h'.toSame, h'.servers.trans h.servers⟩

theorem setConn_quiet (hlocal : conn.localAddr = (s.conns c).localAddr)
    (hremote : conn.remote = (s.conns c).remote) : Quiet s (s.setConn c conn) :=
  ⟨setConn_same hlocal hremote, rfl⟩

theorem bytes_setConn (conn : TcpConnection) (x : Nat) :
    (s.setConn c conn).bytes x = if x = c then conn.datas.flatten else s.bytes x := by
  show (if x = c then conn else s.conns x).datas.flatten = _
  split_ifs <;> rfl

theorem bytes_addData (y : Nat) (buf : List UInt8) (x : Nat) :
    (s.addData y buf).bytes x = s.bytes x ++ if x = y then buf else [] := by
  unfold addData
  rw [bytes_setConn]
  split_ifs with hx
  · rw [hx, List.flatten_append, List.flatten_singleton]
    rfl
  · rw [List.append_nil]

/-- The connections that `send_data` on `c` reaches: by the port, and then by address. -/
def targets (s : NetServer) (c : Nat) : List Nat :=
  if (s.conns c).toSelf then
    match s.tcpMap (s.conns c).remote.port with
    | none => []
    | some b => (s.getClient b (s.conns c).localAddr).toList
      ++ ((s.servers b).waitQueue.find?
        (fun x => (s.conns x).remote == (s.conns c).localAddr)).toList
  else []

/-- Each of them gets the bytes. -/
theorem sendData_spec (s : NetServer) (c : Nat) (buf : List UInt8) :
    Quiet s (s.sendData c buf) ∧ ∀ x, (s.sendData c buf).bytes x
      = s.bytes x ++ (s.targets c).flatMap (fun y => if x = y then buf else []) := by
  unfold sendData targets
  dsimp only
  by_cases hself : (s.conns c).toSelf
  · rw [if_pos hself, if_pos hself]
    by_cases hbuf : buf.length = 0
    · rw [if_pos hbuf]
      refine ⟨.refl s, fun x => ?_⟩
      simp [List.eq_nil_of_length_eq_zero hbuf]
    · rw [if_neg hbuf]
      cases s.tcpMap (s.conns c).remote.port with
      | none => exact ⟨.refl s, fun x => by simp⟩
      | some b =>
        dsimp only
        -- the first of the two deliveries, and then the second
        obtain ⟨s₁, hs₁, hquiet, hbytes⟩ : ∃ s₁,
            s₁ = (match s.getClient b (s.conns c).localAddr with
              | some x => s.addData x buf
              | none => s) ∧ Quiet s s₁ ∧ ∀ x, s₁.bytes x = s.bytes x
              ++ (s.getClient b (s.conns c).localAddr).toList.flatMap
                (fun y => if x = y then buf else []) := by
          cases s.getClient b (s.conns c).localAddr with
          | none => exact ⟨s, rfl, .refl s, fun x => by simp⟩
          | some y => exact ⟨_, rfl, setConn_quiet rfl rfl, fun x => by simp [bytes_addData]⟩
        rw [← hs₁]
        have hfind : (fun x => (s₁.conns x).remote == (s.conns c).localAddr)
            = fun x => (s.conns x).remote == (s.conns c).localAddr :=
          funext fun x => by rw [(hquiet.ends x).2]
        rw [hquiet.servers, hfind]
        cases (s.servers b).waitQueue.find?
            (fun x => (s.conns x).remote == (s.conns c).localAddr) with
        | none =>
          refine ⟨hquiet, fun x => ?_⟩
          rw [hbytes, Option.toList_none, List.append_nil]
        | some y =>
          refine ⟨hquiet.trans (setConn_quiet rfl rfl), fun x => ?_⟩
          rw [bytes_addData, hbytes, List.flatMap_append, List.append_assoc]
          simp
  · rw [if_neg hself, if_neg hself]
    exact ⟨.refl s, fun x => by simp⟩

theorem recvFrom_spec {data : List UInt8} (h : s.recvFrom c = some (data, t)) :
    Quiet s t ∧ ∀ x, s.bytes x = (if x = c then data else []) ++ t.bytes x := by
  unfold recvFrom at h
  cases hd : (s.conns c).datas with
  | nil =>
    rw [hd] at h
    cases h
  | cons first rest =>
    rw [hd] at h
    obtain ⟨rfl, rfl⟩ := Prod.mk.inj (Option.some.inj h)
    refine ⟨setConn_quiet rfl rfl, fun x => ?_⟩
    rw [bytes_setConn]
    split_ifs with hx
    · show (s.conns x).datas.flatten = _
      rw [hx, hd, List.flatten_cons]
    · rfl

theorem bytes_shut (y x : Nat) : (s.shut y).bytes x = s.bytes x := by
  unfold shut
  rw [bytes_setConn]
  split_ifs with hx
  · rw [hx, List.flatten_append]
    exact List.append_nil _
  · rfl

theorem shut_quiet (y : Nat) : Quiet s (s.shut y) := setConn_quiet rfl rfl

theorem close_spec (h : s.close c = some t) : Quiet s t ∧ ∀ x, t.bytes x = s.bytes x := by
  unfold close at h
  dsimp only at h
  split_ifs at h
  · cases hmap : s.tcpMap (s.conns c).remote.port with
    | none =>
      rw [hmap] at h
      cases h
      exact ⟨.refl s, fun _ => rfl⟩
    | some b =>
      rw [hmap] at h
      dsimp only at h
      cases hclient : s.getClient b ⟨(s.conns c).remote.ip, (s.conns c).localAddr.port⟩ with
      | none =>
        rw [hclient] at h
        cases h
      | some y =>
        rw [hclient] at h
        cases h
        refine ⟨(shut_quiet y).trans (shut_quiet c), fun x => ?_⟩
        rw [bytes_shut, bytes_shut]
  · cases h
    exact ⟨.refl s, fun _ => rfl⟩
  · cases h
    refine ⟨setConn_quiet rfl rfl, fun x => ?_⟩
    rw [bytes_setConn]
    split_ifs with hx
    · rw [hx]
      rfl
    · rfl

/-! ## The addresses are unique -/

structure Inv (s : NetServer) : Prop where
  unborn : ∀ v, s.nserver ≤ v → s.servers v = blank s.localIp
  ip : ∀ v, (s.servers v).localAddr.ip = s.localIp
  map : ∀ p v, s.tcpMap p = some v ↔ (s.servers v).localAddr.port = p ∧ p ≠ 0
  owner : ∀ c < s.nconn, ∃ v, c ∈ s.held v
  owned : ∀ v, ∀ c ∈ s.held v, c < s.nconn ∧ (s.servers v).localAddr.port ≠ 0
    ∧ (s.conns c).localAddr = (s.servers v).localAddr
  /-- a connection of a listener leads to a socket that has one, too -/
  served : ∀ v, (s.servers v).isClient = false → ∀ d ∈ s.held v,
    ∃ w, s.held w ≠ [] ∧ (s.conns d).remote = (s.servers w).localAddr

/-- What the calls that set sockets up are made of. -/
inductive Move (s : NetServer) : NetServer → Prop where
  | socket : Move s s.blankTcp
  /-- a socket without connections gets a port that nobody has -/
  | bind {w : Nat} {addr : SocketAddr} (hw : w < s.nserver) (hheld : s.held w = [])
      (hip : (s.bindAddr w addr).ip = s.localIp) (hport : (s.bindAddr w addr).port ≠ 0)
      (hfree : s.tcpMap (s.bindAddr w addr).port = none) : Move s (s.bind w addr)
  | mark {w : Nat} (hw : w < s.nserver) (hheld : s.held w = []) : Move s (s.mark w)
  /-- the first connection of a socket that connects -/
  | dial {t : NetServer} {w x : Nat} {remote : SocketAddr} (hw : w < s.nserver)
      (hport : (s.servers w).localAddr.port ≠ 0) (hclient : (s.servers w).isClient = true)
      (hheld : s.held w = []) (h : Attached s t w x remote) : Move s t
  /-- a listener gets a connection to a socket that has one, and to which it has none -/
  | enqueue {t : NetServer} {w x u : Nat} (hw : w < s.nserver)
      (hport : (s.servers w).localAddr.port ≠ 0) (hlistener : (s.servers w).isClient = false)
      (hu : s.held u ≠ []) (hnew : ∀ y ∈ s.held w, (s.conns y).remote ≠ (s.servers u).localAddr)
      (h : Attached s t w x (s.servers u).localAddr) : Move s t

theorem bind_self (addr : SocketAddr) :
    (s.bind w addr).servers w = { s.servers w with localAddr := s.bindAddr w addr } :=
  setServer_self _

theorem held_bind {addr : SocketAddr} (v : Nat) : (s.bind w addr).held v = s.held v := by
  unfold held
  show (if v = w then _ else s.servers v).clients
    ++ (if v = w then _ else s.servers v).waitQueue = _
  split_ifs with hv
  · rw [hv]
  · rfl

namespace Inv

theorem new (localIp : Nat) : Inv (NetServer.new localIp) where
  unborn _ _ := rfl
  ip _ := rfl
  map _ _ := iff_of_false (fun h => by cases h) fun h => h.2 h.1.symm
  owner _ h := absurd h (Nat.not_lt_zero _)
  owned _ _ h := absurd h List.not_mem_nil
  served _ _ _ h := absurd h List.not_mem_nil

variable (h : Inv s)
include h

/-- Two sockets with one address are one. -/
theorem server_eq (hport : (s.servers v).localAddr.port ≠ 0)
    (haddr : (s.servers w).localAddr = (s.servers v).localAddr) : w = v := by
  have hmv := (h.map _ v).mpr ⟨rfl, hport⟩
  have hmw := (h.map _ w).mpr ⟨congrArg SocketAddr.port haddr, hport⟩
  exact Option.some.inj (hmw.symm.trans hmv)

/-- A socket with connections has an address. -/
theorem held_nil (hport : (s.servers v).localAddr.port = 0) : s.held v = [] := by
  refine List.eq_nil_iff_forall_not_mem.mpr fun c hc => ?_
  exact (h.owned v c hc).2.1 hport

theorem blankTcp_eq : s.blankTcp = { s with nserver := s.nserver + 1 } := by
  have hservers : s.blankTcp.servers = s.servers := by
    funext v
    show (if v = s.nserver then _ else s.servers v) = _
    split_ifs with hv
    · rw [hv, h.unborn _ (Nat.le_refl _)]
    · rfl
  show { s with servers := s.blankTcp.servers, nserver := s.nserver + 1 } = _
  rw [hservers]

theorem socket : Inv s.blankTcp := by
  rw [h.blankTcp_eq]
  exact ⟨fun v hv => h.unborn v (Nat.le_of_succ_le hv), h.ip, h.map, h.owner, h.owned, h.served⟩

theorem same (hs : Same s t) : Inv t where
  unborn v hv := by
    rw [hs.nserver] at hv
    rw [hs.unborn v hv, hs.localIp, h.unborn v hv]
  ip v := by rw [hs.addr, hs.localIp, h.ip]
  map p v := by rw [hs.tcpMap, hs.addr, h.map]
  owner c hc := by
    obtain ⟨v, hmem⟩ := h.owner c (hs.nconn ▸ hc)
    exact ⟨v, hs.held v ▸ hmem⟩
  owned v c hc := by
    rw [hs.nconn, hs.addr, (hs.ends c).1]
    exact h.owned v c (hs.held v ▸ hc)
  served v hclient d hd := by
    obtain ⟨w, hheld, hremote⟩ := h.served v (hs.client v hclient) d (hs.held v ▸ hd)
    refine ⟨w, hs.held w ▸ hheld, ?_⟩
    rw [(hs.ends d).2, hs.addr, hremote]

theorem bind {addr : SocketAddr} (hw : w < s.nserver) (hheld : s.held w = [])
    (hip : (s.bindAddr w addr).ip = s.localIp) (hport : (s.bindAddr w addr).port ≠ 0)
    (hfree : s.tcpMap (s.bindAddr w addr).port = none) : Inv (s.bind w addr) := by
  have hself := bind_self (s := s) (w := w) addr
  have hold : ∀ v, v ≠ w → (s.bind w addr).servers v = s.servers v := fun v hv => if_neg hv
  have hne : ∀ {v c}, c ∈ s.held v → v ≠ w := by
    rintro v c hc rfl
    rw [hheld] at hc
    cases hc
  refine ⟨fun v hv => ?_, fun v => ?_, fun p v => ?_, fun c hc => ?_, fun v c hc => ?_,
    fun v hclient d hd => ?_⟩
  · rw [hold v (Nat.ne_of_gt (Nat.lt_of_lt_of_le hw hv))]
    exact h.unborn v hv
  · by_cases hvw : v = w
    · rw [hvw, hself]
      exact hip
    · rw [hold v hvw]
      exact h.ip v
  · show (if p = (s.bindAddr w addr).port then some w
      else if p = (s.servers w).localAddr.port then none else s.tcpMap p) = some v ↔ _
    by_cases hvw : v = w
    · rw [hvw, hself]
      split_ifs with hp hpold
      · exact iff_of_true rfl ⟨hp.symm, hp ▸ hport⟩
      · exact iff_of_false (fun heq => by cases heq) fun hand => hp hand.1.symm
      · rw [h.map p w]
        exact iff_of_false (fun hand => hpold hand.1.symm) fun hand => hp hand.1.symm
    · rw [hold v hvw]
      split_ifs with hp hpold
      · refine iff_of_false (fun heq => hvw (Option.some.inj heq).symm) fun hand => ?_
        rw [← hp, (h.map p v).mpr hand] at hfree
        cases hfree
      · refine iff_of_false (fun heq => by cases heq) fun hand => hvw ?_
        have hmw := (h.map p w).mpr ⟨hpold.symm, hand.2⟩
        exact Option.some.inj (((h.map p v).mpr hand).symm.trans hmw)
      · exact h.map p v
  · obtain ⟨v, hmem⟩ := h.owner c hc
    exact ⟨v, (held_bind v).symm ▸ hmem⟩
  · rw [held_bind] at hc
    rw [hold v (hne hc)]
    exact h.owned v c hc
  · rw [held_bind] at hd
    rw [hold v (hne hd)] at hclient
    obtain ⟨u, huheld, hremote⟩ := h.served v hclient d hd
    refine ⟨u, (held_bind u).symm ▸ huheld, ?_⟩
    rw [hold u fun heq => huheld (heq ▸ hheld)]
    exact hremote

theorem attach (hw : w < s.nserver) (hport : (s.servers w).localAddr.port ≠ 0)
    (hserved : (s.servers w).isClient = false →
      ∃ u, s.held u ≠ [] ∧ remote = (s.servers u).localAddr)
    (ha : Attached s t w x remote) : Inv t where
  unborn v hv := by
    rw [ha.nserver] at hv
    rw [ha.others v (Nat.ne_of_gt (Nat.lt_of_lt_of_le hw hv)), ha.localIp, h.unborn v hv]
  ip v := by rw [ha.addr_all, ha.localIp, h.ip]
  map p v := by rw [ha.tcpMap, ha.addr_all, h.map]
  owner y hy := by
    by_cases hyx : y = x
    · exact ⟨w, ha.mem_held.mpr (.inr ⟨rfl, hyx⟩)⟩
    have hlt : y < s.nconn := by
      rw [ha.nconn] at hy
      rw [ha.id] at hyx
      omega
    obtain ⟨v, hmem⟩ := h.owner y hlt
    exact ⟨v, ha.mem_held.mpr (.inl hmem)⟩
  owned v y hy := by
    rw [ha.addr_all, ha.nconn]
    rcases ha.mem_held.mp hy with hy | ⟨rfl, rfl⟩
    · obtain ⟨hlt, hvport, hlocal⟩ := h.owned v y hy
      exact ⟨Nat.lt_succ_of_lt hlt, hvport, ha.old_of_lt hlt ▸ hlocal⟩
    · exact ⟨Nat.lt_succ_of_le (Nat.le_of_eq ha.id), hport, ha.localAddr⟩
  served v hlistener y hy := by
    rw [ha.isClient_all] at hlistener
    rcases ha.mem_held.mp hy with hy | ⟨rfl, rfl⟩
    · obtain ⟨u, hu, hremote⟩ := h.served v hlistener y hy
      refine ⟨u, ha.held_ne_nil hu, ?_⟩
      rw [ha.old_of_lt (h.owned v y hy).1, ha.addr_all, hremote]
    · obtain ⟨u, hu, hremote⟩ := hserved hlistener
      exact ⟨u, ha.held_ne_nil hu, by rw [ha.remote, ha.addr_all, hremote]⟩

theorem move (hmove : Move s t) : Inv t := by
  cases hmove with
  | socket => exact h.socket
  | bind hw hheld hip hport hfree => exact h.bind hw hheld hip hport hfree
  | mark hw hheld => exact h.same (setServer_same hw rfl rfl fun hfalse => by cases hfalse)
  | dial hw hport hclient hheld ha =>
    refine h.attach hw hport (fun hlistener => ?_) ha
    rw [hclient] at hlistener
    cases hlistener
  | enqueue hw hport hlistener hu hnew ha => exact h.attach hw hport (fun _ => ⟨_, hu, rfl⟩) ha

theorem moves (hmoves : Relation.ReflTransGen Move s t) : Inv t := by
  induction hmoves with
  | refl => exact h
  | tail _ hmove ih => exact ih.move hmove

end Inv

/-- A move keeps the connections there are. -/
theorem Move.old (hmove : Move s t) : s.nconn ≤ t.nconn ∧ ∀ y < s.nconn, t.conns y = s.conns y := by
  cases hmove with
  | dial _ _ _ _ ha => exact ⟨ha.nconn ▸ Nat.le_succ _, fun _ hy => ha.old_of_lt hy⟩
  | enqueue _ _ _ _ _ ha => exact ⟨ha.nconn ▸ Nat.le_succ _, fun _ hy => ha.old_of_lt hy⟩
  | _ => exact ⟨Nat.le_refl _, fun _ _ => rfl⟩

theorem moves_old (hmoves : Relation.ReflTransGen Move s t) :
    s.nconn ≤ t.nconn ∧ ∀ y < s.nconn, t.conns y = s.conns y := by
  induction hmoves with
  | refl => exact ⟨Nat.le_refl _, fun _ _ => rfl⟩
  | tail _ hmove ih =>
    refine ⟨Nat.le_trans ih.1 hmove.old.1, fun y hy => ?_⟩
    rw [hmove.old.2 y (Nat.lt_of_lt_of_le hy ih.1), ih.2 y hy]

/-! ## A connected pair -/

/-- The socket `v` has connected to `b`, with `c` on its own side and `d` on the other. -/
structure Pair (s : NetServer) (v b c d : Nat) : Prop where
  clients : (s.servers v).clients = [c]
  waitQueue : (s.servers v).waitQueue = []
  isClient : (s.servers v).isClient = true
  listener : (s.servers b).isClient = false
  client_remote : (s.conns c).remote = (s.servers b).localAddr
  server_remote : (s.conns d).remote = (s.servers v).localAddr
  only : (s.held b).filter (fun x => (s.conns x).remote == (s.servers v).localAddr) = [d]

namespace Pair

section

variable (h : Pair s v b c d)
include h

theorem held_client : s.held v = [c] := by
  unfold held
  rw [h.clients, h.waitQueue]
  rfl

theorem mem_client : c ∈ s.held v := h.held_client ▸ List.mem_singleton_self c

theorem mem_server : d ∈ s.held b :=
  List.mem_of_mem_filter (h.only ▸ List.mem_singleton_self d)

/-- The two sockets keep their connections, and these their ends. -/
theorem of_kept (hv : t.servers v = s.servers v)
    (hlocal : (t.servers b).localAddr = (s.servers b).localAddr)
    (hlistener : (t.servers b).isClient = (s.servers b).isClient)
    (hc : (t.conns c).remote = (s.conns c).remote) (hd : (t.conns d).remote = (s.conns d).remote)
    (honly : (t.held b).filter (fun x => (t.conns x).remote == (s.servers v).localAddr)
      = (s.held b).filter (fun x => (s.conns x).remote == (s.servers v).localAddr)) :
    Pair t v b c d where
  clients := hv ▸ h.clients
  waitQueue := hv ▸ h.waitQueue
  isClient := hv ▸ h.isClient
  listener := hlistener.trans h.listener
  client_remote := by rw [hc, hlocal, h.client_remote]
  server_remote := by rw [hd, hv, h.server_remote]
  only := by rw [hv, honly, h.only]

theorem same (hs : Same s t) (hv : t.servers v = s.servers v)
    (hlistener : (t.servers b).isClient = (s.servers b).isClient) : Pair t v b c d := by
  refine h.of_kept hv (hs.addr b) hlistener (hs.ends c).2 (hs.ends d).2 ?_
  rw [hs.held]
  refine List.filter_congr fun x _ => ?_
  rw [(hs.ends x).2]

/-- A socket without connections is none of the two. -/
theorem idle_ne {w : Nat} (hw : s.held w = []) : v ≠ w ∧ b ≠ w := by
  constructor
  · rintro rfl
    exact List.not_mem_nil (hw ▸ h.mem_client)
  · rintro rfl
    exact List.not_mem_nil (hw ▸ h.mem_server)

variable (hinv : Inv s)
include hinv

theorem client_ends : c < s.nconn ∧ (s.servers v).localAddr.port ≠ 0
    ∧ (s.conns c).localAddr = (s.servers v).localAddr := hinv.owned v c h.mem_client

theorem server_ends : d < s.nconn ∧ (s.servers b).localAddr.port ≠ 0
    ∧ (s.conns d).localAddr = (s.servers b).localAddr := hinv.owned b d h.mem_server

/-- A move leaves the two sockets alone, or `b` gets a connection that leads elsewhere. -/
theorem spared (hmove : Move s t) : t.servers v = s.servers v ∧ (t.servers b = s.servers b
    ∨ ∃ x r, Attached s t b x r ∧ r ≠ (s.servers v).localAddr) := by
  cases hmove with
  | socket =>
    rw [hinv.blankTcp_eq]
    exact ⟨rfl, .inl rfl⟩
  | bind hw hheld => exact ⟨if_neg (h.idle_ne hheld).1, .inl (if_neg (h.idle_ne hheld).2)⟩
  | mark hw hheld => exact ⟨if_neg (h.idle_ne hheld).1, .inl (if_neg (h.idle_ne hheld).2)⟩
  | dial hw hport hclient hheld ha =>
    exact ⟨ha.others v (h.idle_ne hheld).1, .inl (ha.others b (h.idle_ne hheld).2)⟩
  | @enqueue _ w x u hw hport hlistener hu hnew ha =>
    have hvw : v ≠ w := by
      rintro rfl
      have hboth := h.isClient.symm.trans hlistener
      cases hboth
    refine ⟨ha.others v hvw, ?_⟩
    by_cases hbw : b = w
    · subst hbw
      exact .inr ⟨x, _, ha, fun heq => hnew d h.mem_server (h.server_remote.trans heq.symm)⟩
    · exact .inl (ha.others b hbw)

theorem move (hmove : Move s t) : Pair t v b c d := by
  obtain ⟨hv, hb⟩ := h.spared hinv hmove
  have hold := hmove.old.2
  have hfilter : (s.held b).filter (fun x => (t.conns x).remote == (s.servers v).localAddr)
      = (s.held b).filter (fun x => (s.conns x).remote == (s.servers v).localAddr) := by
    refine List.filter_congr fun x hx => ?_
    rw [hold x (hinv.owned b x hx).1]
  have hc := congrArg TcpConnection.remote (hold c (h.client_ends hinv).1)
  have hd := congrArg TcpConnection.remote (hold d (h.server_ends hinv).1)
  rcases hb with hb | ⟨x, r, ha, hr⟩
  · refine h.of_kept hv (hb ▸ rfl) (hb ▸ rfl) hc hd ?_
    rw [← hfilter]
    unfold held
    rw [hb]
  · refine h.of_kept hv ha.addr ha.isClient hc hd ?_
    rw [← hfilter, ha.held, List.filter_append, List.filter_singleton, ha.remote,
      beq_eq_false_iff_ne.mpr hr]
    exact List.append_nil _

theorem moves (hmoves : Relation.ReflTransGen Move s t) : Pair t v b c d
    ∧ (d ∈ (t.servers b).clients ↔ d ∈ (s.servers b).clients) := by
  induction hmoves with
  | refl => exact ⟨h, Iff.rfl⟩
  | tail hmoves hmove ih =>
    have hinv' := hinv.moves hmoves
    refine ⟨ih.1.move hinv' hmove, Iff.trans ?_ ih.2⟩
    rcases (ih.1.spared hinv' hmove).2 with hb | ⟨x, r, ha, -⟩
    · rw [hb]
    · exact ha.clients d (Nat.ne_of_lt (ha.id ▸ (ih.1.server_ends hinv').1))

end

end Pair

/-! ## Finding the peer -/

theorem mem_targets {x : Nat} (hx : x ∈ s.targets c) : ∃ b, (s.conns c).toSelf = true
    ∧ s.tcpMap (s.conns c).remote.port = some b ∧ x ∈ s.held b
    ∧ (s.conns x).remote = (s.conns c).localAddr := by
  unfold targets at hx
  split_ifs at hx with hself
  · cases hmap : s.tcpMap (s.conns c).remote.port with
    | none =>
      rw [hmap] at hx
      cases hx
    | some b =>
      rw [hmap] at hx
      refine ⟨b, hself, rfl, ?_⟩
      rcases List.mem_append.mp hx with hx | hx
      · have hfind := Option.mem_toList.mp hx
        unfold getClient at hfind
        have hp := List.find?_some hfind
        exact ⟨List.mem_append_left _ (List.mem_of_find?_eq_some hfind), beq_iff_eq.mp hp⟩
      · have hfind := Option.mem_toList.mp hx
        have hp := List.find?_some hfind
        exact ⟨List.mem_append_right _ (List.mem_of_find?_eq_some hfind), beq_iff_eq.mp hp⟩
  · cases hx

/-- Two lookups, in two lists that hold one match between them. -/
theorem find_append {p : Nat → Bool} {l l' : List Nat} {x : Nat} (h : (l ++ l').filter p = [x]) :
    (l.find? p).toList ++ (l'.find? p).toList = [x] := by
  rw [List.filter_append] at h
  rw [← List.head?_filter, ← List.head?_filter]
  rcases List.append_eq_singleton_iff.mp h with ⟨hl, hl'⟩ | ⟨hl, hl'⟩
  · rw [hl, hl']
    rfl
  · rw [hl, hl']
    rfl

theorem targets_eq {x : Nat} (hself : (s.conns c).toSelf = true)
    (hmap : s.tcpMap (s.conns c).remote.port = some b)
    (honly : (s.held b).filter (fun x => (s.conns x).remote == (s.conns c).localAddr) = [x]) :
    s.targets c = [x] := by
  unfold targets
  rw [if_pos hself, hmap]
  exact find_append honly

namespace Pair

section

variable (h : Pair s v b c d) (hinv : Inv s)
include h hinv

theorem client_map : s.tcpMap (s.conns c).remote.port = some b := by
  rw [h.client_remote]
  exact (hinv.map _ b).mpr ⟨rfl, (h.server_ends hinv).2.1⟩

theorem server_map : s.tcpMap (s.conns d).remote.port = some v := by
  rw [h.server_remote]
  exact (hinv.map _ v).mpr ⟨rfl, (h.client_ends hinv).2.1⟩

theorem client_self : (s.conns c).toSelf = true := by
  unfold TcpConnection.toSelf
  rw [(h.client_ends hinv).2.2, h.client_remote, hinv.ip b, hinv.ip v]
  simp

theorem server_self : (s.conns d).toSelf = true := by
  unfold TcpConnection.toSelf
  rw [(h.server_ends hinv).2.2, h.server_remote, hinv.ip b, hinv.ip v]
  simp

theorem targets_client : s.targets c = [d] := by
  refine targets_eq (h.client_self hinv) (h.client_map hinv) ?_
  rw [(h.client_ends hinv).2.2]
  exact h.only

theorem targets_server : s.targets d = [c] := by
  refine targets_eq (h.server_self hinv) (h.server_map hinv) ?_
  rw [(h.server_ends hinv).2.2, h.held_client, List.filter_singleton, h.client_remote,
    beq_self_eq_true]
  rfl

/-- Nobody else reaches `d`. -/
theorem not_mem_targets_server {e : Nat} (he : e < s.nconn) (hne : e ≠ c) : d ∉ s.targets e := by
  intro hmem
  obtain ⟨b', -, -, -, hremote⟩ := mem_targets hmem
  obtain ⟨w, hew⟩ := hinv.owner e he
  have haddr : (s.servers w).localAddr = (s.servers v).localAddr := by
    rw [← (hinv.owned w e hew).2.2, ← hremote, h.server_remote]
  obtain rfl := hinv.server_eq (h.client_ends hinv).2.1 haddr
  rw [h.held_client] at hew
  exact hne (List.mem_singleton.mp hew)

/-- Nobody else reaches `c`: who sends to it has the address of `b` and leads to `v`. -/
theorem not_mem_targets_client {e : Nat} (he : e < s.nconn) (hne : e ≠ d) : c ∉ s.targets e := by
  intro hmem
  obtain ⟨v', -, hmap, hheld, hremote⟩ := mem_targets hmem
  obtain ⟨w, hew⟩ := hinv.owner e he
  have haddr : (s.servers w).localAddr = (s.servers b).localAddr := by
    rw [← (hinv.owned w e hew).2.2, ← hremote, h.client_remote]
  obtain rfl := hinv.server_eq (h.server_ends hinv).2.1 haddr
  have hlocal : (s.servers v').localAddr = (s.servers v).localAddr := by
    rw [← (hinv.owned v' c hheld).2.2, (h.client_ends hinv).2.2]
  obtain rfl := hinv.server_eq (h.client_ends hinv).2.1 hlocal
  -- `e` leads to a socket at the port of `v`, which is `v`
  obtain ⟨u, -, heu⟩ := hinv.served w h.listener e hew
  have huv : u = v' := by
    have hport := congrArg SocketAddr.port heu.symm
    have hmap' := (hinv.map _ u).mpr ⟨hport, ((hinv.map _ v').mp hmap).2⟩
    exact Option.some.inj (hmap'.symm.trans hmap)
  have hfilter :
      e ∈ (s.held w).filter (fun x => (s.conns x).remote == (s.servers v').localAddr) := by
    refine List.mem_filter.mpr ⟨hew, beq_iff_eq.mpr ?_⟩
    rw [heu, huv]
  rw [h.only] at hfilter
  exact hne (List.mem_singleton.mp hfilter)

/-- Closing needs the peer among the accepted connections. -/
theorem close_client : (s.close c).isSome = true ↔ d ∈ (s.servers b).clients := by
  have hlook : (⟨(s.conns c).remote.ip, (s.conns c).localAddr.port⟩ : SocketAddr)
      = (s.servers v).localAddr := by
    rw [h.client_remote, (h.client_ends hinv).2.2, hinv.ip b, ← hinv.ip v]
  have hclose : (s.close c).isSome = (s.getClient b (s.servers v).localAddr).isSome := by
    unfold close
    dsimp only
    rw [if_pos (h.client_self hinv), h.client_map hinv]
    dsimp only
    rw [hlook]
    cases s.getClient b (s.servers v).localAddr <;> rfl
  rw [hclose]
  unfold getClient
  rw [List.find?_isSome]
  constructor
  · rintro ⟨x, hx, heq⟩
    have hmem : x ∈ (s.held b).filter
        (fun x => (s.conns x).remote == (s.servers v).localAddr) :=
      List.mem_filter.mpr ⟨List.mem_append_left _ hx, heq⟩
    rw [h.only] at hmem
    exact List.mem_singleton.mp hmem ▸ hx
  · intro hd
    exact ⟨d, hd, beq_iff_eq.mpr h.server_remote⟩

/-- The socket that has connected has its connection. -/
theorem close_server : (s.close d).isSome = true := by
  have hlook : (⟨(s.conns d).remote.ip, (s.conns d).localAddr.port⟩ : SocketAddr)
      = (s.servers b).localAddr := by
    rw [h.server_remote, (h.server_ends hinv).2.2, hinv.ip v, ← hinv.ip b]
  have hfind : s.getClient v (s.servers b).localAddr = some c := by
    unfold getClient
    rw [h.clients]
    exact List.find?_cons_of_pos (beq_iff_eq.mpr h.client_remote)
  unfold close
  dsimp only
  rw [if_pos (h.server_self hinv), h.server_map hinv]
  dsimp only
  rw [hlook, hfind]
  rfl

end

end Pair

/-! ## The calls that set sockets up -/

theorem allocTcpPort_free (hport : s.PortLeft) : s.tcpMap s.allocTcpPort = none := by
  unfold PortLeft at hport
  unfold allocTcpPort at hport ⊢
  cases hfind : (List.range' 20000 45535).find? (fun p => (s.tcpMap p).isNone) with
  | none =>
    rw [hfind] at hport
    exact absurd rfl hport
  | some p =>
    have hp := List.find?_some hfind
    exact Option.isNone_iff_eq_none.mp hp

theorem bindAddr_self (hport : (s.servers w).localAddr.port = 0) :
    s.bindAddr w (s.servers w).localAddr = ⟨(s.servers w).localAddr.ip, s.allocTcpPort⟩ := by
  unfold bindAddr
  rw [if_pos hport, ite_self]

theorem listen_moves (hinv : Inv s) (hw : w < s.nserver) (hleft : s.PortLeft) :
    Relation.ReflTransGen Move s (s.listen w) := by
  unfold listen
  split_ifs with hport
  · refine .single (.bind hw (hinv.held_nil hport) ?_ ?_ ?_)
    all_goals rw [bindAddr_self hport]
    · exact hinv.ip w
    · exact hleft
    · exact allocTcpPort_free hleft
  · exact .refl

/-- What `ready` does to the socket, and that it leaves the others alone. -/
theorem ready_spec (hleft : s.PortLeft) : (s.ready v).nserver = s.nserver
    ∧ ((s.ready v).servers v).isClient = true ∧ ((s.ready v).servers v).localAddr.port ≠ 0
    ∧ (s.ready v).held v = s.held v ∧ ∀ w, w ≠ v → (s.ready v).servers w = s.servers w := by
  have hmark : (s.mark v).servers v = { s.servers v with isClient := true } := setServer_self _
  have hothers : ∀ w, w ≠ v → (s.mark v).servers w = s.servers w := fun w hw => if_neg hw
  have hheld : (s.mark v).held v = s.held v := by
    unfold held
    rw [hmark]
  unfold ready listen
  split_ifs with hport
  · refine ⟨rfl, ?_, ?_, (held_bind _).trans hheld, fun w hw => (if_neg hw).trans (hothers w hw)⟩
    · rw [bind_self, hmark]
    · rw [bind_self, bindAddr_self hport]
      exact hleft
  · exact ⟨rfl, by rw [hmark], hport, hheld, hothers⟩

/-- `connect` of a socket without connections, to one that does not connect. If it is put in the
queue there, the two are a pair, not accepted yet and with nothing on the way. -/
theorem connect_spec (hinv : Inv s) (horder : s.Orderly (.connect v remote res))
    (hv : v < s.nserver) (hconn : s.connect v remote = (t, res)) :
    Relation.ReflTransGen Move s t ∧ ∀ c d, res = .queued c d → ∃ b, Pair t v b c d
      ∧ s.nconn ≤ c ∧ s.nconn ≤ d ∧ t.bytes c = [] ∧ t.bytes d = []
      ∧ d ∉ (t.servers b).clients := by
  obtain ⟨hleft, hheld, htarget⟩ := horder
  obtain ⟨hnserver, hclient, hport, hheld₁, hothers⟩ := ready_spec (v := v) hleft
  rw [hheld] at hheld₁
  have hmoves : Relation.ReflTransGen Move s (s.ready v) :=
    .head (.mark hv hheld) (listen_moves (hinv.move (.mark hv hheld)) hv hleft)
  have hready := hinv.moves hmoves
  rw [← hnserver] at hv
  rcases connect_cases hconn hheld₁ with ⟨rfl, rfl⟩ | ⟨b, c, d, rfl, hmap, hself, hq⟩ | ⟨c, rfl, ha⟩
  · exact ⟨hmoves, fun _ _ h => by cases h⟩
  · obtain ⟨hbv, hlistener⟩ := htarget b hmap
    rw [← hothers b hbv] at hlistener
    obtain ⟨hbport, hne⟩ := (hready.map _ b).mp hmap
    obtain ⟨u, ha, hclients, ha', hwaits⟩ := hq hbv
    have hub := ha.others b hbv
    have htv := ha'.others v hbv.symm
    -- what the listener has leads to sockets with connections
    have hnew : ∀ y ∈ u.held b, (u.conns y).remote ≠ (u.servers v).localAddr := by
      intro y hy heq
      rw [ha.held_of_ne hbv] at hy
      rw [ha.old_of_lt (hready.owned b y hy).1, ha.addr] at heq
      obtain ⟨w, hw, hremote⟩ := hready.served b hlistener y hy
      exact hw (hready.server_eq hport (hremote.symm.trans heq) ▸ hheld₁)
    have hb : b < (s.ready v).nserver := by
      refine Nat.lt_of_not_le fun hle => hne ?_
      rw [← hbport, hready.unborn b hle]
      rfl
    have hdial : Move (s.ready v) u := .dial hv hport hclient hheld₁ ha
    have henqueue : Move u t := by
      refine .enqueue (x := d) (ha.nserver ▸ hb) ?_ ?_ ?_ hnew ?_
      · rw [hub, hbport]
        exact hne
      · rw [hub, hlistener]
      · rw [ha.held]
        exact List.append_ne_nil_of_right_ne_nil _ (List.cons_ne_nil _ _)
      · rw [ha.addr]
        exact ha'
    have hwait : (u.servers v).waitQueue = [] := by
      have hu := ha.held
      unfold held at hu hheld₁
      rw [hheld₁, hclients] at hu
      exact List.append_cancel_left hu
    have haddr : s.connectAddr v remote = ((s.ready v).servers b).localAddr := by
      have hip : (s.connectAddr v remote).ip = ((s.ready v).servers b).localAddr.ip := by
        rw [hready.ip v, ← hready.ip b] at hself
        unfold connectAddr at hself ⊢
        split_ifs at hself ⊢ with hloop
        · rw [hothers b hbv, hinv.ip, hinv.ip]
        rw [Bool.or_eq_true] at hloop
        exact (hself.resolve_left fun hl => hloop (.inl hl)).resolve_left
          fun hu => hloop (.inr hu)
      have hp : (s.connectAddr v remote).port = ((s.ready v).servers b).localAddr.port := by
        rw [hbport]
        unfold connectAddr
        split_ifs <;> rfl
      exact SocketAddr.ext hip hp
    have hcd : c ≠ d := by
      rw [ha.id, ha'.id, ha.nconn]
      exact Nat.ne_of_lt (Nat.lt_succ_self _)
    have hle : s.nconn ≤ c := ha.id ▸ (moves_old hmoves).1
    refine ⟨(hmoves.tail hdial).tail henqueue, ?_⟩
    rintro _ _ ⟨rfl, rfl⟩
    refine ⟨b, ⟨?_, ?_, ?_, ?_, ?_, ?_, ?_⟩, hle, ?_, ?_, congrArg List.flatten ha'.datas, ?_⟩
    · rw [htv, hclients]
    · rw [htv, hwait]
    · rw [htv, ha.isClient, hclient]
    · rw [ha'.isClient, hub, hlistener]
    · rw [ha'.old c hcd, ha.remote, ha'.addr, hub, haddr]
    · rw [ha'.remote, htv, ha.addr]
    · have hold : (u.held b).filter
          (fun x => (t.conns x).remote == (t.servers v).localAddr) = [] := by
        refine List.filter_eq_nil_iff.mpr fun y hy heq => hnew y hy ?_
        rw [ha'.old_of_lt (((hready.move hdial).owned b y hy).1), htv] at heq
        exact beq_iff_eq.mp heq
      rw [ha'.held, List.filter_append, hold, List.filter_singleton, ha'.remote, htv, ha.addr,
        beq_self_eq_true]
      rfl
    · rw [ha'.id, ha.nconn]
      exact Nat.le_succ_of_le (ha.id ▸ hle)
    · show (t.conns c).datas.flatten = []
      rw [ha'.old c hcd, ha.datas]
      rfl
    · rw [hwaits]
      intro hmem
      have hlt := ((hready.move hdial).owned b d (List.mem_append_left _ hmem)).1
      exact Nat.ne_of_lt hlt ha'.id
  · exact ⟨hmoves.tail (.dial hv hport hclient hheld₁ ha), fun _ _ h => by cases h⟩

/-- The calls that are neither `accept` nor traffic. -/
def SetsUp : NetEvent → Prop
  | .socket _ | .bind _ _ | .listen _ | .connect _ _ _ => True
  | _ => False

theorem setup_moves (hinv : Inv s) (horder : s.Orderly ev) (hstep : NetStep s ev t)
    (hsetup : SetsUp ev) : Relation.ReflTransGen Move s t := by
  cases hstep with
  | socket => exact .single .socket
  | @bind w addr hw hfree =>
    obtain ⟨hleft, hheld, hip⟩ := horder
    refine .single (.bind hw hheld ?_ ?_ ?_)
    all_goals unfold bindAddr
    · dsimp only
      split_ifs with hlocal
      · exact hinv.ip w
      · rw [Bool.or_eq_true] at hlocal
        exact (hip.resolve_left fun hl => hlocal (.inl hl)).resolve_left fun hu => hlocal (.inr hu)
    · dsimp only
      split_ifs with hzero
      · exact hleft
      · exact hzero
    · dsimp only
      split_ifs with hzero
      · exact allocTcpPort_free hleft
      · exact hfree
  | listen hw => exact listen_moves hinv hw horder
  | connect hw hconn => exact (connect_spec hinv horder hw hconn).1
  | _ => exact hsetup.elim

/-! ## The streams -/

theorem handle_lt {x : Handle} (hinv : Inv s) (hx : s.handle x = some c) : c < s.nconn := by
  cases x with
  | server v =>
    dsimp only [handle] at hx
    split_ifs at hx with hv
    exact (hinv.owned v c (List.mem_append_left _ (List.mem_of_head? hx))).1
  | conn e =>
    dsimp only [handle] at hx
    split_ifs at hx with he
    cases hx
    exact he

/-- One step of a stream from `y` to `x`: what `y` sends comes to the end of the queue of `x`, and
nothing else does. -/
theorem stream_step {x y : Nat} (hinv : Inv s) (hx : x < s.nconn) (hpeer : s.targets y = [x])
    (hother : ∀ e < s.nconn, e ≠ y → x ∉ s.targets e) (horder : s.Orderly ev)
    (hstep : NetStep s ev t) :
    s.bytes x ++ sentBytes y ev = receivedBytes x ev ++ t.bytes x := by
  have hmoves := setup_moves hinv horder hstep
  cases hstep with
  | accept hw haccept =>
    refine (List.append_nil _).trans ?_
    exact (congrArg List.flatten ((accept_spec hw haccept).datas x)).symm
  | @sent z e data hz =>
    refine Eq.trans ?_ ((sendData_spec s e data).2 x).symm
    show s.bytes x ++ (if e = y then data else []) = _
    by_cases he : e = y
    · rw [if_pos he, he, hpeer]
      simp
    rw [if_neg he]
    have hnone : (s.targets e).flatMap (fun y => if x = y then data else []) = [] := by
      refine List.flatMap_eq_nil_iff.mpr fun z hmem => if_neg ?_
      rintro rfl
      exact hother e (handle_lt hinv hz) he hmem
    rw [hnone]
  | @received _ z e data hz hrecv =>
    refine (List.append_nil _).trans (((recvFrom_spec hrecv).2 x).trans ?_)
    show _ = (if e = x then data else []) ++ _
    rw [if_congr eq_comm rfl rfl]
  | closed hz hclose => exact (List.append_nil _).trans ((close_spec hclose).2 x).symm
  | _ =>
    have hconn := (moves_old (hmoves trivial)).2 x hx
    exact (List.append_nil _).trans (congrArg (·.datas.flatten) hconn).symm

end NetServer

open NetServer

/-- A step of an orderly run. -/
def OrderlyStep (s : NetServer) (ev : NetEvent) (t : NetServer) : Prop :=
  s.Orderly ev ∧ NetStep s ev t

section Runs

variable {s t : NetServer} {evs : List NetEvent} {ev : NetEvent} {v b c d : Nat}
  {remote : SocketAddr} {ip : Nat}

/-- **The addresses stay unique.** -/
theorem inv_step (hinv : Inv s) (hstep : OrderlyStep s ev t) : Inv t := by
  obtain ⟨horder, hstep⟩ := hstep
  have hmoves := setup_moves hinv horder hstep
  cases hstep with
  | accept hv haccept => exact hinv.same (accept_spec hv haccept).toSame
  | @sent x c data hx => exact hinv.same (sendData_spec s c data).1.toSame
  | received hx hrecv => exact hinv.same (recvFrom_spec hrecv).1.toSame
  | closed hx hclose => exact hinv.same (close_spec hclose).1.toSame
  | _ => exact hinv.moves (hmoves trivial)

/-- A pair stays one, and accepting is the only way out of the queue. -/
theorem pair_step (hinv : Inv s) (h : Pair s v b c d) (hstep : OrderlyStep s ev t) :
    Pair t v b c d ∧ (d ∈ (t.servers b).clients
      ↔ d ∈ (s.servers b).clients ∨ ∃ w, ev = .accept w d) := by
  obtain ⟨horder, hstep⟩ := hstep
  have hmoves := setup_moves hinv horder hstep
  have hquiet : ∀ {ev : NetEvent}, (∀ w, ev ≠ .accept w d) → Quiet s t → Pair t v b c d
      ∧ (d ∈ (t.servers b).clients ↔ d ∈ (s.servers b).clients ∨ ∃ w, ev = .accept w d) := by
    intro ev hev hq
    refine ⟨h.same hq.toSame (by rw [hq.servers]) (by rw [hq.servers]), ?_⟩
    rw [hq.servers]
    exact (or_iff_left fun ⟨w, hw⟩ => hev w hw).symm
  cases hstep with
  | @accept _ w x hw haccept =>
    have ha := accept_spec hw haccept
    have hvw : v ≠ w := by
      rintro rfl
      exact List.not_mem_nil (h.waitQueue ▸ ha.waiting)
    by_cases hbw : b = w
    · subst hbw
      refine ⟨h.same ha.toSame (ha.others v hvw) ha.isClient, ?_⟩
      rw [ha.clients, List.mem_append, List.mem_singleton]
      refine or_congr_right ⟨fun heq => ⟨b, heq ▸ rfl⟩, ?_⟩
      rintro ⟨w, hw⟩
      cases hw
      rfl
    · refine ⟨h.same ha.toSame (ha.others v hvw) (by rw [ha.others b hbw]), ?_⟩
      rw [ha.others b hbw]
      refine (or_iff_left ?_).symm
      rintro ⟨u, heq⟩
      cases heq
      -- the connection of one socket does not wait at another
      have hown := (hinv.owned w d (List.mem_append_right _ ha.waiting)).2.2
      exact hbw (hinv.server_eq (h.server_ends hinv).2.1
        (hown.symm.trans (h.server_ends hinv).2.2)).symm
  | @sent x e data hx => exact hquiet (fun _ h => by cases h) (sendData_spec s e data).1
  | received hx hrecv => exact hquiet (fun _ h => by cases h) (recvFrom_spec hrecv).1
  | closed hx hclose => exact hquiet (fun _ h => by cases h) (close_spec hclose).1
  | _ =>
    obtain ⟨hpair, hclients⟩ := h.moves hinv (hmoves trivial)
    exact ⟨hpair, hclients.trans (or_iff_left fun ⟨w, hw⟩ => by cases hw).symm⟩

theorem inv_run (hinv : Inv s) (hrun : Run OrderlyStep s evs t) : Inv t :=
  hrun.invariant (I := Inv) (fun _ _ _ h hstep => inv_step h hstep) hinv

/-- The numbers of connections grow, and one that is not in use yet sends and receives nothing and
is not accepted. -/
theorem silent_step (hinv : Inv s) (hstep : OrderlyStep s ev t) : s.nconn ≤ t.nconn
    ∧ ∀ x, s.nconn ≤ x → sentBytes x ev = [] ∧ receivedBytes x ev = [] ∧ ∀ w, ev ≠ .accept w x := by
  obtain ⟨horder, hstep⟩ := hstep
  have hmoves := setup_moves hinv horder hstep
  cases hstep with
  | accept hw haccept =>
    have ha := accept_spec hw haccept
    refine ⟨Nat.le_of_eq ha.nconn.symm, fun x hx => ⟨rfl, rfl, fun _ h => ?_⟩⟩
    cases h
    have hlt := (hinv.owned _ _ (List.mem_append_right _ ha.waiting)).1
    exact Nat.not_le_of_lt hlt hx
  | @sent z c data hz =>
    refine ⟨Nat.le_of_eq (sendData_spec s c data).1.nconn.symm, fun x hx => ⟨if_neg ?_, rfl, ?_⟩⟩
    · exact Nat.ne_of_lt (Nat.lt_of_lt_of_le (handle_lt hinv hz) hx)
    · exact fun _ h => by cases h
  | received hz hrecv =>
    refine ⟨Nat.le_of_eq (recvFrom_spec hrecv).1.nconn.symm, fun x hx => ⟨rfl, if_neg ?_, ?_⟩⟩
    · exact Nat.ne_of_lt (Nat.lt_of_lt_of_le (handle_lt hinv hz) hx)
    · exact fun _ h => by cases h
  | closed hz hclose =>
    exact ⟨Nat.le_of_eq (close_spec hclose).1.nconn.symm,
      fun _ _ => ⟨rfl, rfl, fun _ h => by cases h⟩⟩
  | _ => exact ⟨(moves_old (hmoves trivial)).1, fun _ _ => ⟨rfl, rfl, fun _ h => by cases h⟩⟩

theorem silent_run (hinv : Inv s) (hrun : Run OrderlyStep s evs t) : s.nconn ≤ t.nconn
    ∧ ∀ x, t.nconn ≤ x → evs.flatMap (sentBytes x) = [] ∧ evs.flatMap (receivedBytes x) = []
      ∧ ∀ w, .accept w x ∉ evs := by
  induction hrun with
  | nil _ => exact ⟨Nat.le_refl _, fun _ _ => ⟨rfl, rfl, fun _ => List.not_mem_nil⟩⟩
  | cons hstep hrest ih =>
    obtain ⟨hle, hfirst⟩ := silent_step hinv hstep
    obtain ⟨hle', hrest⟩ := ih (inv_step hinv hstep)
    refine ⟨Nat.le_trans hle hle', fun x hx => ?_⟩
    obtain ⟨hsent, hreceived, haccept⟩ := hfirst x (Nat.le_trans hle (Nat.le_trans hle' hx))
    obtain ⟨hsent', hreceived', haccept'⟩ := hrest x hx
    rw [List.flatMap_cons, List.flatMap_cons, hsent, hreceived, hsent', hreceived']
    exact ⟨rfl, rfl, fun w => List.not_mem_cons_of_ne_of_not_mem (haccept w).symm (haccept' w)⟩

/-- Where the pair stands at the end of a run, and the run since then. -/
theorem pair_run (hrun : Run OrderlyStep (.new ip) evs s)
    (hmem : .connect v remote (.queued c d) ∈ evs) :
    ∃ b, Inv s ∧ Pair s v b c d ∧ (d ∈ (s.servers b).clients ↔ ∃ w, .accept w d ∈ evs)
      ∧ evs.flatMap (receivedBytes d) ++ s.bytes d = evs.flatMap (sentBytes c)
      ∧ evs.flatMap (receivedBytes c) ++ s.bytes c = evs.flatMap (sentBytes d) := by
  obtain ⟨pre, post, rfl⟩ := List.append_of_mem hmem
  obtain ⟨s₁, hpre, hrest⟩ := hrun.split
  have hinv₁ := inv_run (.new ip) hpre
  cases hrest with
  | @cons _ s₂ _ _ _ hstep hpost =>
    obtain ⟨horder, hstep⟩ := hstep
    have hinv₂ := inv_step hinv₁ ⟨horder, hstep⟩
    cases hstep with
    | connect hv hconn =>
      obtain ⟨b, hpair, hc, hd, hbc, hbd, hwaits⟩ :=
        (connect_spec hinv₁ horder hv hconn).2 c d rfl
      -- the pair stands along the rest of the run
      have hkeep : ∀ u ev w, Inv u ∧ Pair u v b c d → OrderlyStep u ev w →
          Inv w ∧ Pair w v b c d := fun u ev w hu hstep =>
        ⟨inv_step hu.1 hstep, (pair_step hu.1 hu.2 hstep).1⟩
      have hwithin := hpost.within (I := fun u => Inv u ∧ Pair u v b c d) hkeep ⟨hinv₂, hpair⟩
      obtain ⟨hinv, hpair'⟩ :=
        hpost.invariant (I := fun u => Inv u ∧ Pair u v b c d) hkeep ⟨hinv₂, hpair⟩
      have hflowd := hwithin.flow (·.bytes d) fun u ev w hu =>
        stream_step hu.1.1 (hu.1.2.server_ends hu.1.1).1 (hu.1.2.targets_client hu.1.1)
          (fun e he hne => hu.1.2.not_mem_targets_server hu.1.1 he hne) hu.2.1 hu.2.2
      have hflowc := hwithin.flow (·.bytes c) fun u ev w hu =>
        stream_step hu.1.1 (hu.1.2.client_ends hu.1.1).1 (hu.1.2.targets_server hu.1.1)
          (fun e he hne => hu.1.2.not_mem_targets_client hu.1.1 he hne) hu.2.1 hu.2.2
      have hmarks := hwithin.marks (I := fun u => d ∈ (u.servers b).clients) fun u ev w hu =>
        (pair_step hu.1.1 hu.1.2 hu.2).2
      obtain ⟨hsentc, hreceivedc, -⟩ := (silent_run (.new ip) hpre).2 c hc
      obtain ⟨hsentd, hreceivedd, hacceptd⟩ := (silent_run (.new ip) hpre).2 d hd
      rw [hbd, List.nil_append] at hflowd
      rw [hbc, List.nil_append] at hflowc
      refine ⟨b, hinv, hpair', ?_, ?_, ?_⟩
      · rw [hmarks, or_iff_right hwaits]
        constructor
        · rintro ⟨_, hev, w, rfl⟩
          exact ⟨w, List.mem_append_right _ (List.mem_cons_of_mem _ hev)⟩
        · rintro ⟨w, hev⟩
          rcases List.mem_append.mp hev with hev | hev
          · exact absurd hev (hacceptd w)
          · exact ⟨_, (List.mem_cons.mp hev).resolve_left (fun h => by cases h), w, rfl⟩
      · rw [List.flatMap_append, List.flatMap_append, List.flatMap_cons, List.flatMap_cons,
          hsentc, hreceivedd]
        exact hflowd.symm
      · rw [List.flatMap_append, List.flatMap_append, List.flatMap_cons, List.flatMap_cons,
          hsentd, hreceivedc]
        exact hflowc.symm

/-- At 10.0.2.15: a socket listens on port 80, another connects and sends two bytes. -/
def hail : List NetEvent :=
  [.socket 0, .socket 1, .bind 0 ⟨0, 80⟩, .listen 0,
    .connect 1 ⟨127 * 2 ^ 24 + 1, 80⟩ (.queued 0 1), .sent 0 [1, 2]]

def hailed : NetServer :=
  ((((NetServer.new 0x0a00020f).blankTcp.blankTcp.bind 0 ⟨0, 80⟩).listen 0).connect 1
    ⟨127 * 2 ^ 24 + 1, 80⟩).1.sendData 0 [1, 2]

theorem hail_run : Run OrderlyStep (.new 0x0a00020f) hail hailed := by
  have hport : ∀ {s : NetServer}, s.tcpMap 20000 = none → s.PortLeft := by
    intro s hs hzero
    have hfind : (List.range' 20000 45535).find? (fun p => (s.tcpMap p).isNone) = some 20000 := by
      rw [List.range'_succ, List.find?_cons_of_pos (by rw [hs]; rfl)]
    rw [allocTcpPort, hfind] at hzero
    cases hzero
  refine .cons ⟨trivial, .socket⟩ (.cons ⟨trivial, .socket⟩ (.cons ⟨⟨hport rfl, rfl, ?_⟩,
    .bind (by decide) rfl⟩ (.cons ⟨hport rfl, .listen (by decide)⟩ (.cons ⟨⟨hport rfl, rfl, ?_⟩,
    .connect (by decide) rfl⟩ (.cons ⟨trivial, .sent (x := .server 1) rfl⟩ (.nil _))))))
  · exact .inr (.inl rfl)
  intro b hb
  obtain rfl : 0 = b := Option.some.inj hb
  exact ⟨by decide, rfl⟩

theorem connect_mem_hail :
    .connect 1 ⟨127 * 2 ^ 24 + 1, 80⟩ (.queued 0 1) ∈ hail := by simp [hail]

/-- **A connection is two streams.** What one end has sent, in whatever order the calls on all
sockets came, is what the other end has received and what waits for it, in order and once; also
before the connection is accepted, and after it is closed. -/
theorem stream_run (hrun : Run OrderlyStep (.new ip) evs s)
    (hmem : .connect v remote (.queued c d) ∈ evs) :
    evs.flatMap (receivedBytes d) ++ s.bytes d = evs.flatMap (sentBytes c)
      ∧ evs.flatMap (receivedBytes c) ++ s.bytes c = evs.flatMap (sentBytes d) := by
  obtain ⟨b, -, -, -, hd, hc⟩ := pair_run hrun hmem
  exact ⟨hd, hc⟩

theorem stream_run_hail : hailed.bytes 1 = [1, 2] := by
  obtain ⟨hd, -⟩ := stream_run hail_run connect_mem_hail
  exact hd

/-- **Closing before the other side has accepted panics.** The socket that has connected can be
closed as soon as its connection has been accepted, and not before: the `unwrap` of `close` finds
only accepted connections. The other end can always be closed. -/
theorem close_run (hrun : Run OrderlyStep (.new ip) evs s)
    (hmem : .connect v remote (.queued c d) ∈ evs) :
    ((s.close c).isSome = true ↔ ∃ w, .accept w d ∈ evs) ∧ (s.close d).isSome = true := by
  obtain ⟨b, hinv, hpair, haccepted, -, -⟩ := pair_run hrun hmem
  exact ⟨(hpair.close_client hinv).trans haccepted, hpair.close_server hinv⟩

theorem close_run_hail : hailed.close 0 = none := by
  obtain ⟨hc, -⟩ := close_run hail_run connect_mem_hail
  refine Option.not_isSome_iff_eq_none.mp fun hsome => ?_
  obtain ⟨w, hw⟩ := hc.mp hsome
  simp [hail] at hw

end Runs

end MonkeyOS.LoseNet
