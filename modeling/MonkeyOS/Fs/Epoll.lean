import Mathlib.Data.List.Forall2
import Mathlib.Data.List.Nodup
import Mathlib.Data.List.Perm.Subperm
import MonkeyOS.Basic
import MonkeyOS.Lib.Paged

/-!
# MonkeyOS — epoll (`kernel/src/syscall/types/poll.rs`, `sys_epoll_ctl`, `sys_epoll_wait`)

An `EpollFile` is a hash map from descriptors to what was registered for them. `sys_epoll_wait` goes
over the map in rounds, with a yield before each, and copies the registration of every descriptor that
reports something into the user's buffer.

* `EpollFile.mem_ctl` — what `ctl` does to the map;
* `fill_eq` — one round: the ready registrations in the buffer, or a panic, of a `poll` or when they do
  not fit;
* `epollLoop_eq` — the first round with a ready descriptor or behind the deadline ends the call;
* `epoll_wait_iff` — the call reports what `poll` reported exactly if no `poll` panics up to that round,
  and its ready descriptors fit into the buffer and were registered for just what they report.

A round has everything that may change between two of them: the calls of `sys_epoll_ctl` so far, the
order in which the map is gone through, the open descriptors with their answers, and the clock.
-/

namespace MonkeyOS

open Lib

/-! ## Registrations -/

structure EpollEvent where
  /-- the bits of `EpollEventType` -/
  events : BitVec 32
  data : BitVec 64
  deriving DecidableEq

/-- `EpollEventType::to_poll`, with the bits that `PollEvent` knows. -/
def EpollEvent.toPoll (ev : EpollEvent) : BitVec 16 := ev.events.setWidth 16 &&& 0x37FF#16

inductive EpollCtl where
  | ADD
  | DEL
  | MOD
  deriving DecidableEq

def EpollCtl.fromUsize : Nat → Option EpollCtl
  | 1 => some .ADD
  | 2 => some .DEL
  | 3 => some .MOD
  | _ => none

/-- The map; each descriptor has one entry. -/
structure EpollFile where
  data : List (Nat × EpollEvent)
  nodup : (data.map Prod.fst).Nodup

namespace EpollFile

def new : EpollFile := ⟨[], List.nodup_nil⟩

theorem nodup_filter (f : EpollFile) (fd : Nat) :
    ((f.data.filter (·.1 ≠ fd)).map Prod.fst).Nodup :=
  f.nodup.sublist (List.filter_sublist.map _)

def insert (f : EpollFile) (fd : Nat) (ev : EpollEvent) : EpollFile where
  data := (fd, ev) :: f.data.filter (·.1 ≠ fd)
  nodup := by
    refine List.nodup_cons.mpr ⟨fun hmem => ?_, f.nodup_filter fd⟩
    obtain ⟨x, hx, hfd⟩ := List.mem_map.mp hmem
    have hne := (List.mem_filter.mp hx).2
    simp only [ne_eq, decide_not, Bool.not_eq_true', decide_eq_false_iff_not] at hne
    exact hne hfd

def remove (f : EpollFile) (fd : Nat) : EpollFile :=
  ⟨f.data.filter (·.1 ≠ fd), f.nodup_filter fd⟩

def replace (f : EpollFile) (fd : Nat) (ev : EpollEvent) : EpollFile where
  data := f.data.map (fun x => if x.1 = fd then (fd, ev) else x)
  nodup := by
    have hkeys : (f.data.map (fun x => if x.1 = fd then (fd, ev) else x)).map Prod.fst
        = f.data.map Prod.fst := by
      rw [List.map_map]
      apply List.map_congr_left
      intro x _
      show (if x.1 = fd then (fd, ev) else x).1 = x.1
      split
      · rename_i hfd
        exact hfd.symm
      · rfl
    rw [hkeys]
    exact f.nodup

def ctl (f : EpollFile) (fd : Nat) (ev : EpollEvent) : EpollCtl → EpollFile
  | .ADD => f.insert fd ev
  | .DEL => f.remove fd
  | .MOD => f.replace fd ev

end EpollFile

/-- What is behind the descriptor that is given for the epoll file. -/
inductive Epfd where
  | closed
  | other
  | epoll
  deriving DecidableEq

/-- The error of a descriptor that is not an epoll file. -/
def Epfd.error : Epfd → Option Errno
  | .closed => some .EBADF
  | .other => some .EINVAL
  | .epoll => none

/-- A call of `sys_epoll_ctl`. -/
structure EpollCtlCall where
  epfd : Epfd
  op : Nat
  fd : Nat
  /-- the descriptor `fd` is open -/
  isOpen : Bool
  event : EpollEvent

def sysEpollCtl (f : EpollFile) (c : EpollCtlCall) : Except Errno Nat × EpollFile :=
  match EpollCtl.fromUsize c.op with
  | none => (.error .EINVAL, f)
  | some op =>
    match c.epfd.error with
    | some e => (.error e, f)
    | none => if !c.isOpen then (.error .EBADF, f) else (.ok 0, f.ctl c.fd c.event op)

/-- The file after a sequence of calls. -/
def EpollFile.after (calls : List EpollCtlCall) : EpollFile :=
  calls.foldl (fun f c => (sysEpollCtl f c).2) .new

/-! ## `sys_epoll_wait` -/

/-- What `get_fd` and `file.poll` answer for a descriptor. -/
inductive Polled where
  /-- the descriptor is not open -/
  | closed
  /-- `poll` does not return: a TCP socket whose `connect` is under way is a client without a
  connection, and `readable` takes `clients[0]` -/
  | panics
  | failed (e : Errno)
  | ok (pevent : BitVec 16)
  deriving DecidableEq

structure EpollRound where
  calls : List EpollCtlCall
  order : List (Nat × EpollEvent)
  perm : order.Perm (EpollFile.after calls).data
  poll : Nat → BitVec 16 → Polled
  /-- `current_nsec` behind the round -/
  now : UInt64

/-- What the descriptor reports, if it is open and reports something. -/
def EpollRound.report (r : EpollRound) (x : Nat × EpollEvent) : Option (BitVec 16) :=
  match r.poll x.1 x.2.toPoll with
  | .ok pevent => if pevent ≠ 0 then some pevent else none
  | _ => none

def EpollRound.isReady (r : EpollRound) (x : Nat × EpollEvent) : Bool := (r.report x).isSome

/-- The `poll` of the descriptor panics. -/
def EpollRound.panics (r : EpollRound) (x : Nat × EpollEvent) : Bool :=
  r.poll x.1 x.2.toPoll = .panics

/-- The loop over the map; `none` is a panic, of `poll` or of `buffer[num]`. -/
def EpollRound.fill (r : EpollRound) :
    List (Nat × EpollEvent) → List EpollEvent → Nat → Option (List EpollEvent × Nat)
  | [], buffer, num => some (buffer, num)
  | x :: order, buffer, num =>
    if r.panics x then none
    else if r.isReady x then
      if num < buffer.length then r.fill order (buffer.set num x.2) (num + 1) else none
    else r.fill order buffer num

inductive EpollEnd where
  /-- not behind these rounds yet -/
  | waiting
  | panicked
  | failed (e : Errno)
  | returned (last : EpollRound) (n : Nat) (buffer : List EpollEvent)

def epollLoop (deadline : UInt64) : List EpollRound → List EpollEvent → EpollEnd
  | [], _ => .waiting
  | r :: rounds, buffer =>
    match r.fill r.order buffer 0 with
    | none => .panicked
    | some (buffer, num) =>
      if r.now ≥ deadline ∨ num > 0 then .returned r num buffer else epollLoop deadline rounds buffer

/-- The deadline, as the call computes it at time `stime`. -/
def epollDeadline (stime timeout : UInt64) : UInt64 :=
  if timeout = UInt64.ofNat (2 ^ 64 - 1) then UInt64.ofNat (2 ^ 64 - 1)
  else stime + timeout * 0x1000000

/-- The buffer has `max_events` entries. -/
def sysEpollWait (epfd : Epfd) (stime timeout : UInt64) (rounds : List EpollRound)
    (buffer : List EpollEvent) : EpollEnd :=
  match epfd.error with
  | some e => .failed e
  | none => epollLoop (epollDeadline stime timeout) rounds buffer

/-! ## One round -/

namespace EpollRound

variable (r : EpollRound)

/-- The entries that are copied. -/
def ready : List (Nat × EpollEvent) := r.order.filter r.isReady

theorem fill_of_panics {order : List (Nat × EpollEvent)} (h : order.any r.panics = true)
    (buffer : List EpollEvent) (num : Nat) : r.fill order buffer num = none := by
  induction order generalizing buffer num with
  | nil => cases h
  | cons x order ih =>
    unfold fill
    rw [List.any_cons, Bool.or_eq_true] at h
    by_cases hx : r.panics x
    · rw [if_pos hx]
    -- the entries before the one that panics may have filled the buffer
    have hrest := ih (h.resolve_left hx)
    rw [if_neg hx]
    split_ifs
    · exact hrest _ _
    · rfl
    · exact hrest _ _

/-- A round without a panic of `poll` copies the ready registrations, if there is room for them. -/
theorem fill_eq {order : List (Nat × EpollEvent)} (hquiet : order.any r.panics = false)
    {buffer : List EpollEvent} {num : Nat} (hnum : num ≤ buffer.length) :
    r.fill order buffer num =
      if num + (order.filter r.isReady).length ≤ buffer.length
      then some (splice buffer num ((order.filter r.isReady).map Prod.snd),
        num + (order.filter r.isReady).length)
      else none := by
  induction order generalizing buffer num with
  | nil =>
    show some (buffer, num) = if num ≤ buffer.length then some (splice buffer num [], num) else none
    rw [if_pos hnum, splice_nil]
  | cons x order ih =>
    rw [List.any_cons, Bool.or_eq_false_iff] at hquiet
    have ih := @ih hquiet.2
    unfold fill
    rw [if_neg (by rw [hquiet.1]; exact Bool.false_ne_true)]
    by_cases hready : r.isReady x
    · rw [if_pos hready, List.filter_cons_of_pos hready, List.map_cons, List.length_cons]
      by_cases hroom : num < buffer.length
      · have hset : splice buffer num [x.2] = buffer.set num x.2 := by
          unfold splice
          rw [List.set_eq_take_append_cons_drop, if_pos hroom, List.append_assoc]
          rfl
        have hjoin := splice_splice [x.2] ((order.filter r.isReady).map Prod.snd) hnum
        rw [hset] at hjoin
        rw [if_pos hroom, ih (by rw [List.length_set]; exact hroom), List.length_set]
        rw [show num + 1 = num + [x.2].length from rfl, hjoin]
        rw [show num + [x.2].length + (order.filter r.isReady).length
          = num + ((order.filter r.isReady).length + 1) by rw [List.length_singleton]; omega]
        rfl
      · rw [if_neg hroom, if_neg (by omega)]
    · rw [if_neg hready, List.filter_cons_of_neg hready]
      exact ih hnum

end EpollRound

/-! ## All rounds -/

/-- Some `poll` of the round panics. -/
def EpollRound.crashes (r : EpollRound) : Bool := r.order.any r.panics

/-- The round ends the call, one way or the other. -/
def EpollRound.stops (deadline : UInt64) (r : EpollRound) : Bool :=
  r.crashes || (decide (r.now ≥ deadline) || !r.ready.isEmpty)

theorem epollLoop_eq (deadline : UInt64) (rounds : List EpollRound) (buffer : List EpollEvent) :
    epollLoop deadline rounds buffer =
      match rounds.find? (EpollRound.stops deadline) with
      | none => .waiting
      | some r =>
        if r.crashes = false ∧ r.ready.length ≤ buffer.length
        then .returned r r.ready.length (splice buffer 0 (r.ready.map Prod.snd)) else .panicked := by
  induction rounds with
  | nil => rfl
  | cons r rounds ih =>
    unfold epollLoop
    cases hcrash : r.crashes with
    | true =>
      have hstops : EpollRound.stops deadline r := by
        unfold EpollRound.stops
        rw [hcrash, Bool.true_or]
      rw [r.fill_of_panics hcrash, List.find?_cons_of_pos hstops]
      simp only [hcrash, Bool.true_eq_false, false_and, if_false]
    | false =>
      have hfill := r.fill_eq hcrash (Nat.zero_le buffer.length)
      rw [Nat.zero_add] at hfill
      change _ = if r.ready.length ≤ buffer.length
        then some (splice buffer 0 (r.ready.map Prod.snd), r.ready.length) else none at hfill
      rw [hfill]
      by_cases hstops : EpollRound.stops deadline r
      · rw [List.find?_cons_of_pos hstops]
        by_cases hfits : r.ready.length ≤ buffer.length
        · unfold EpollRound.stops at hstops
          rw [hcrash, Bool.false_or, Bool.or_eq_true, decide_eq_true_iff] at hstops
          have hend : r.now ≥ deadline ∨ r.ready.length > 0 := by
            refine hstops.imp id (fun hready => List.length_pos_iff.mpr (fun hnil => ?_))
            rw [hnil] at hready
            cases hready
          simp only [hcrash, true_and, if_pos hfits, if_pos hend]
        · simp only [hfits, and_false, if_false]
      · rw [List.find?_cons_of_neg hstops]
        unfold EpollRound.stops at hstops
        rw [hcrash, Bool.false_or, Bool.or_eq_true, not_or, decide_eq_true_iff] at hstops
        obtain ⟨hearly, hready⟩ := hstops
        have hnil : r.ready = [] := by simpa using hready
        rw [hnil]
        show (if r.now ≥ deadline ∨ (0 : Nat) > 0 then _
          else epollLoop deadline rounds (splice buffer 0 [])) = _
        rw [if_neg (by simpa using hearly), splice_nil, ih]

/-! ## The law -/

/-- The entry of a registered and open descriptor: its data, with what `poll` reported. -/
structure EpollRound.Reported (r : EpollRound) (entry : EpollEvent) (fd : Nat) : Prop where
  exact : ∃ ev pevent, (fd, ev) ∈ (EpollFile.after r.calls).data
    ∧ r.poll fd ev.toPoll = .ok pevent ∧ pevent ≠ 0 ∧ entry = ⟨pevent.setWidth 32, ev.data⟩

/-- What a call that ended so should have done. -/
def EpollEnd.Law (rounds : List EpollRound) (maxEvents : Nat) : EpollEnd → Prop
  | .waiting => ∀ r ∈ rounds, r.ready = []
  | .panicked => False
  | .failed _ => True
  | .returned last n buffer => n ≤ maxEvents
    ∧ (∃ fds : List Nat, fds.Nodup ∧ List.Forall₂ last.Reported (buffer.take n) fds)
    ∧ (last.ready ≠ [] → 1 ≤ n)

/-- The entry as it should be. -/
def EpollRound.reported (r : EpollRound) (x : Nat × EpollEvent) : EpollEvent :=
  ⟨((r.report x).getD 0).setWidth 32, x.2.data⟩

/-- No `poll` panics, the ready descriptors fit into the buffer, and their registrations are, up to
their order, what they report. -/
structure EpollRound.Clean (r : EpollRound) (maxEvents : Nat) : Prop where
  quiet : ∀ x ∈ (EpollFile.after r.calls).data, r.poll x.1 x.2.toPoll ≠ .panics
  fits : r.ready.length ≤ maxEvents
  exact : (r.ready.map Prod.snd).Perm (r.ready.map r.reported)

namespace EpollRound

variable {r : EpollRound} {x : Nat × EpollEvent}

theorem report_eq_some {pevent : BitVec 16} :
    r.report x = some pevent ↔ r.poll x.1 x.2.toPoll = .ok pevent ∧ pevent ≠ 0 := by
  unfold report
  split
  · rename_i p hpoll
    split
    · rename_i hne
      rw [hpoll]
      constructor
      · rintro ⟨rfl⟩
        exact ⟨rfl, hne⟩
      · rintro ⟨heq, -⟩
        cases heq
        rfl
    · rename_i hzero
      refine ⟨fun h => (nomatch h), ?_⟩
      rintro ⟨heq, hne⟩
      rw [hpoll] at heq
      cases heq
      exact absurd hne hzero
  · rename_i hnot
    exact ⟨fun h => (nomatch h), fun h => absurd h.1 (hnot pevent)⟩

theorem crashes_eq_false_iff :
    r.crashes = false ↔ ∀ x ∈ (EpollFile.after r.calls).data, r.poll x.1 x.2.toPoll ≠ .panics := by
  unfold crashes panics
  rw [List.any_eq_false]
  constructor
  · intro h x hx hpanics
    exact h x (r.perm.mem_iff.mpr hx) (decide_eq_true hpanics)
  · intro h x hx hpanics
    exact h x (r.perm.mem_iff.mp hx) (of_decide_eq_true hpanics)

theorem mem_ready : x ∈ r.ready ↔ x ∈ (EpollFile.after r.calls).data ∧ ∃ pevent, r.report x = some pevent := by
  unfold ready isReady
  rw [List.mem_filter, r.perm.mem_iff, Option.isSome_iff_exists]

theorem nodup_ready (r : EpollRound) : (r.ready.map Prod.fst).Nodup := by
  have horder : (r.order.map Prod.fst).Nodup := (r.perm.map _).nodup_iff.mpr (EpollFile.after r.calls).nodup
  exact horder.sublist (List.filter_sublist.map _)

/-- A ready descriptor has one entry that reports it. -/
theorem reported_iff {entry : EpollEvent} {fd : Nat} :
    r.Reported entry fd ↔ ∃ x ∈ r.ready, x.1 = fd ∧ entry = r.reported x := by
  constructor
  · rintro ⟨ev, pevent, hmem, hpoll, hne, rfl⟩
    have hreport : r.report (fd, ev) = some pevent := report_eq_some.mpr ⟨hpoll, hne⟩
    refine ⟨(fd, ev), mem_ready.mpr ⟨hmem, pevent, hreport⟩, rfl, ?_⟩
    unfold reported
    rw [hreport]
    rfl
  · rintro ⟨x, hx, rfl, rfl⟩
    obtain ⟨hmem, pevent, hreport⟩ := mem_ready.mp hx
    obtain ⟨hpoll, hne⟩ := report_eq_some.mp hreport
    refine ⟨x.2, pevent, hmem, hpoll, hne, ?_⟩
    unfold reported
    rw [hreport]
    rfl

/-- The registrations that were reported, one for each descriptor. -/
theorem exists_reported {entries : List EpollEvent} {fds : List Nat}
    (h : List.Forall₂ r.Reported entries fds) :
    ∃ xs : List (Nat × EpollEvent), entries = xs.map r.reported ∧ fds = xs.map Prod.fst
      ∧ ∀ x ∈ xs, x ∈ r.ready := by
  induction h with
  | nil => exact ⟨[], rfl, rfl, fun x hx => absurd hx List.not_mem_nil⟩
  | cons hhead _ ih =>
    obtain ⟨x, hx, rfl, rfl⟩ := reported_iff.mp hhead
    obtain ⟨xs, rfl, rfl, hxs⟩ := ih
    exact ⟨x :: xs, rfl, rfl, List.forall_mem_cons.mpr ⟨hx, hxs⟩⟩

theorem exists_fds_iff {entries : List EpollEvent} (hlen : entries.length = r.ready.length) :
    (∃ fds : List Nat, fds.Nodup ∧ List.Forall₂ r.Reported entries fds)
      ↔ entries.Perm (r.ready.map r.reported) := by
  constructor
  · rintro ⟨fds, hnodup, hreported⟩
    obtain ⟨xs, rfl, rfl, hxs⟩ := exists_reported hreported
    rw [List.length_map] at hlen
    -- as many ready descriptors as there are
    have hperm : xs.Perm r.ready :=
      (List.subperm_of_subset (List.Nodup.of_map Prod.fst hnodup) hxs).perm_of_length_le (Nat.le_of_eq hlen.symm)
    exact hperm.map _
  · intro hperm
    have hall : List.Forall₂ (fun entry x => entry = r.reported x) (r.ready.map r.reported) r.ready := by
      rw [List.forall₂_map_left_iff]
      exact List.forall₂_same.mpr (fun _ _ => rfl)
    obtain ⟨xs, hxs, hready⟩ := List.perm_comp_forall₂ hperm hall
    have hentries : entries = xs.map r.reported := by
      have heq := List.forall₂_map_right_iff.mpr hxs
      rwa [List.forall₂_eq_eq_eq] at heq
    refine ⟨xs.map Prod.fst, (hready.map _).nodup_iff.mpr r.nodup_ready, ?_⟩
    rw [hentries, List.forall₂_map_right_iff, List.forall₂_map_left_iff]
    exact List.forall₂_same.mpr (fun x hx => reported_iff.mpr ⟨x, hready.mem_iff.mp hx, rfl, rfl⟩)

end EpollRound

/-- **`sys_epoll_wait`.** Whatever calls of `sys_epoll_ctl` came before and between the rounds, the call
reports distinct ready descriptors with what `poll` reported exactly if the round that ends it is
clean. -/
theorem epoll_wait_iff (stime timeout : UInt64) (rounds : List EpollRound) (buffer : List EpollEvent) :
    (sysEpollWait .epoll stime timeout rounds buffer).Law rounds buffer.length
      ↔ ∀ r, rounds.find? (EpollRound.stops (epollDeadline stime timeout)) = some r →
          r.Clean buffer.length := by
  show (epollLoop _ rounds buffer).Law rounds buffer.length ↔ _
  rw [epollLoop_eq]
  cases hfind : rounds.find? (EpollRound.stops (epollDeadline stime timeout)) with
  | none =>
    refine iff_of_true (fun r hr => ?_) (fun r hr => nomatch hr)
    have hnot := List.find?_eq_none.mp hfind r hr
    unfold EpollRound.stops at hnot
    rw [Bool.or_eq_true, not_or, Bool.or_eq_true, not_or] at hnot
    simpa using hnot.2.2
  | some r =>
    dsimp only
    by_cases hgood : r.crashes = false ∧ r.ready.length ≤ buffer.length
    · rw [if_pos hgood]
      obtain ⟨hquiet, hfits⟩ := hgood
      have htake : (splice buffer 0 (r.ready.map Prod.snd)).take r.ready.length
          = r.ready.map Prod.snd := by
        unfold splice
        rw [List.take_zero, List.nil_append]
        exact List.take_left' (List.length_map _)
      have hlength : (r.ready.map Prod.snd).length = r.ready.length := List.length_map _
      have hfds := EpollRound.exists_fds_iff hlength
      constructor
      · rintro ⟨-, hreported, -⟩ r' hr'
        cases hr'
        rw [htake] at hreported
        exact ⟨EpollRound.crashes_eq_false_iff.mp hquiet, hfits, hfds.mp hreported⟩
      · intro hclean
        refine ⟨hfits, ?_, fun hne => List.length_pos_iff.mpr hne⟩
        rw [htake]
        exact hfds.mpr (hclean r rfl).exact
    · rw [if_neg hgood]
      refine iff_of_false id (fun hclean => hgood ?_)
      exact ⟨EpollRound.crashes_eq_false_iff.mpr (hclean r rfl).quiet, (hclean r rfl).fits⟩

/-- A round in which every descriptor can be read and none can be written. -/
def readableRound (registered : List (Nat × EpollEvent)) : EpollRound where
  calls := registered.map (fun x => ⟨.epoll, 1, x.1, true, x.2⟩)
  order := _
  perm := .refl _
  poll := fun _ events => .ok (events &&& 1)
  now := 0

/-- Two descriptors are ready and the buffer has one entry: the kernel panics, as it does when a socket
is asked whose `connect` is under way. One descriptor, registered for reading and writing, can be read
only: both are reported. -/
theorem epoll_wait_overruns :
    sysEpollWait .epoll 0 0 [readableRound [(3, ⟨1, 3⟩), (4, ⟨1, 4⟩)]] [⟨0, 0⟩] = .panicked
    ∧ sysEpollWait .epoll 0 0 [{ readableRound [(3, ⟨1, 3⟩)] with poll := fun _ _ => .panics }]
        [⟨0, 0⟩] = .panicked
    ∧ sysEpollWait .epoll 0 0 [readableRound [(3, ⟨5, 3⟩)]] [⟨0, 0⟩]
      = .returned (readableRound [(3, ⟨5, 3⟩)]) 1 [⟨5, 3⟩]
    ∧ ¬ (sysEpollWait .epoll 0 0 [readableRound [(3, ⟨5, 3⟩)]] [⟨0, 0⟩]).Law
        [readableRound [(3, ⟨5, 3⟩)]] 1 := by
  refine ⟨rfl, rfl, rfl, ?_⟩
  rintro ⟨-, ⟨fds, -, hreported⟩, -⟩
  obtain ⟨xs, hentries, -, hready⟩ := EpollRound.exists_reported hreported
  have hready' : ∀ x ∈ xs, x = (3, ⟨5, 3⟩) := fun x hx => List.mem_singleton.mp (hready x hx)
  cases xs with
  | nil => cases hentries
  | cons x xs =>
    obtain ⟨hhead, -⟩ := List.cons.inj hentries
    rw [hready' x List.mem_cons_self] at hhead
    exact absurd hhead (by decide)

end MonkeyOS
