import MonkeyOS.Task.Futex

/-!
# MonkeyOS — runs of futex calls

The threads of a process call `sys_futex`, are polled inside their WAITs and leave them, in any
order. `FutexSys.Queued` is what a futex table is for: an id stands in it at most once, and
only while its task is inside a WAIT. Each step keeps it, but for a WAIT that ends without
taking its entry out, by its timeout or because its future is dropped
(`futex_timeout_leaves_entry`).

* `sysFutex_returned`, `sysFutex_waiting`, `waitPoll_ready` — what one call and one poll do to
  the ids;
* `FutexSys.Queued.step` — the step lemma;
* `futex_run_queued` — the runs.
-/

namespace MonkeyOS

open Lib

/-- The table of a process, and the deadline of the WAIT each of its threads is inside of. -/
structure FutexSys where
  table : FutexTable
  waits : Nat → Option (Option Nat)

def FutexSys.init : FutexSys := ⟨[], fun _ => none⟩

inductive FutexEvent where
  | called (tid : Nat) (args : FutexArgs) (env : FutexEnv)
  | polled (tid : Nat) (hasSignal : Bool) (now : Nat)
  /-- the future of the WAIT is dropped, as when another thread has called `exit_group` -/
  | dropped (tid : Nat)

/-- A thread inside a WAIT makes no other call. -/
inductive FutexStep : FutexSys → FutexEvent → FutexSys → Prop where
  | returned {s : FutexSys} {tid : Nat} {args : FutexArgs} {env : FutexEnv} {table : FutexTable}
      {res : Except Errno Nat} (hidle : s.waits tid = none)
      (h : sysFutex s.table tid args env = some (table, .returned res)) :
      FutexStep s (.called tid args env) ⟨table, s.waits⟩
  | waiting {s : FutexSys} {tid : Nat} {args : FutexArgs} {env : FutexEnv} {table : FutexTable}
      {deadline : Option Nat} (hidle : s.waits tid = none)
      (h : sysFutex s.table tid args env = some (table, .waiting deadline)) :
      FutexStep s (.called tid args env) ⟨table, Function.update s.waits tid (some deadline)⟩
  | pending {s : FutexSys} {tid now : Nat} {hasSignal : Bool} {table : FutexTable}
      {deadline : Option Nat} (hwait : s.waits tid = some deadline)
      (h : waitPoll s.table tid deadline hasSignal now = (table, none)) :
      FutexStep s (.polled tid hasSignal now) ⟨table, s.waits⟩
  | ready {s : FutexSys} {tid now : Nat} {hasSignal : Bool} {table : FutexTable}
      {deadline : Option Nat} {res : Except Errno Nat} (hwait : s.waits tid = some deadline)
      (h : waitPoll s.table tid deadline hasSignal now = (table, some res)) :
      FutexStep s (.polled tid hasSignal now) ⟨table, Function.update s.waits tid none⟩
  | dropped {s : FutexSys} {tid : Nat} {deadline : Option Nat}
      (hwait : s.waits tid = some deadline) :
      FutexStep s (.dropped tid) ⟨s.table, Function.update s.waits tid none⟩

/-- An id stands in the table at most once, and only while its task waits. -/
structure FutexSys.Queued (s : FutexSys) : Prop where
  once : s.table.ids.Nodup
  waiting : ∀ tid ∈ s.table.ids, s.waits tid ≠ none

/-- No WAIT of a queued task ends by its timeout or is dropped. -/
def FutexEvent.InTime (s : FutexSys) : FutexEvent → Prop
  | .called _ _ _ => True
  | .polled tid hasSignal now =>
    tid ∈ s.table.ids → hasSignal = false → ∀ deadline, s.waits tid = some (some deadline) →
      now ≤ deadline
  | .dropped tid => tid ∉ s.table.ids

/-! ## One call, one poll -/

section Step

variable {table table' : FutexTable} {tid : Nat} {args : FutexArgs} {env : FutexEnv}

/-- A call that returns takes ids out. -/
theorem sysFutex_returned {res : Except Errno Nat}
    (h : sysFutex table tid args env = some (table', .returned res)) :
    ∃ woken : List Nat, table.ids.Perm (woken ++ table'.ids) := by
  unfold sysFutex at h
  split at h
  · cases h
    exact ⟨[], List.Perm.refl _⟩
  split at h
  · cases h
    exact ⟨[], List.Perm.refl _⟩
  · split at h
    · cases h
    · cases h
      exact ⟨[], List.Perm.refl _⟩
  · cases h
    obtain ⟨woken, -, hperm⟩ := futexWake_ids table args.uaddr args.value
    exact ⟨woken, hperm⟩
  · obtain ⟨⟨table₁, count⟩, hreque, heq⟩ := Option.map_eq_some_iff.mp h
    cases heq
    exact futexRequeue_ids hreque

/-- A call that waits puts its task in. -/
theorem sysFutex_waiting {deadline : Option Nat}
    (h : sysFutex table tid args env = some (table', .waiting deadline)) :
    table'.ids.Perm (tid :: table.ids) := by
  unfold sysFutex at h
  split at h
  · cases h
  split at h
  · cases h
  · split at h
    · cases h
      exact FutexTable.ids_push table args.uaddr tid
    · cases h
  · cases h
  · obtain ⟨⟨table₁, count⟩, -, heq⟩ := Option.map_eq_some_iff.mp h
    cases heq

variable {deadline : Option Nat} {hasSignal : Bool} {now : Nat}

theorem waitPoll_of_not_mem (h : tid ∉ table.ids) :
    waitPoll table tid deadline hasSignal now = (table, some (.ok 0)) := by
  have hout : inFutex table tid = false := by
    rw [← Bool.not_eq_true, inFutex_iff]
    exact h
  simp [waitPoll, waitFutexPoll, hout]

theorem waitPoll_of_mem (h : tid ∈ table.ids) :
    waitPoll table tid deadline hasSignal now
      = if hasSignal then (table.retain tid, some (.error .EINTR))
        else (table, deadline.bind
          (fun deadline => if now > deadline then some (.error .ETIMEDOUT) else none)) := by
  have hin : inFutex table tid = true := inFutex_iff.mpr h
  cases hasSignal <;> cases deadline <;> simp [waitPoll, waitFutexPoll, hin]

theorem waitPoll_pending (h : waitPoll table tid deadline hasSignal now = (table', none)) :
    table' = table := by
  by_cases hin : tid ∈ table.ids
  · rw [waitPoll_of_mem hin] at h
    cases hasSignal with
    | true => cases h
    | false =>
      rw [if_neg Bool.false_ne_true] at h
      exact (Prod.mk.inj h).1.symm
  · rw [waitPoll_of_not_mem hin] at h
    cases h

/-- A poll that ends the WAIT in time leaves the task in no queue. -/
theorem waitPoll_ready {res : Except Errno Nat} (hnodup : table.ids.Nodup)
    (hintime : tid ∈ table.ids → hasSignal = false → ∀ d, deadline = some d → now ≤ d)
    (h : waitPoll table tid deadline hasSignal now = (table', some res)) :
    tid ∉ table'.ids ∧ table'.ids.Sublist table.ids := by
  by_cases hin : tid ∈ table.ids
  · rw [waitPoll_of_mem hin] at h
    cases hsig : hasSignal with
    | true =>
      rw [hsig, if_pos rfl] at h
      cases h
      exact FutexTable.ids_retain hnodup tid
    | false =>
      -- not a signal, so the timeout: it is not due
      rw [hsig] at h
      cases deadline with
      | none => cases h
      | some d =>
        have hle := hintime hin hsig d rfl
        simp [Nat.not_lt.mpr hle] at h
  · rw [waitPoll_of_not_mem hin] at h
    cases h
    exact ⟨hin, List.Sublist.refl _⟩

end Step

/-! ## Runs -/

namespace FutexSys

variable {s t : FutexSys}

theorem queued_init : FutexSys.init.Queued := ⟨List.nodup_nil, fun _ h => nomatch h⟩

/-- Ids go, nothing else changes. -/
theorem Queued.shrink (h : s.Queued) {table : FutexTable} {woken : List Nat}
    (hperm : s.table.ids.Perm (woken ++ table.ids)) : Queued ⟨table, s.waits⟩ := by
  have hnodup := hperm.nodup_iff.mp h.once
  refine ⟨(List.nodup_append.mp hnodup).2.1, fun tid htid => h.waiting tid ?_⟩
  exact hperm.mem_iff.mpr (List.mem_append_right _ htid)

/-- A WAIT begins. -/
theorem Queued.wait (h : s.Queued) {table : FutexTable} {tid : Nat} (deadline : Option Nat)
    (hidle : s.waits tid = none) (hperm : table.ids.Perm (tid :: s.table.ids)) :
    Queued ⟨table, Function.update s.waits tid (some deadline)⟩ := by
  have hnew : tid ∉ s.table.ids := fun htid => h.waiting tid htid hidle
  refine ⟨hperm.nodup_iff.mpr (List.nodup_cons.mpr ⟨hnew, h.once⟩), fun u hu => ?_⟩
  show Function.update s.waits tid (some deadline) u ≠ none
  by_cases hut : u = tid
  · rw [hut, Function.update_self]
    simp
  rw [Function.update_of_ne hut]
  rcases List.mem_cons.mp (hperm.mem_iff.mp hu) with heq | hin
  · exact absurd heq hut
  · exact h.waiting u hin

/-- A WAIT ends, with its task in no queue. -/
theorem Queued.leave (h : s.Queued) {table : FutexTable} {tid : Nat} (hout : tid ∉ table.ids)
    (hsub : table.ids.Sublist s.table.ids) :
    Queued ⟨table, Function.update s.waits tid none⟩ := by
  refine ⟨h.once.sublist hsub, fun u hu => ?_⟩
  have hut : u ≠ tid := fun heq => hout (heq ▸ hu)
  show Function.update s.waits tid none u ≠ none
  rw [Function.update_of_ne hut]
  exact h.waiting u (hsub.subset hu)

/-- **The step lemma.** -/
theorem Queued.step (h : s.Queued) {ev : FutexEvent} (hstep : FutexStep s ev t)
    (hintime : ev.InTime s) : t.Queued := by
  cases hstep with
  | returned hidle hcall =>
    obtain ⟨woken, hperm⟩ := sysFutex_returned hcall
    exact h.shrink hperm
  | waiting hidle hcall => exact h.wait _ hidle (sysFutex_waiting hcall)
  | pending hwait hpoll =>
    rw [waitPoll_pending hpoll]
    exact h
  | ready hwait hpoll =>
    obtain ⟨hout, hsub⟩ := waitPoll_ready h.once
      (fun hin hsig d hd => hintime hin hsig d (by rw [hwait, hd])) hpoll
    exact h.leave hout hsub
  | dropped hwait => exact h.leave hintime (List.Sublist.refl _)

/-- Each unit `futex_wake` counts is a different task that was waiting, and whose next poll
returns 0. -/
def WakesWaiters (s : FutexSys) : Prop :=
  ∀ uaddr wakeCount, ∃ woken : List Nat,
    (futexWake s.table uaddr wakeCount).2 = woken.length ∧ woken.Nodup ∧ ∀ tid ∈ woken,
      ∃ deadline, s.waits tid = some deadline ∧ ∀ hasSignal now,
        waitPoll (futexWake s.table uaddr wakeCount).1 tid deadline hasSignal now
          = ((futexWake s.table uaddr wakeCount).1, some (.ok 0))

theorem Queued.wakesWaiters (h : s.Queued) : s.WakesWaiters := by
  intro uaddr wakeCount
  obtain ⟨woken, hcount, hperm⟩ := futexWake_ids s.table uaddr wakeCount
  have hnodup := List.nodup_append.mp (hperm.nodup_iff.mp h.once)
  refine ⟨woken, hcount, hnodup.1, fun tid htid => ?_⟩
  have hwaits := h.waiting tid (hperm.mem_iff.mpr (List.mem_append_left _ htid))
  obtain ⟨deadline, hdeadline⟩ := Option.ne_none_iff_exists'.mp hwaits
  refine ⟨deadline, hdeadline, fun hasSignal now => waitPoll_of_not_mem (fun hin => ?_)⟩
  exact hnodup.2.2 tid htid tid hin rfl

end FutexSys

/-- In a run in which no WAIT of a queued task ends by its timeout or is dropped, the table
holds waiting tasks only. -/
theorem futex_run_queued {evs : List FutexEvent} {s : FutexSys}
    (hrun : Run (fun s ev t => FutexStep s ev t ∧ ev.InTime s) FutexSys.init evs s) :
    s.Queued ∧ s.WakesWaiters := by
  have hqueued : s.Queued :=
    hrun.invariant (fun _ _ _ h hstep => h.step hstep.1 hstep.2) FutexSys.queued_init
  exact ⟨hqueued, hqueued.wakesWaiters⟩

/-- `FUTEX_WAIT` with a timeout of 5 ns at time 0. -/
def timedWait (uaddr tid : Nat) : FutexEvent :=
  .called tid ⟨uaddr, 0, 0, 0x5000, 0⟩ ⟨0, 5, 0⟩

/-- A timed WAIT that is interrupted in time, and one that is woken. -/
theorem futex_run_queued_woken :
    ∃ s : FutexSys, Run (fun s ev t => FutexStep s ev t ∧ ev.InTime s) FutexSys.init
        [timedWait 0x1000 1, timedWait 0x1000 2, .polled 1 true 3,
          .called 3 ⟨0x1000, 1, 1, 0, 0⟩ ⟨0, 0, 4⟩] s
      ∧ s.table = [(0x1000, [])] ∧ s.Queued := by
  have hrun : Run (fun s ev t => FutexStep s ev t ∧ ev.InTime s) FutexSys.init
      [timedWait 0x1000 1, timedWait 0x1000 2, .polled 1 true 3,
        .called 3 ⟨0x1000, 1, 1, 0, 0⟩ ⟨0, 0, 4⟩] _ :=
    .cons ⟨.waiting rfl rfl, trivial⟩
      (.cons ⟨.waiting rfl rfl, trivial⟩
        (.cons ⟨.ready rfl rfl, fun _ hsig => nomatch hsig⟩
          (.cons ⟨.returned rfl rfl, trivial⟩ (.nil _))))
  exact ⟨_, hrun, rfl, (futex_run_queued hrun).1⟩

/-- Task 1 times out and stays in the queue. Task 2 waits there, task 3 wakes one: the wake-up
counts task 1, and task 2 is still queued. -/
theorem futex_timeout_leaves_entry :
    ∃ s t : FutexSys, Run FutexStep FutexSys.init [timedWait 0x1000 1, .polled 1 false 6] s
      ∧ s.waits 1 = none ∧ 1 ∈ s.table.ids ∧ ¬ s.Queued
      ∧ Run FutexStep s [timedWait 0x1000 2, .called 3 ⟨0x1000, 1, 1, 0, 0⟩ ⟨0, 0, 7⟩] t
      ∧ t.table = [(0x1000, [2])] := by
  have hrun : Run FutexStep FutexSys.init [timedWait 0x1000 1, .polled 1 false 6]
      ⟨[(0x1000, [1])], _⟩ :=
    .cons (.waiting rfl rfl) (.cons (.ready rfl rfl) (.nil _))
  refine ⟨_, _, hrun, rfl, by decide, fun h => h.waiting 1 (by decide) rfl,
    .cons (.waiting rfl rfl) (.cons (.returned rfl rfl) (.nil _)), rfl⟩

end MonkeyOS
