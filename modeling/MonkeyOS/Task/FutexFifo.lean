import MonkeyOS.Task.FutexRun

/-!
# MonkeyOS — futexes as FIFO queues

WAITs without a timeout and WAKEs, in any interleaving, with no signal pending for a waiter. A
poll only asks whether the thread's id is in some queue of the table (`in_futex`), so what a
waiter sees is settled by the queue of its own address, once its id is known to stand nowhere
else.

* `FutexTable.queue_push`, `futexWake_queue` — what a WAIT and a WAKE do to the queue of each
  address;
* `FutexTable.mem_ids_iff` — an id of the table is in the queue of an address, since the keys of
  the map are distinct (`FutexTable.Keyed`);
* `FifoStep.drains` — the step lemma: a queue grows at its end and shrinks at its front;
* `futex_fifo` — the runs.
-/

namespace MonkeyOS

open Lib

/-! ## The queue of an address -/

section Queue

variable {table table' : FutexTable} {uaddr a tid : Nat}

namespace FutexTable

/-- No entry is an empty queue. -/
def queue (table : FutexTable) (uaddr : Nat) : List Nat := (table.get uaddr).getD []

variable {f : List Nat → List Nat}

theorem get_modify_self (h : table.modify uaddr f = some table') :
    table'.get uaddr = (table.get uaddr).map f := by
  have hkeep : ∀ e : Nat × List Nat, (e.1 == uaddr) = true → ((e.1, f e.2).1 == uaddr) = true :=
    fun _ he => he
  unfold get
  rw [find?_updateFirst_self hkeep h, Option.map_map, Option.map_map]
  rfl

theorem get_modify_of_ne (hne : a ≠ uaddr)
    (h : table.modify uaddr f = some table') : table'.get a = table.get a := by
  unfold get
  rw [find?_updateFirst_of_ne _ h]
  intro e he
  have hkey : e.1 = uaddr := by simpa using he
  have hother : (e.1 == a) = false := by simpa [hkey] using Ne.symm hne
  exact ⟨hother, hother⟩

theorem get_insert_of_ne (hne : a ≠ uaddr) (table : FutexTable) (que : List Nat) :
    (table.insert uaddr que).get a = table.get a := by
  have hskip : ∀ rest : FutexTable, get ((uaddr, que) :: rest) a = rest.get a := by
    intro rest
    unfold get
    rw [List.find?_cons_of_neg (by simpa using Ne.symm hne)]
  -- the new entry stands in front, takes the place of its own key, or goes further on
  induction table with
  | nil => exact hskip []
  | cons e table ih =>
    unfold insert
    split
    · exact hskip _
    split
    · rename_i heq
      rw [hskip]
      unfold get
      rw [List.find?_cons_of_neg (by simpa [← heq] using Ne.symm hne)]
    · unfold get at ih ⊢
      rw [List.find?_cons, List.find?_cons]
      cases e.1 == a with
      | true => rfl
      | false => exact ih

/-- A WAIT goes to the end of the queue of its address. -/
theorem queue_push (table : FutexTable) (uaddr tid a : Nat) :
    (table.push uaddr tid).queue a = table.queue a ++ if a = uaddr then [tid] else [] := by
  unfold push queue
  cases hmodify : table.modify uaddr (· ++ [tid]) with
  | none =>
    have hnone := modify_eq_none hmodify
    by_cases ha : a = uaddr
    · rw [if_pos ha, ha, Option.getD_none, get_insert hnone, hnone]
      rfl
    · rw [if_neg ha, Option.getD_none, get_insert_of_ne ha, List.append_nil]
  | some table' =>
    by_cases ha : a = uaddr
    · obtain ⟨que, hque, -⟩ := modify_eq_some hmodify
      rw [if_pos ha, ha, Option.getD_some, get_modify_self hmodify, hque]
      rfl
    · rw [if_neg ha, Option.getD_some, get_modify_of_ne ha hmodify, List.append_nil]

/-- The keys of a map. -/
def Keyed (table : FutexTable) : Prop := (table.map Prod.fst).Nodup

theorem Keyed.modify (h : table.Keyed)
    (hmodify : table.modify uaddr f = some table') : table'.Keyed := by
  obtain ⟨pre, e, post, rfl, -, -, rfl⟩ := updateFirst_eq_some hmodify
  unfold Keyed at h ⊢
  rw [List.map_append, List.map_cons] at h ⊢
  exact h

theorem keys_insert (h : table.get uaddr = none) (que : List Nat) :
    ((table.insert uaddr que).map Prod.fst).Perm (uaddr :: table.map Prod.fst) := by
  induction table with
  | nil => exact List.Perm.refl _
  | cons e table ih =>
    obtain ⟨hne, hrest⟩ := get_cons_eq_none h
    unfold insert
    split
    · exact List.Perm.refl _
    · rw [if_neg (Ne.symm hne)]
      exact ((ih hrest).cons e.1).trans (List.Perm.swap _ _ _)

theorem Keyed.insert (h : table.Keyed) (hget : table.get uaddr = none) (que : List Nat) :
    (table.insert uaddr que).Keyed := by
  refine (keys_insert hget que).nodup_iff.mpr (List.nodup_cons.mpr ⟨fun hin => ?_, h⟩)
  obtain ⟨e, he, hkey⟩ := List.mem_map.mp hin
  unfold get at hget
  rw [Option.map_eq_none_iff, List.find?_eq_none] at hget
  exact hget e he (by simpa using hkey)

theorem Keyed.push (h : table.Keyed) (uaddr tid : Nat) : (table.push uaddr tid).Keyed := by
  unfold FutexTable.push
  cases hmodify : table.modify uaddr (· ++ [tid]) with
  | none => exact h.insert (modify_eq_none hmodify) [tid]
  | some table' => exact h.modify hmodify

theorem Keyed.get_of_mem (h : table.Keyed) {e : Nat × List Nat} (he : e ∈ table) :
    table.get e.1 = some e.2 := by
  induction table with
  | nil => cases he
  | cons b table ih =>
    obtain ⟨hnew, hrest⟩ := List.nodup_cons.mp h
    unfold get
    rcases List.mem_cons.mp he with heq | hin
    · rw [heq, List.find?_cons_of_pos (by simp)]
      rfl
    · have hne : b.1 ≠ e.1 := fun hkey => hnew (hkey ▸ List.mem_map_of_mem hin)
      rw [List.find?_cons_of_neg (by simpa using hne)]
      exact ih hrest hin

/-- A thread is in the table if it is in the queue of some address. -/
theorem Keyed.mem_ids_iff (h : table.Keyed) : tid ∈ table.ids ↔ ∃ a, tid ∈ table.queue a := by
  constructor
  · intro htid
    obtain ⟨e, he, hmem⟩ := List.mem_flatMap.mp htid
    refine ⟨e.1, ?_⟩
    unfold queue
    rw [h.get_of_mem he]
    exact hmem
  · intro ⟨a, htid⟩
    unfold queue FutexTable.get at htid
    cases hfind : table.find? (·.1 == a) with
    | none =>
      rw [hfind] at htid
      cases htid
    | some e =>
      rw [hfind] at htid
      exact List.mem_flatMap.mpr ⟨e, List.mem_of_find?_eq_some hfind, htid⟩

theorem drain_of_le {que : List Nat} {n : Nat} (hget : table.get uaddr = some que)
    (hle : n ≤ que.length) :
    ∃ table', table.modify uaddr (·.drop n) = some table'
      ∧ table.drain uaddr n = some (table', some (que.take n)) := by
  obtain ⟨table', hmodify⟩ := modify_ne_none (by rw [hget]; simp) (·.drop n)
  refine ⟨table', hmodify, ?_⟩
  unfold drain
  rw [hget]
  show (if n ≤ que.length then _ else _) = _
  rw [if_pos hle, hmodify]
  rfl

end FutexTable

/-- A WAKE takes from the front of the queue of its address, and returns how many. -/
theorem futexWake_queue (table : FutexTable) (uaddr wakeCount : Nat) :
    (futexWake table uaddr wakeCount).2 = min wakeCount (table.queue uaddr).length
      ∧ (∀ a, (futexWake table uaddr wakeCount).1.queue a
        = (table.queue a).drop (if a = uaddr then (futexWake table uaddr wakeCount).2 else 0))
      ∧ (table.Keyed → (futexWake table uaddr wakeCount).1.Keyed) := by
  -- with no entry or an empty queue the table is returned as it is
  have hsame : (∀ a, table.queue a = (table.queue a).drop (if a = uaddr then 0 else 0))
      ∧ (table.Keyed → table.Keyed) := by
    refine ⟨fun a => ?_, fun h => h⟩
    rw [ite_self, List.drop_zero]
  unfold futexWake
  cases hget : table.get uaddr with
  | none =>
    have hqueue : table.queue uaddr = [] := by rw [FutexTable.queue, hget]; rfl
    refine ⟨?_, hsame⟩
    rw [hqueue, List.length_nil, Nat.min_zero]
    rfl
  | some que =>
    have hqueue : table.queue uaddr = que := by rw [FutexTable.queue, hget]; rfl
    simp only [Option.map_some, Option.getD_some, hqueue]
    by_cases hsize : que.length = 0
    · rw [if_pos hsize, hsize, Nat.min_zero]
      exact ⟨rfl, hsame⟩
    obtain ⟨table', hmodify, hdrain⟩ :=
      FutexTable.drain_of_le hget (Nat.min_le_right wakeCount que.length)
    have hcount : (que.take (min wakeCount que.length)).length = min wakeCount que.length := by
      rw [List.length_take, Nat.min_assoc, Nat.min_self]
    rw [if_neg hsize, hdrain]
    refine ⟨hcount, fun a => ?_, fun h => h.modify hmodify⟩
    show table'.queue a
      = (table.queue a).drop (if a = uaddr then (que.take (min wakeCount que.length)).length else 0)
    by_cases ha : a = uaddr
    · rw [if_pos ha, hcount, ha, hqueue, FutexTable.queue,
        FutexTable.get_modify_self hmodify, hget]
      rfl
    · rw [if_neg ha, List.drop_zero, FutexTable.queue, FutexTable.get_modify_of_ne ha hmodify]
      rfl

end Queue

/-! ## Interleavings -/

/-- What a thread does, with what it gets. -/
inductive FifoEvent where
  /-- a WAIT that has enqueued its thread -/
  | waited (tid uaddr : Nat)
  /-- a WAKE that has woken `count` -/
  | woke (tid uaddr count : Nat)
  /-- a WAIT or a WAKE that fails -/
  | refused (tid : Nat) (errno : Errno)
  | pended (tid : Nat)
  | resumed (tid : Nat) (res : Except Errno Nat)

/-- A thread inside a WAIT makes no other call. A WAKE yields once more before it returns its
count; the table is changed before that. -/
inductive FifoStep : FutexSys → FifoEvent → FutexSys → Prop where
  | waited {s : FutexSys} {tid : Nat} {args : FutexArgs} {env : FutexEnv} {table : FutexTable}
      {deadline : Option Nat} (hidle : s.waits tid = none)
      (hop : FutexFlags.ofOp args.op = some .wait) (htimeout : args.value2 = 0)
      (h : sysFutex s.table tid args env = some (table, .waiting deadline)) :
      FifoStep s (.waited tid args.uaddr) ⟨table, Function.update s.waits tid (some deadline)⟩
  | woke {s : FutexSys} {tid : Nat} {args : FutexArgs} {env : FutexEnv} {table : FutexTable}
      {count : Nat} (hidle : s.waits tid = none) (hop : FutexFlags.ofOp args.op = some .wake)
      (h : sysFutex s.table tid args env = some (table, .returned (.ok count))) :
      FifoStep s (.woke tid args.uaddr count) ⟨table, s.waits⟩
  | refused {s : FutexSys} {tid : Nat} {args : FutexArgs} {env : FutexEnv} {table : FutexTable}
      {errno : Errno} (hidle : s.waits tid = none)
      (hop : FutexFlags.ofOp args.op = some .wait ∨ FutexFlags.ofOp args.op = some .wake)
      (h : sysFutex s.table tid args env = some (table, .returned (.error errno))) :
      FifoStep s (.refused tid errno) ⟨table, s.waits⟩
  | pended {s : FutexSys} {tid now : Nat} {table : FutexTable} {deadline : Option Nat}
      (hwait : s.waits tid = some deadline)
      (h : waitPoll s.table tid deadline false now = (table, none)) :
      FifoStep s (.pended tid) ⟨table, s.waits⟩
  | resumed {s : FutexSys} {tid now : Nat} {table : FutexTable} {deadline : Option Nat}
      {res : Except Errno Nat} (hwait : s.waits tid = some deadline)
      (h : waitPoll s.table tid deadline false now = (table, some res)) :
      FifoStep s (.resumed tid res) ⟨table, Function.update s.waits tid none⟩

namespace FifoEvent

/-- The thread it puts into the queue of an address. -/
def enqueues (uaddr : Nat) : FifoEvent → List Nat
  | .waited tid a => if uaddr = a then [tid] else []
  | _ => []

/-- The number of threads it takes out of the queue of an address. -/
def releases (uaddr : Nat) : FifoEvent → Nat
  | .woke _ a count => if uaddr = a then count else 0
  | _ => 0

end FifoEvent

/-- The threads enqueued at an address, in order. -/
def enqueued (uaddr : Nat) (evs : List FifoEvent) : List Nat :=
  evs.flatMap (FifoEvent.enqueues uaddr)

/-- The sum of the values the WAKEs on an address have returned. -/
def released (uaddr : Nat) (evs : List FifoEvent) : Nat :=
  (evs.map (FifoEvent.releases uaddr)).sum

section Step

variable {table table' : FutexTable} {tid : Nat} {args : FutexArgs} {env : FutexEnv}

theorem sysFutex_wait {deadline : Option Nat} (hop : FutexFlags.ofOp args.op = some .wait)
    (htimeout : args.value2 = 0)
    (h : sysFutex table tid args env = some (table', .waiting deadline)) :
    table' = table.push args.uaddr tid ∧ deadline = none := by
  unfold sysFutex at h
  split at h
  · cases h
  simp only [hop] at h
  split at h
  · cases h
    exact ⟨rfl, rfl⟩
  · cases h

theorem sysFutex_wake {count : Nat} (hop : FutexFlags.ofOp args.op = some .wake)
    (h : sysFutex table tid args env = some (table', .returned (.ok count))) :
    futexWake table args.uaddr args.value = (table', count) := by
  unfold sysFutex at h
  rw [hop] at h
  split at h
  · cases h
  · cases h
    rfl

theorem sysFutex_refused {errno : Errno}
    (hop : FutexFlags.ofOp args.op = some .wait ∨ FutexFlags.ofOp args.op = some .wake)
    (h : sysFutex table tid args env = some (table', .returned (.error errno))) :
    table' = table := by
  unfold sysFutex at h
  split at h
  · cases h
    rfl
  rcases hop with hop | hop
  · simp only [hop] at h
    split at h
    · cases h
    · cases h
      rfl
  · rw [hop] at h
    cases h

/-- Without a signal, a poll leaves the table as it is. -/
theorem waitPoll_quiet {deadline : Option Nat} {now : Nat} {res : Option (Except Errno Nat)}
    (h : waitPoll table tid deadline false now = (table', res)) : table' = table := by
  by_cases hin : tid ∈ table.ids
  · rw [waitPoll_of_mem hin] at h
    exact (Prod.mk.inj h).1.symm
  · rw [waitPoll_of_not_mem hin] at h
    exact (Prod.mk.inj h).1.symm

/-- With no timeout either, it is a look at the table. -/
theorem waitPoll_untimed (table : FutexTable) (tid now : Nat) :
    waitPoll table tid none false now
      = (table, if tid ∈ table.ids then none else some (.ok 0)) := by
  by_cases hin : tid ∈ table.ids
  · rw [waitPoll_of_mem hin, if_pos hin]
    rfl
  · rw [waitPoll_of_not_mem hin, if_neg hin]

end Step

namespace FifoStep

variable {s t : FutexSys} {ev : FifoEvent} {tid uaddr : Nat}

/-- What holds along every run: the table is a map, an id stands in it once and only while its
thread waits, and no WAIT has a timeout. -/
structure Inv (s : FutexSys) : Prop where
  keyed : s.table.Keyed
  queued : s.Queued
  untimed : ∀ tid deadline, s.waits tid = some deadline → deadline = none

theorem inv_init : Inv FutexSys.init :=
  ⟨List.nodup_nil, FutexSys.queued_init, fun _ _ h => nomatch h⟩

theorem untimed_leave (h : Inv s) (tid : Nat) :
    ∀ u deadline, Function.update s.waits tid none u = some deadline → deadline = none := by
  intro u deadline hu
  by_cases hut : u = tid
  · rw [hut, Function.update_self] at hu
    cases hu
  · rw [Function.update_of_ne hut] at hu
    exact h.untimed u deadline hu

theorem inv_step (h : Inv s) (hstep : FifoStep s ev t) : Inv t := by
  cases hstep with
  | @waited tid args env table deadline hidle hop htimeout hcall =>
    refine ⟨?_, h.queued.wait _ hidle (sysFutex_waiting hcall), fun u d hu => ?_⟩
    · obtain ⟨rfl, -⟩ := sysFutex_wait hop htimeout hcall
      exact h.keyed.push _ _
    by_cases hut : u = tid
    · rw [hut] at hu
      have hd : d = deadline := by simpa using hu.symm
      rw [hd]
      exact (sysFutex_wait hop htimeout hcall).2
    · have hold : s.waits u = some d := by simpa [hut] using hu
      exact h.untimed u d hold
  | @woke tid args env table count hidle hop hcall =>
    obtain ⟨woken, hperm⟩ := sysFutex_returned hcall
    refine ⟨?_, h.queued.shrink hperm, h.untimed⟩
    have hkeyed := (futexWake_queue s.table args.uaddr args.value).2.2 h.keyed
    rw [sysFutex_wake hop hcall] at hkeyed
    exact hkeyed
  | refused hidle hop hcall =>
    rw [sysFutex_refused hop hcall]
    exact h
  | pended hwait hpoll =>
    rw [waitPoll_pending hpoll]
    exact h
  | @resumed tid now table deadline res hwait hpoll =>
    obtain rfl := h.untimed tid deadline hwait
    obtain ⟨hout, hsub⟩ := waitPoll_ready h.queued.once (by simp) hpoll
    rw [waitPoll_quiet hpoll] at hout hsub ⊢
    exact ⟨h.keyed, h.queued.leave hout hsub, untimed_leave h tid⟩

/-- **The step lemma.** The queue of an address grows at its end by the thread that waits there,
and shrinks at its front by as many as the WAKE returns. -/
theorem drains (hstep : FifoStep s ev t) (uaddr : Nat) :
    ev.releases uaddr ≤ (s.table.queue uaddr ++ ev.enqueues uaddr).length
      ∧ t.table.queue uaddr
        = (s.table.queue uaddr ++ ev.enqueues uaddr).drop (ev.releases uaddr) := by
  -- all but a WAIT and a WAKE leave the table as it is
  have hsame : ∀ {table}, table = s.table → 0 ≤ (s.table.queue uaddr ++ []).length
      ∧ table.queue uaddr = (s.table.queue uaddr ++ []).drop 0 := by
    intro table htable
    rw [htable, List.append_nil]
    exact ⟨Nat.zero_le _, rfl⟩
  cases hstep with
  | @waited tid args env table deadline hidle hop htimeout hcall =>
    obtain ⟨rfl, -⟩ := sysFutex_wait hop htimeout hcall
    exact ⟨Nat.zero_le _, FutexTable.queue_push _ _ _ _⟩
  | @woke tid args env table count hidle hop hcall =>
    obtain ⟨hcount, hqueue, -⟩ := futexWake_queue s.table args.uaddr args.value
    rw [sysFutex_wake hop hcall] at hcount hqueue
    show (if uaddr = args.uaddr then count else 0) ≤ (s.table.queue uaddr ++ []).length
      ∧ table.queue uaddr
        = (s.table.queue uaddr ++ []).drop (if uaddr = args.uaddr then count else 0)
    rw [List.append_nil]
    refine ⟨?_, hqueue uaddr⟩
    by_cases ha : uaddr = args.uaddr
    · rw [if_pos ha, ha]
      exact hcount.le.trans (Nat.min_le_right _ _)
    · rw [if_neg ha]
      exact Nat.zero_le _
  | refused hidle hop hcall => exact hsame (sysFutex_refused hop hcall)
  | pended hwait hpoll => exact hsame (waitPoll_quiet hpoll)
  | resumed hwait hpoll => exact hsame (waitPoll_quiet hpoll)

/-- A thread in a WAIT enqueues again only after it has resumed. -/
theorem stays {evs : List FifoEvent} (hrun : Run FifoStep s evs t)
    (hwait : s.waits tid ≠ none) (hresume : ∀ res, .resumed tid res ∉ evs) :
    ∀ uaddr, .waited tid uaddr ∉ evs := by
  induction hrun with
  | nil s =>
    intro uaddr hin
    cases hin
  | @cons s u t ev evs hstep hrest ih =>
    have hlater : ∀ res, .resumed tid res ∉ evs :=
      fun res hin => hresume res (List.mem_cons_of_mem _ hin)
    -- a WAIT needs an idle thread, and only a poll that is ready makes it idle
    have hnow : u.waits tid ≠ none ∧ ∀ uaddr, ev ≠ .waited tid uaddr := by
      cases hstep with
      | @waited tid' args env table deadline hidle hop htimeout hcall =>
        have hne : tid ≠ tid' := fun heq => hwait (heq ▸ hidle)
        refine ⟨?_, fun uaddr heq => hne (FifoEvent.waited.inj heq).1.symm⟩
        show Function.update s.waits tid' (some deadline) tid ≠ none
        rw [Function.update_of_ne hne]
        exact hwait
      | @resumed tid' now table deadline res hwait' hpoll =>
        have hne : tid ≠ tid' := fun heq => hresume res (heq ▸ List.mem_cons_self)
        refine ⟨?_, fun uaddr heq => nomatch heq⟩
        show Function.update s.waits tid' none tid ≠ none
        rw [Function.update_of_ne hne]
        exact hwait
      | woke hidle hop hcall => exact ⟨hwait, fun uaddr heq => nomatch heq⟩
      | refused hidle hop hcall => exact ⟨hwait, fun uaddr heq => nomatch heq⟩
      | pended hwait' hpoll => exact ⟨hwait, fun uaddr heq => nomatch heq⟩
    intro uaddr hin
    rcases List.mem_cons.mp hin with heq | hin
    · exact hnow.2 uaddr heq.symm
    · exact ih hnow.1 hlater uaddr hin

end FifoStep

variable {tid uaddr : Nat} {s t : FutexSys} {evs : List FifoEvent}

theorem mem_enqueued (h : tid ∈ enqueued uaddr evs) :
    .waited tid uaddr ∈ evs := by
  obtain ⟨ev, hev, hmem⟩ := List.mem_flatMap.mp h
  cases ev with
  | waited tid' a =>
    have hmem : tid ∈ if uaddr = a then [tid'] else [] := hmem
    by_cases ha : uaddr = a
    · rw [if_pos ha, List.mem_singleton] at hmem
      rw [hmem, ha]
      exact hev
    · rw [if_neg ha] at hmem
      cases hmem
  | woke tid' a count => cases hmem
  | refused tid' errno => cases hmem
  | pended tid' => cases hmem
  | resumed tid' res => cases hmem

/-- The queue of an address along a run from any state. -/
theorem fifo_queue (hrun : Run FifoStep s evs t) (uaddr : Nat) :
    released uaddr evs ≤ (s.table.queue uaddr ++ enqueued uaddr evs).length
      ∧ t.table.queue uaddr
        = (s.table.queue uaddr ++ enqueued uaddr evs).drop (released uaddr evs) :=
  hrun.drains (·.table.queue uaddr) (fun _ _ _ hstep => hstep.drains uaddr)

/-- A thread that has enqueued behind `ahead` others and has not resumed is in the table until
more than `ahead` have been released at its address. -/
theorem fifo_mem_ids {u : FutexSys} (hs : FifoStep.Inv s) (hwait : FifoStep s (.waited tid uaddr) t)
    (hrun : Run FifoStep t evs u) (hresume : ∀ res, .resumed tid res ∉ evs) :
    tid ∈ u.table.ids ↔ released uaddr evs < (s.table.queue uaddr).length + 1 := by
  have ht := FifoStep.inv_step hs hwait
  have hu : FifoStep.Inv u := hrun.invariant (fun _ _ _ h hstep => FifoStep.inv_step h hstep) ht
  obtain ⟨hidle, hinside⟩ : s.waits tid = none ∧ t.waits tid ≠ none := by
    cases hwait with
    | waited hidle hop htimeout hcall => exact ⟨hidle, by simp⟩
  -- its WAIT is the only place where the thread comes into a queue
  have hnew : ∀ a, tid ∉ s.table.queue a := fun a hin =>
    hs.queued.waiting tid (hs.keyed.mem_ids_iff.mpr ⟨a, hin⟩) hidle
  have hlater : ∀ a, tid ∉ enqueued a evs := fun a hin =>
    FifoStep.stays hrun hinside hresume a (mem_enqueued hin)
  have hstart : ∀ a, t.table.queue a = s.table.queue a ++ if a = uaddr then [tid] else [] :=
    fun a => (hwait.drains a).2
  rw [hu.keyed.mem_ids_iff]
  constructor
  · intro ⟨a, hin⟩
    rw [(fifo_queue hrun a).2, hstart] at hin
    by_cases ha : a = uaddr
    · -- behind its place there is no other entry of the thread
      rw [if_pos ha, ha] at hin
      by_contra hlt
      have hpast : (s.table.queue uaddr ++ [tid]).length ≤ released uaddr evs := by
        rw [List.length_append, List.length_singleton]
        exact Nat.le_of_not_lt hlt
      rw [List.drop_append, List.drop_of_length_le hpast, List.nil_append] at hin
      exact hlater uaddr (List.mem_of_mem_drop hin)
    · rw [if_neg ha, List.append_nil] at hin
      rcases List.mem_append.mp (List.mem_of_mem_drop hin) with hin | hin
      · exact absurd hin (hnew a)
      · exact absurd hin (hlater a)
  · intro hlt
    refine ⟨uaddr, ?_⟩
    rw [(fifo_queue hrun uaddr).2, hstart, if_pos rfl, List.append_assoc,
      List.drop_append_of_le_length (Nat.le_of_lt_succ hlt)]
    simp

/-- In every interleaving, the threads waiting at an address are those enqueued there without the
first ones, as many as its WAKEs have returned; and a thread in a WAIT is `Pending` exactly while
fewer have been released there, since it enqueued, than its position. -/
theorem futex_fifo {evs : List FifoEvent} {s : FutexSys}
    (hrun : Run FifoStep FutexSys.init evs s) :
    (∀ uaddr, s.table.queue uaddr = (enqueued uaddr evs).drop (released uaddr evs)
        ∧ (s.table.queue uaddr).length + released uaddr evs = (enqueued uaddr evs).length)
      ∧ ∀ before tid uaddr after, evs = before ++ .waited tid uaddr :: after →
        (∀ res, .resumed tid res ∉ after) → ∀ now,
          let position := (enqueued uaddr before).length - released uaddr before + 1
          waitPoll s.table tid none false now
            = (s.table, if released uaddr after < position then none else some (.ok 0)) := by
  constructor
  · intro uaddr
    obtain ⟨hle, hqueue⟩ := fifo_queue hrun uaddr
    have hle : released uaddr evs ≤ (enqueued uaddr evs).length := hle
    have hqueue : s.table.queue uaddr = (enqueued uaddr evs).drop (released uaddr evs) := hqueue
    refine ⟨hqueue, ?_⟩
    rw [hqueue, List.length_drop]
    exact Nat.sub_add_cancel hle
  · intro before tid uaddr after hevs hresume now position
    rw [hevs] at hrun
    obtain ⟨s₁, hbefore, hrest⟩ := hrun.split
    cases hrest with
    | @cons _ s₂ _ _ _ hwait hafter =>
      have hs₁ : FifoStep.Inv s₁ :=
        hbefore.invariant (fun _ _ _ h hstep => FifoStep.inv_step h hstep) FifoStep.inv_init
      -- the run is cut at the WAIT: what its first part left in the queue is ahead
      have hposition : (s₁.table.queue uaddr).length + 1 = position := by
        rw [(fifo_queue hbefore uaddr).2, List.length_drop]
        rfl
      have hmem := fifo_mem_ids hs₁ hwait hafter hresume
      rw [hposition] at hmem
      rw [waitPoll_untimed]
      simp only [hmem]

/-- Threads 1 and 2 wait at one address, thread 3 wakes one: 1 resumes, 2 is still pending. -/
theorem futex_fifo_first_resumes :
    ∃ s : FutexSys, Run FifoStep FutexSys.init
        [.waited 1 0x1000, .waited 2 0x1000, .woke 3 0x1000 1, .resumed 1 (.ok 0)] s
      ∧ s.table.queue 0x1000 = [2]
      ∧ waitPoll s.table 2 none false 0 = (s.table, none) := by
  have hrun : Run FifoStep FutexSys.init
      [.waited 1 0x1000, .waited 2 0x1000, .woke 3 0x1000 1, .resumed 1 (.ok 0)] _ :=
    .cons (@FifoStep.waited _ 1 ⟨0x1000, 0, 0, 0, 0⟩ ⟨0, 0, 0⟩ _ _ rfl rfl rfl rfl)
      (.cons (@FifoStep.waited _ 2 ⟨0x1000, 0, 0, 0, 0⟩ ⟨0, 0, 0⟩ _ _ rfl rfl rfl rfl)
        (.cons (@FifoStep.woke _ 3 ⟨0x1000, 1, 1, 0, 0⟩ ⟨0, 0, 0⟩ _ _ rfl rfl rfl)
          (.cons (@FifoStep.resumed _ 1 0 _ _ _ rfl rfl) (.nil _))))
  obtain ⟨hqueues, hpolls⟩ := futex_fifo hrun
  refine ⟨_, hrun, (hqueues 0x1000).1, ?_⟩
  exact hpolls [.waited 1 0x1000] 2 0x1000 [.woke 3 0x1000 1, .resumed 1 (.ok 0)] rfl
    (by simp) 0

end MonkeyOS
