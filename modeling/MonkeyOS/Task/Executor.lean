import MonkeyOS.Lib.First
import MonkeyOS.Lib.Run
import Mathlib.Data.List.Count
import Mathlib.Data.List.Nodup

/-!
# MonkeyOS — the executor (`crates/executor/src/executor.rs`, `thread.rs`)

The tasks stand in one queue. `run_ready_task` takes the front item out and polls its future;
while the poll goes on, the item is in no queue, and whatever the future spawns is pushed at the
back. A future that stays pending is pushed at the back after that, a future that is ready is
dropped.

* `ExecStep.queue_flow` — the queue as a first-in first-out channel of tasks;
* `ExecStep.held_perm` — no step loses a task, or holds it twice;
* `Executor.round` — from one poll of a task to its next, the channel brings out what stood behind
  it;
* `executor_round_robin` — the last two over whole runs.

The wakers do nothing, so a pending task is polled again whether or not it can go on.
-/

namespace MonkeyOS

open Lib

abbrev TaskId := Nat

structure AsyncTaskItem (F : Type) where
  future : F
  task : TaskId

/-- The state of the executor on one hart. -/
structure Executor (F : Type) where
  /-- the keys of `TASK_MAP` -/
  taskMap : List TaskId
  taskQueue : List (AsyncTaskItem F)
  /-- `cores[hart_id()]`; it stays after the poll -/
  core : Option TaskId
  /-- the item that `run_ready_task` has taken out and polls -/
  polling : Option (AsyncTaskItem F)

inductive ExecEvent (F : Type) where
  /-- `thread::spawn` and `spawn_blank`, by the future that is polled or from outside -/
  | spawn (item : AsyncTaskItem F)
  /-- `run_ready_task` takes an item of this task and starts to poll it -/
  | poll (task : TaskId)
  /-- `run_ready_task` finds the queue empty -/
  | idle
  /-- the poll answers `Poll::Ready` -/
  | ready (task : TaskId)
  /-- the poll answers `Poll::Pending`, with the future as it is now -/
  | pending (task : TaskId) (future : F)

namespace Executor

variable {F : Type}

def new : Executor F := ⟨[], [], none, none⟩

def spawn (s : Executor F) (item : AsyncTaskItem F) : Executor F :=
  { s with
    taskMap := s.taskMap.insert item.task
    taskQueue := s.taskQueue ++ [item] }

/-- `run_ready_task` up to the poll. -/
def popFront (s : Executor F) : Option (AsyncTaskItem F × Executor F) :=
  match s.taskQueue with
  | [] => none
  | item :: taskQueue =>
    some (item, { s with taskQueue := taskQueue, core := some item.task, polling := some item })

/-- `run_ready_task` after the poll; `future` is there when the answer is `Poll::Pending`. -/
def finishPoll (s : Executor F) (item : AsyncTaskItem F) (future : Option F) : Executor F :=
  match future with
  | none => { s with polling := none }
  | some future =>
    { s with polling := none, taskQueue := s.taskQueue ++ [{ item with future := future }] }

/-- The tasks in the queue, in order. -/
def queue (s : Executor F) : List TaskId := s.taskQueue.map (·.task)

/-- The task that is polled, if there is one. -/
def polled (s : Executor F) : List TaskId := (s.polling.map (·.task)).toList

end Executor

/-- One step of the executor. A hart polls one future at a time. -/
inductive ExecStep {F : Type} : Executor F → ExecEvent F → Executor F → Prop where
  | spawn (s : Executor F) (item : AsyncTaskItem F) : ExecStep s (.spawn item) (s.spawn item)
  | poll {s t : Executor F} (item : AsyncTaskItem F) (hpolling : s.polling = none)
      (h : s.popFront = some (item, t)) : ExecStep s (.poll item.task) t
  | idle {s : Executor F} (hpolling : s.polling = none) (h : s.popFront = none) :
      ExecStep s .idle s
  | ready {s : Executor F} (item : AsyncTaskItem F) (hpolling : s.polling = some item) :
      ExecStep s (.ready item.task) (s.finishPoll item none)
  | pending {s : Executor F} (item : AsyncTaskItem F) (hpolling : s.polling = some item)
      (future : F) : ExecStep s (.pending item.task future) (s.finishPoll item (some future))

namespace ExecEvent

variable {F : Type}

def spawned : ExecEvent F → List TaskId
  | spawn item => [item.task]
  | _ => []

def polls : ExecEvent F → List TaskId
  | poll task => [task]
  | _ => []

def finished : ExecEvent F → List TaskId
  | ready task => [task]
  | _ => []

/-- What the event pushes at the back of the queue. -/
def pushed : ExecEvent F → List TaskId
  | spawn item => [item.task]
  | pending task _ => [task]
  | _ => []

end ExecEvent

/-! ## What a step does to the queue -/

section Step

variable {F : Type} {s t : Executor F} {ev : ExecEvent F}

theorem Executor.queue_spawn (s : Executor F) (item : AsyncTaskItem F) :
    (s.spawn item).queue = s.queue ++ [item.task] := by
  show (s.taskQueue ++ [item]).map _ = _
  rw [List.map_append]
  rfl

theorem Executor.queue_finishPoll (s : Executor F) (item : AsyncTaskItem F) (future : Option F) :
    (s.finishPoll item future).queue
      = s.queue ++ (if future.isSome then [item.task] else []) := by
  cases future with
  | none => exact (List.append_nil _).symm
  | some future =>
    show (s.taskQueue ++ [{ item with future := future }]).map _ = _
    rw [List.map_append]
    rfl

variable {item : AsyncTaskItem F}

theorem Executor.popFront_eq_some (h : s.popFront = some (item, t)) :
    s.queue = item.task :: t.queue ∧ t.polling = some item := by
  unfold popFront at h
  cases hqueue : s.taskQueue with
  | nil =>
    rw [hqueue] at h
    cases h
  | cons first rest =>
    rw [hqueue] at h
    cases h
    refine ⟨?_, rfl⟩
    unfold queue
    rw [hqueue]
    rfl

/-- **The queue is a channel.** A step takes the polled task off its front and adds what it pushes
at its back. -/
theorem ExecStep.queue_flow (h : ExecStep s ev t) : s.queue ++ ev.pushed = ev.polls ++ t.queue := by
  cases h with
  | spawn item => exact (s.queue_spawn item).symm
  | poll _ _ hpop =>
    rw [(Executor.popFront_eq_some hpop).1]
    exact List.append_nil _
  | idle _ _ => exact List.append_nil _
  | ready item _ => exact (s.queue_finishPoll item none).symm
  | pending item _ future => exact (s.queue_finishPoll item (some future)).symm

theorem Executor.polled_of_some (h : s.polling = some item) :
    s.polled = [item.task] := by
  unfold polled
  rw [h]
  rfl

theorem Executor.polled_of_none (h : s.polling = none) : s.polled = [] := by
  unfold polled
  rw [h]
  rfl

/-- **Nothing is lost.** A step leaves every task held, in the queue or in the poll, but for what
it spawns and what it finishes. -/
theorem ExecStep.held_perm (h : ExecStep s ev t) :
    (s.queue ++ s.polled ++ ev.spawned).Perm (ev.finished ++ (t.queue ++ t.polled)) := by
  cases h with
  | spawn item =>
    -- the new task goes between the queue and the task in the poll
    show (s.queue ++ s.polled ++ [item.task]).Perm ((s.spawn item).queue ++ s.polled)
    rw [s.queue_spawn item, List.append_assoc, List.append_assoc]
    exact List.perm_append_comm.append_left _
  | poll item hpolling hpop =>
    obtain ⟨hqueue, hpolled⟩ := Executor.popFront_eq_some hpop
    rw [hqueue, Executor.polled_of_none hpolling, Executor.polled_of_some hpolled]
    show (item.task :: t.queue ++ [] ++ []).Perm (t.queue ++ [item.task])
    rw [List.append_nil, List.append_nil]
    exact (List.perm_append_singleton _ _).symm
  | idle _ _ =>
    show (s.queue ++ s.polled ++ []).Perm (s.queue ++ s.polled)
    rw [List.append_nil]
  | ready item hpolling =>
    rw [s.queue_finishPoll item none, Executor.polled_of_some hpolling]
    show (s.queue ++ [item.task] ++ []).Perm (item.task :: (s.queue ++ [] ++ []))
    rw [List.append_nil, List.append_nil, List.append_nil]
    exact List.perm_append_singleton _ _
  | pending item hpolling future =>
    rw [s.queue_finishPoll item (some future), Executor.polled_of_some hpolling]
    exact .refl _

/-- While an item is polled, the executor takes no other: the next step spawns, or it ends the
poll. -/
theorem ExecStep.during_poll (h : ExecStep s ev t) (hpolling : s.polling = some item) :
    (ev.spawned = ev.pushed ∧ ev.polls = [] ∧ t.polling = some item)
      ∨ ev = .ready item.task ∨ ∃ future, ev = .pending item.task future := by
  cases h with
  | spawn _ => exact .inl ⟨rfl, rfl, hpolling⟩
  | poll _ hnone _ => cases hpolling.symm.trans hnone
  | idle hnone _ => cases hpolling.symm.trans hnone
  | ready _ hsome =>
    cases hpolling.symm.trans hsome
    exact .inr (.inl rfl)
  | pending _ hsome future =>
    cases hpolling.symm.trans hsome
    exact .inr (.inr ⟨future, rfl⟩)

end Step

/-! ## Runs -/

section Runs

variable {F : Type} {s t : Executor F} {evs mid : List (ExecEvent F)}

/-- The tasks spawned are the ones that finished and the ones that are held. -/
theorem Executor.spawned_perm (h : Run ExecStep .new evs s) :
    (evs.flatMap ExecEvent.spawned).Perm
      (evs.flatMap ExecEvent.finished ++ (s.queue ++ s.polled)) := by
  have hperm := h.conserves (fun s => s.queue ++ s.polled) (fun _ _ _ => ExecStep.held_perm)
  exact hperm

theorem Executor.held_nodup (h : Run ExecStep .new evs s)
    (hnew : (evs.flatMap ExecEvent.spawned).Nodup) : (s.queue ++ s.polled).Nodup :=
  ((spawned_perm h).nodup_iff.mp hnew).of_append_right

theorem Executor.mem_held_iff (h : Run ExecStep .new evs s)
    (hnew : (evs.flatMap ExecEvent.spawned).Nodup) (task : TaskId) :
    task ∈ s.queue ++ s.polled
      ↔ task ∈ evs.flatMap ExecEvent.spawned ∧ task ∉ evs.flatMap ExecEvent.finished := by
  have hperm := spawned_perm h
  have hdisj := List.disjoint_of_nodup_append (hperm.nodup_iff.mp hnew)
  rw [hperm.mem_iff, List.mem_append (s := evs.flatMap ExecEvent.finished)]
  constructor
  · intro hheld
    exact ⟨.inr hheld, fun hfin => hdisj hfin hheld⟩
  · intro h
    exact h.1.resolve_left h.2

/-- A run that starts in a poll and is out of it at the end: first the spawns of the polled
future, then the end of the poll, then the rest. -/
theorem Executor.poll_ends {item : AsyncTaskItem F} (h : Run ExecStep s mid t)
    (hpolling : s.polling = some item) (hend : t.polling = none) :
    ∃ spawns ev rest u v, mid = spawns ++ ev :: rest
      ∧ Run ExecStep s spawns u ∧ ExecStep u ev v ∧ Run ExecStep v rest t
      ∧ u.polling = some item ∧ u.queue = s.queue ++ spawns.flatMap ExecEvent.spawned
      ∧ spawns.flatMap ExecEvent.polls = []
      ∧ (ev = .ready item.task ∨ ∃ future, ev = .pending item.task future) := by
  induction h with
  | nil s => cases hpolling.symm.trans hend
  | @cons s u t ev evs hstep hrest ih =>
    rcases hstep.during_poll hpolling with ⟨hspawned, hpolls, hstill⟩ | hover
    · obtain ⟨spawns, last, rest, v, w, hmid, hrun, hlast, hafter, hv, hqueue, hpoll, hev⟩ :=
        ih hstill hend
      have hflow := hstep.queue_flow
      rw [hpolls, ← hspawned, List.nil_append] at hflow
      refine ⟨ev :: spawns, last, rest, v, w, by rw [hmid]; rfl, .cons hstep hrun, hlast, hafter,
        hv, ?_, ?_, hev⟩
      · rw [hqueue, ← hflow, List.flatMap_cons, List.append_assoc]
      · rw [List.flatMap_cons, hpolls, hpoll]
        rfl
    · exact ⟨[], ev, evs, s, u, rfl, .nil s, hstep, hrest, hpolling, (List.append_nil _).symm, rfl,
        hover⟩

variable {task : TaskId}

theorem ExecEvent.mem_polls :
    task ∈ evs.flatMap ExecEvent.polls ↔ ExecEvent.poll task ∈ evs := by
  rw [List.mem_flatMap]
  constructor
  · rintro ⟨ev, hev, hmem⟩
    cases ev with
    | poll other =>
      cases List.mem_singleton.mp hmem
      exact hev
    | _ => cases hmem
  · intro h
    exact ⟨_, h, List.mem_singleton_self task⟩

/-- A poll starts with no other going on, and the task it takes was at the front. -/
theorem ExecStep.of_poll (h : ExecStep s (.poll task) t) :
    s.polling = none ∧ s.queue = task :: t.queue
      ∧ ∃ item, item.task = task ∧ t.polling = some item := by
  cases h with
  | poll item hpolling hpop =>
    obtain ⟨hqueue, hpolled⟩ := Executor.popFront_eq_some hpop
    exact ⟨hpolling, hqueue, item, rfl, hpolled⟩

/-- **One round.** From one poll of a task to the next, the tasks that stood behind it are polled,
then those that its own poll spawned, and no others. -/
theorem Executor.round (h : Run ExecStep .new evs s)
    (hmid : Run ExecStep s (.poll task :: (mid ++ [.poll task])) t)
    (honce : ExecEvent.poll task ∉ mid) (hnew : ((evs ++ mid).flatMap ExecEvent.spawned).Nodup) :
    ∃ others later, s.queue = task :: others
      ∧ mid.flatMap ExecEvent.polls = others ++ later ∧ (others ++ later).Nodup
      ∧ ∀ u ∈ later, u ∈ mid.flatMap ExecEvent.spawned := by
  cases hmid with
  | @cons _ s₁ _ _ _ hfirst hrest =>
    obtain ⟨-, hqueue, item, rfl, hpolling⟩ := hfirst.of_poll
    obtain ⟨s₂, hrun, hlast⟩ := hrest.split
    cases hlast with
    | cons hsecond _ =>
      obtain ⟨hidle, hback, -⟩ := hsecond.of_poll
      obtain ⟨spawns, ev, rest, u, v, rfl, hspawns, hev, hround, hu, huqueue, hpolls, hover⟩ :=
        poll_ends hrun hpolling hidle
      have hbefore : Run ExecStep .new (evs ++ .poll item.task :: spawns) u :=
        h.append (.cons hfirst hspawns)
      have hnodup : (u.queue ++ [item.task]).Nodup := by
        rw [← polled_of_some hu]
        refine held_nodup hbefore (hnew.sublist ?_)
        simp [ExecEvent.spawned]
      rcases hover with rfl | ⟨future, rfl⟩
      · -- a finished task is not held any more, so it is not polled again
        have hafter : Run ExecStep .new (evs ++ .poll item.task :: _) s₂ :=
          h.append (.cons hfirst hrun)
        have hheld : item.task ∈ s₂.queue ++ s₂.polled := by simp [hback]
        have hlive := (mem_held_iff hafter (by simpa [ExecEvent.spawned] using hnew) _).mp hheld
        exact absurd (by simp [ExecEvent.finished]) hlive.2
      · -- the channel from the end of the poll on: what stood in front of the task comes out first
        have hv : u.queue ++ [item.task] = v.queue := hev.queue_flow
        have hflow := hround.flow Executor.queue (fun _ _ _ => ExecStep.queue_flow)
        rw [← hv, hback, List.append_assoc, List.singleton_append] at hflow
        have hround : u.queue = rest.flatMap ExecEvent.polls := by
          refine append_cons_left_unique ?_ ?_ hflow
          · exact fun hmem => List.disjoint_of_nodup_append hnodup hmem (List.mem_singleton_self _)
          intro hmem
          refine honce (List.mem_append_right _ (List.mem_cons_of_mem _ ?_))
          exact ExecEvent.mem_polls.mp hmem
        refine ⟨s₁.queue, spawns.flatMap ExecEvent.spawned, hqueue, ?_, ?_, ?_⟩
        · rw [← huqueue, hround, List.flatMap_append, hpolls]
          rfl
        · rw [← huqueue]
          exact hnodup.of_append_left
        · intro w hw
          rw [List.flatMap_append]
          exact List.mem_append_left _ hw

/-- **Fair round robin.** After any run in which every spawned task is new, the tasks that were
spawned and have not finished stand once each in the queue, but for the one that is polled. From
one poll of a task to its next, the polls are those of the other tasks in the queue, once each and
in their order, and then of tasks that were spawned in between. -/
theorem executor_round_robin (h : Run ExecStep .new evs s)
    (hnew : (evs.flatMap ExecEvent.spawned).Nodup) :
    (s.queue ++ s.polled).Nodup
    ∧ (∀ task, task ∈ s.queue ++ s.polled
        ↔ task ∈ evs.flatMap ExecEvent.spawned ∧ task ∉ evs.flatMap ExecEvent.finished)
    ∧ ∀ task mid t, Run ExecStep s (.poll task :: (mid ++ [.poll task])) t →
        ExecEvent.poll task ∉ mid → ((evs ++ mid).flatMap ExecEvent.spawned).Nodup →
        ∃ others later, s.queue = task :: others
          ∧ mid.flatMap ExecEvent.polls = others ++ later ∧ (others ++ later).Nodup
          ∧ ∀ u ∈ later, u ∈ mid.flatMap ExecEvent.spawned := by
  refine ⟨Executor.held_nodup h hnew, Executor.mem_held_iff h hnew, ?_⟩
  intro task mid t hmid honce hall
  exact Executor.round h hmid honce hall

/-- Two tasks, the first of which spawns a third in its poll: the second and the third are polled
before the first again. -/
theorem executor_round_robin_three :
    ∃ s t : Executor Unit,
      Run ExecStep .new [.spawn ⟨(), 1⟩, .spawn ⟨(), 2⟩] s
      ∧ Run ExecStep s [.poll 1, .spawn ⟨(), 3⟩, .pending 1 (), .poll 2, .ready 2, .poll 3,
          .pending 3 (), .poll 1] t
      ∧ (s.queue ++ s.polled).Nodup
      ∧ ∃ others later, s.queue = 1 :: others ∧ [2, 3] = others ++ later
          ∧ (others ++ later).Nodup ∧ ∀ u ∈ later, u ∈ [3] := by
  have hspawn : Run ExecStep (.new : Executor Unit) [.spawn ⟨(), 1⟩, .spawn ⟨(), 2⟩]
      ((Executor.new.spawn ⟨(), 1⟩).spawn ⟨(), 2⟩) :=
    .cons (.spawn _ _) (.cons (.spawn _ _) (.nil _))
  have hmid : Run ExecStep ((Executor.new.spawn ⟨(), 1⟩).spawn ⟨(), 2⟩) [.poll 1,
      .spawn ⟨(), 3⟩, .pending 1 (), .poll 2, .ready 2, .poll 3, .pending 3 (), .poll 1] _ :=
    .cons (.poll ⟨(), 1⟩ rfl rfl) (.cons (.spawn _ _) (.cons (.pending ⟨(), 1⟩ rfl ())
      (.cons (.poll ⟨(), 2⟩ rfl rfl) (.cons (.ready ⟨(), 2⟩ rfl) (.cons (.poll ⟨(), 3⟩ rfl rfl)
        (.cons (.pending ⟨(), 3⟩ rfl ()) (.cons (.poll ⟨(), 1⟩ rfl rfl) (.nil _))))))))
  have hfair := executor_round_robin hspawn (by decide)
  exact ⟨_, _, hspawn, hmid, hfair.1, hfair.2.2 1 [_, _, _, _, _, _] _ hmid (by simp) (by decide)⟩

end Runs

end MonkeyOS
