import MonkeyOS.Mem.MemSet
import MonkeyOS.Task.Futex

/-!
# MonkeyOS — the end of a process (`thread_exit`, `exit`, `check_thread_exit`, `WaitPid`)

A thread ends by `sys_exit` (`thread_exit`) or `sys_exit_group` (`exit`), or it leaves
`entry_point` without a call once `check_thread_exit` answers. The resources of the process are
released by the call that finds itself made by the main thread with no other thread in
`pcb.threads`; no other call, and no thread that just leaves, releases them.

So the order matters (`exit_reaped_iff`): they are released exactly if the main thread ends last,
by a call of its own.
-/

namespace MonkeyOS

open Lib

/-- The fields of the `ThreadControlBlock` that an exit reads and writes. -/
structure Tcb where
  clearChildTid : Nat
  exitSignal : Nat
  threadExitCode : Option Nat

/-- The fields of the `ProcessControlBlock` that an exit reads and writes; `threads` has the task
ids of the `Weak` references. -/
structure Pcb where
  memset : MemSet
  fdTable : List (Option Nat)
  children : List Nat
  futexTable : FutexTable
  threads : List Nat
  exitCode : Option Nat

/-- A process. -/
structure ExitSys where
  /-- the task id of the main thread -/
  processId : Nat
  /-- `PageTable::translate` finds the table with the entry of this address -/
  translate : Nat → Bool
  pcb : Pcb
  tcb : Nat → Tcb
  /-- the threads whose `entry_point` goes on -/
  running : List Nat
  /-- the signals added to the parent, by number -/
  parentSignals : List Nat
  /-- the user words that were set to 0 -/
  zeroed : List Nat

def sigchld : Nat := 17

namespace ExitSys

def checkThreadExit (s : ExitSys) (tid : Nat) : Option Nat :=
  s.pcb.exitCode.or (s.tcb tid).threadExitCode

/-- `weak_ref.upgrade().is_some()`: a running thread is held by the executor, the main thread
also by the children of its parent. -/
def alive (s : ExitSys) (tid : Nat) : Bool := s.running.contains tid || tid == s.processId

/-- The beginning of both exits: the word at `clear_child_tid`, and who waits for it. -/
def clearTid (s : ExitSys) (tid : Nat) : ExitSys :=
  let uaddr := (s.tcb tid).clearChildTid
  if uaddr ≠ 0 ∧ s.translate uaddr then
    { s with
      pcb.futexTable := (futexWake s.pcb.futexTable uaddr 1).1
      zeroed := s.zeroed ++ [uaddr] }
  else s

def retainThreads (s : ExitSys) (tid : Nat) : ExitSys :=
  { s with pcb.threads := s.pcb.threads.filter (fun u => s.alive u && u != tid) }

def exitSignalOf (s : ExitSys) (tid : Nat) : Nat :=
  if (s.tcb tid).exitSignal ≠ 0 then (s.tcb tid).exitSignal else sigchld

def cleanup (s : ExitSys) (tid exitCode : Nat) : ExitSys :=
  { s with
    pcb := { s.pcb with memset := ⟨[]⟩, fdTable := [], children := [], exitCode := some exitCode }
    parentSignals := s.parentSignals ++ [s.exitSignalOf tid] }

/-- The end of both exits. -/
def finish (s : ExitSys) (tid exitCode : Nat) : ExitSys :=
  let s := s.retainThreads tid
  if tid = s.processId ∧ s.pcb.threads = [] then s.cleanup tid exitCode else s

def threadExit (s : ExitSys) (tid exitCode : Nat) : ExitSys :=
  let s := s.clearTid tid
  let tcb := { s.tcb tid with threadExitCode := some (exitCode % 2 ^ 32) }
  finish { s with tcb := Function.update s.tcb tid tcb } tid exitCode

def exit (s : ExitSys) (tid exitCode : Nat) : ExitSys :=
  let s := s.clearTid tid
  finish { s with pcb.exitCode := some exitCode } tid exitCode

/-- `entry_point` of the thread breaks. -/
def stop (s : ExitSys) (tid : Nat) : ExitSys :=
  { s with running := s.running.filter (· != tid) }

end ExitSys

inductive ExitEvent where
  | sysExit (tid exitCode : Nat)
  | sysExitGroup (tid exitCode : Nat)
  /-- `check_thread_exit` answers, and the thread breaks without a call -/
  | left (tid : Nat)
  deriving DecidableEq

def ExitEvent.tid : ExitEvent → Nat
  | .sysExit tid _ => tid
  | .sysExitGroup tid _ => tid
  | .left tid => tid

/-- The event is a call, of this thread. -/
def ExitEvent.CalledBy (tid : Nat) : ExitEvent → Prop
  | .sysExit u _ => u = tid
  | .sysExitGroup u _ => u = tid
  | .left _ => False

/-- A thread for which `check_thread_exit` answers makes no call any more. -/
def ExitSys.step (s : ExitSys) : ExitEvent → Option ExitSys
  | .sysExit tid exitCode =>
    if tid ∈ s.running ∧ s.checkThreadExit tid = none then
      some ((s.threadExit tid exitCode).stop tid)
    else none
  | .sysExitGroup tid exitCode =>
    if tid ∈ s.running ∧ s.checkThreadExit tid = none then some ((s.exit tid exitCode).stop tid)
    else none
  | .left tid =>
    if tid ∈ s.running ∧ s.checkThreadExit tid ≠ none then some (s.stop tid) else none

structure Child where
  taskId : Nat
  exitCode : Option Nat

/-- `WaitPid::poll`; the process id is the machine word, so `-1` is `2 ^ 64 - 1`. -/
def waitPidPoll (children : List Child) (pid : Nat) : Option Child :=
  children.find? (fun x => (pid == 2 ^ 64 - 1 || x.taskId == pid) && x.exitCode.isSome)

/-! ## What a call does -/

namespace ExitSys

variable {s t : ExitSys} {tid exitCode : Nat}

/-- The main thread calls, and no other thread runs. -/
def Last (s : ExitSys) (tid : Nat) : Prop := tid = s.processId ∧ ∀ u ∈ s.running, u = tid

def Listed (s : ExitSys) : Prop := ∀ u ∈ s.running, u ∈ s.pcb.threads

/-- What the parent relies on once no thread runs any more. -/
structure Reaped (s : ExitSys) : Prop where
  exitCode : s.pcb.exitCode ≠ none
  memset : s.pcb.memset = ⟨[]⟩
  fdTable : s.pcb.fdTable = []
  signalled : s.parentSignals = [s.exitSignalOf s.processId]
  waited : ∀ (siblings : List Child) (pid : Nat), pid = 2 ^ 64 - 1 ∨ pid = s.processId →
    (waitPidPoll (siblings ++ [⟨s.processId, s.pcb.exitCode⟩]) pid).isSome

theorem clearTid_eq (s : ExitSys) (tid : Nat) :
    ∃ table zeroed, s.clearTid tid = { s with pcb.futexTable := table, zeroed := zeroed } := by
  by_cases h : (s.tcb tid).clearChildTid ≠ 0 ∧ s.translate (s.tcb tid).clearChildTid
  · exact ⟨_, _, if_pos h⟩
  · exact ⟨s.pcb.futexTable, s.zeroed, if_neg h⟩

/-- The threads that stay in the list are those that still run, for the main thread. -/
theorem retainThreads_eq_nil (hlisted : s.Listed) (htid : tid = s.processId) :
    (s.retainThreads tid).pcb.threads = [] ↔ ∀ u ∈ s.running, u = tid := by
  unfold retainThreads
  rw [List.filter_eq_nil_iff]
  constructor
  · intro h u hu
    by_contra hne
    exact h u (hlisted u hu) (by simp [alive, hu, hne])
  · intro h u _ hkeep
    simp only [alive, Bool.and_eq_true, Bool.or_eq_true, List.contains_iff_mem, beq_iff_eq,
      bne_iff_ne] at hkeep
    rcases hkeep.1 with hu | hu
    · exact hkeep.2 (h u hu)
    · exact hkeep.2 (hu.trans htid.symm)

theorem finish_of_last (hlisted : s.Listed) (h : s.Last tid) (exitCode : Nat) :
    s.finish tid exitCode = (s.retainThreads tid).cleanup tid exitCode :=
  if_pos ⟨h.1, (retainThreads_eq_nil hlisted h.1).mpr h.2⟩

theorem finish_of_not_last (hlisted : s.Listed) (h : ¬ s.Last tid) (exitCode : Nat) :
    s.finish tid exitCode = s.retainThreads tid :=
  if_neg (fun hc => h ⟨hc.1, (retainThreads_eq_nil hlisted hc.1).mp hc.2⟩)

/-- The threads that go on are still in the list. -/
theorem Listed.retain (hlisted : s.Listed) (tid : Nat) :
    ((s.retainThreads tid).stop tid).Listed := by
  intro u hu
  obtain ⟨hrun, hne⟩ := List.mem_filter.mp hu
  have halive : s.alive u = true := by
    unfold alive
    rw [Bool.or_eq_true]
    exact Or.inl (List.contains_iff_mem.mpr hrun)
  refine List.mem_filter.mpr ⟨hlisted u hrun, ?_⟩
  rw [halive]
  exact hne

theorem stop_running_eq_nil (h : ∀ u ∈ s.running, u = tid) : (s.stop tid).running = [] := by
  show s.running.filter (· != tid) = []
  rw [List.filter_eq_nil_iff]
  intro u hu
  simp [h u hu]

/-- The call of the main thread that ends last leaves nothing behind. -/
theorem reaped_cleanup (hsignals : s.parentSignals = []) (htid : tid = s.processId) :
    ((s.cleanup tid exitCode).stop tid).Reaped := by
  subst htid
  refine ⟨nofun, rfl, rfl, ?_, ?_⟩
  · show s.parentSignals ++ [s.exitSignalOf s.processId] = [s.exitSignalOf s.processId]
    rw [hsignals]
    rfl
  · intro siblings pid hpid
    unfold waitPidPoll
    rw [List.find?_isSome]
    refine ⟨⟨s.processId, some exitCode⟩, List.mem_append_cons_self, ?_⟩
    rcases hpid with rfl | rfl
    · simp
    · simp [stop, cleanup]

/-! ## The phases of a process -/

/-- Every thread that runs may still call. -/
structure Open (s : ExitSys) : Prop where
  listed : s.Listed
  exitCode : s.pcb.exitCode = none
  threadExitCode : ∀ u ∈ s.running, (s.tcb u).threadExitCode = none
  signals : s.parentSignals = []

/-- A process is open, or has ended well, or has an exit code and nobody left to release it. -/
inductive Phase (s : ExitSys) : Prop where
  | opened (h : s.Open)
  | reaped (h : s.Reaped) (hdone : s.running = [])
  | stuck (hcode : s.pcb.exitCode ≠ none) (hsignals : s.parentSignals = [])

theorem threadExit_phase (h : s.Open) (tid exitCode : Nat) :
    (s.Last tid → ((s.threadExit tid exitCode).stop tid).Reaped
        ∧ ((s.threadExit tid exitCode).stop tid).running = [])
      ∧ (¬ s.Last tid → ((s.threadExit tid exitCode).stop tid).Open) := by
  obtain ⟨table, zeroed, hclear⟩ := s.clearTid_eq tid
  unfold threadExit
  rw [hclear]
  constructor
  · intro hlast
    rw [finish_of_last (by exact h.listed) (by exact hlast)]
    exact ⟨reaped_cleanup h.signals hlast.1, stop_running_eq_nil hlast.2⟩
  · intro hlast
    rw [finish_of_not_last (by exact h.listed) (by exact hlast)]
    refine ⟨Listed.retain (by exact h.listed) tid, h.exitCode, ?_, h.signals⟩
    intro u hu
    obtain ⟨hrun, hne⟩ := List.mem_filter.mp hu
    -- the thread that called is the only one whose code changed
    show (Function.update s.tcb tid _ u).threadExitCode = none
    rw [Function.update_of_ne (by simpa using hne)]
    exact h.threadExitCode u hrun

theorem exit_phase (h : s.Open) (tid exitCode : Nat) :
    (s.Last tid → ((s.exit tid exitCode).stop tid).Reaped
        ∧ ((s.exit tid exitCode).stop tid).running = [])
      ∧ (¬ s.Last tid → ((s.exit tid exitCode).stop tid).pcb.exitCode ≠ none
        ∧ ((s.exit tid exitCode).stop tid).parentSignals = []) := by
  obtain ⟨table, zeroed, hclear⟩ := s.clearTid_eq tid
  unfold exit
  rw [hclear]
  constructor
  · intro hlast
    rw [finish_of_last (by exact h.listed) (by exact hlast)]
    exact ⟨reaped_cleanup h.signals hlast.1, stop_running_eq_nil hlast.2⟩
  · intro hlast
    rw [finish_of_not_last (by exact h.listed) (by exact hlast)]
    exact ⟨nofun, h.signals⟩

/-- What a step is, with its guard. -/
theorem step_cases {ev : ExitEvent} (h : s.step ev = some t) :
    ev.tid ∈ s.running
      ∧ ((∃ exitCode, ev = .sysExit ev.tid exitCode ∧ s.checkThreadExit ev.tid = none
          ∧ t = (s.threadExit ev.tid exitCode).stop ev.tid)
        ∨ (∃ exitCode, ev = .sysExitGroup ev.tid exitCode ∧ s.checkThreadExit ev.tid = none
          ∧ t = (s.exit ev.tid exitCode).stop ev.tid)
        ∨ ev = .left ev.tid ∧ s.checkThreadExit ev.tid ≠ none ∧ t = s.stop ev.tid) := by
  cases ev with
  | sysExit tid exitCode =>
    obtain ⟨⟨hrun, hcheck⟩, heq⟩ := Option.ite_none_right_eq_some.mp h
    exact ⟨hrun, Or.inl ⟨exitCode, rfl, hcheck, (Option.some.inj heq).symm⟩⟩
  | sysExitGroup tid exitCode =>
    obtain ⟨⟨hrun, hcheck⟩, heq⟩ := Option.ite_none_right_eq_some.mp h
    exact ⟨hrun, Or.inr (Or.inl ⟨exitCode, rfl, hcheck, (Option.some.inj heq).symm⟩)⟩
  | left tid =>
    obtain ⟨⟨hrun, hcheck⟩, heq⟩ := Option.ite_none_right_eq_some.mp h
    exact ⟨hrun, Or.inr (Or.inr ⟨rfl, hcheck, (Option.some.inj heq).symm⟩)⟩

theorem finish_processId (s : ExitSys) (tid exitCode : Nat) :
    (s.finish tid exitCode).processId = s.processId := by
  unfold finish
  simp only
  split <;> rfl

theorem finish_running (s : ExitSys) (tid exitCode : Nat) :
    (s.finish tid exitCode).running = s.running := by
  unfold finish
  simp only
  split <;> rfl

theorem step_frame {ev : ExitEvent} (h : s.step ev = some t) :
    t.processId = s.processId ∧ t.running = s.running.filter (· != ev.tid) := by
  obtain ⟨table, zeroed, hclear⟩ := s.clearTid_eq ev.tid
  rcases (step_cases h).2 with ⟨exitCode, -, -, rfl⟩ | ⟨exitCode, -, -, rfl⟩ | ⟨-, -, rfl⟩
  · unfold threadExit stop
    rw [hclear, finish_processId, finish_running]
    exact ⟨rfl, rfl⟩
  · unfold exit stop
    rw [hclear, finish_processId, finish_running]
    exact ⟨rfl, rfl⟩
  · exact ⟨rfl, rfl⟩

/-- While the process is open, nobody leaves without a call. -/
theorem Open.checkThreadExit (h : s.Open) (hrun : tid ∈ s.running) :
    s.checkThreadExit tid = none := by
  unfold ExitSys.checkThreadExit
  rw [h.exitCode, h.threadExitCode tid hrun]
  rfl

theorem checkThreadExit_ne_none (h : s.pcb.exitCode ≠ none) : s.checkThreadExit tid ≠ none := by
  unfold checkThreadExit
  rw [Ne, Option.or_eq_none_iff]
  exact fun hnone => h hnone.1

theorem not_reaped (h : s.parentSignals = []) : ¬ s.Reaped := by
  intro hreaped
  have hsignals := hreaped.signalled
  rw [h] at hsignals
  cases hsignals

/-- **The step lemma.** -/
theorem Phase.step (h : s.Phase) {ev : ExitEvent} (hstep : s.step ev = some t) : t.Phase := by
  obtain ⟨hrun, hcases⟩ := step_cases hstep
  cases h with
  | opened h =>
    rcases hcases with ⟨exitCode, -, -, rfl⟩ | ⟨exitCode, -, -, rfl⟩ | ⟨-, hcheck, -⟩
    · obtain ⟨hreaped, hopen⟩ := threadExit_phase h ev.tid exitCode
      by_cases hlast : s.Last ev.tid
      · exact .reaped (hreaped hlast).1 (hreaped hlast).2
      · exact .opened (hopen hlast)
    · obtain ⟨hreaped, hstuck⟩ := exit_phase h ev.tid exitCode
      by_cases hlast : s.Last ev.tid
      · exact .reaped (hreaped hlast).1 (hreaped hlast).2
      · exact .stuck (hstuck hlast).1 (hstuck hlast).2
    · exact absurd (h.checkThreadExit hrun) hcheck
  | reaped h hdone =>
    rw [hdone] at hrun
    cases hrun
  | stuck hcode hsignals =>
    rcases hcases with ⟨_, -, hcheck, -⟩ | ⟨_, -, hcheck, -⟩ | ⟨-, -, rfl⟩
    · exact absurd hcheck (checkThreadExit_ne_none hcode)
    · exact absurd hcheck (checkThreadExit_ne_none hcode)
    · exact .stuck hcode hsignals

/-- The step after which no thread runs decides. -/
theorem Phase.reaped_iff (h : s.Phase) {ev : ExitEvent} (hstep : s.step ev = some t)
    (hdone : t.running = []) : t.Reaped ↔ ev.CalledBy s.processId := by
  obtain ⟨hrun, hcases⟩ := step_cases hstep
  have hothers : ∀ u ∈ s.running, u = ev.tid := by
    intro u hu
    rw [(step_frame hstep).2, List.filter_eq_nil_iff] at hdone
    simpa using hdone u hu
  have hlast : s.Last ev.tid ↔ ev.tid = s.processId := ⟨fun h => h.1, fun h => ⟨h, hothers⟩⟩
  cases h with
  | opened h =>
    rcases hcases with ⟨exitCode, hev, -, rfl⟩ | ⟨exitCode, hev, -, rfl⟩ | ⟨-, hcheck, -⟩
    · obtain ⟨hreaped, hopen⟩ := threadExit_phase h ev.tid exitCode
      rw [show ev.CalledBy s.processId ↔ ev.tid = s.processId from by rw [hev]; rfl, ← hlast]
      refine ⟨fun hr => ?_, fun hl => (hreaped hl).1⟩
      by_contra hl
      exact not_reaped (hopen hl).signals hr
    · obtain ⟨hreaped, hstuck⟩ := exit_phase h ev.tid exitCode
      rw [show ev.CalledBy s.processId ↔ ev.tid = s.processId from by rw [hev]; rfl, ← hlast]
      refine ⟨fun hr => ?_, fun hl => (hreaped hl).1⟩
      by_contra hl
      exact not_reaped (hstuck hl).2 hr
    · exact absurd (h.checkThreadExit hrun) hcheck
  | reaped h hdone =>
    rw [hdone] at hrun
    cases hrun
  | stuck hcode hsignals =>
    rcases hcases with ⟨_, -, hcheck, -⟩ | ⟨_, -, hcheck, -⟩ | ⟨hev, -, rfl⟩
    · exact absurd hcheck (checkThreadExit_ne_none hcode)
    · exact absurd hcheck (checkThreadExit_ne_none hcode)
    · rw [hev]
      exact ⟨fun hr => not_reaped (by exact hsignals) hr, fun hf => nomatch hf⟩

/-! ## Runs -/

/-- **The end of a process.** Once no thread runs any more, the process is as its parent relies
on it exactly if the main thread ended last, by a call of its own. -/
theorem exit_reaped_iff {evs : List ExitEvent} (hopen : s.Open) (hmain : s.processId ∈ s.running)
    (hrun : Run (fun s ev t => s.step ev = some t) s evs t) (hdone : t.running = []) :
    t.Reaped ↔ ∃ ev, evs.getLast? = some ev ∧ ev.CalledBy s.processId := by
  have hne : evs ≠ [] := by
    rintro rfl
    cases hrun
    rw [hdone] at hmain
    cases hmain
  obtain ⟨bs, ev, u, rfl, hbefore, hlast⟩ := hrun.last hne
  have hphase : u.Phase := hbefore.invariant (fun _ _ _ h hstep => h.step hstep) (.opened hopen)
  have hid : u.processId = s.processId :=
    hbefore.invariant (I := fun u => u.processId = s.processId)
      (fun _ _ _ h hstep => (step_frame hstep).1.trans h) rfl
  rw [hphase.reaped_iff hlast hdone, hid, List.getLast?_concat]
  constructor
  · intro h
    exact ⟨ev, rfl, h⟩
  · rintro ⟨_, heq, h⟩
    cases heq
    exact h

/-- A process with the main thread 1 and the thread 2, one area and one open file. -/
def twoThreads : ExitSys where
  processId := 1
  translate := fun _ => false
  pcb := ⟨⟨[⟨.stack, [], none, 0, 0x1000, 0x1000⟩]⟩, [some 0], [], [], [1, 2], none⟩
  tcb := fun _ => ⟨0, 0, none⟩
  running := [1, 2]
  parentSignals := []
  zeroed := []

theorem twoThreads_open : twoThreads.Open := ⟨fun _ h => h, rfl, fun _ _ => rfl, rfl⟩

theorem exit_reaped_iff_main_last :
    ∃ t : ExitSys, Run (fun s ev t => s.step ev = some t) twoThreads
      [.sysExit 2 0, .sysExitGroup 1 7] t ∧ t.running = [] ∧ t.Reaped := by
  have hrun : Run (fun s ev t => s.step ev = some t) twoThreads
      [.sysExit 2 0, .sysExitGroup 1 7] _ := .cons rfl (.cons rfl (.nil _))
  refine ⟨_, hrun, rfl, ?_⟩
  exact (exit_reaped_iff twoThreads_open (by decide) hrun rfl).mpr ⟨_, rfl, rfl⟩

/-- If the main thread ends first there is no exit code; if any thread calls `exit_group` while
the other runs there is one, but nothing is released and the parent gets no signal. -/
theorem exit_order_leaves_resources :
    (∃ t : ExitSys, Run (fun s ev t => s.step ev = some t) twoThreads
        [.sysExit 1 0, .sysExit 2 0] t
        ∧ t.running = [] ∧ t.pcb.exitCode = none ∧ t.parentSignals = [] ∧ ¬ t.Reaped)
      ∧ (∃ t : ExitSys, Run (fun s ev t => s.step ev = some t) twoThreads
        [.sysExitGroup 2 0, .left 1] t
        ∧ t.running = [] ∧ t.pcb.memset ≠ ⟨[]⟩ ∧ t.parentSignals = [] ∧ ¬ t.Reaped)
      ∧ ∃ t : ExitSys, Run (fun s ev t => s.step ev = some t) twoThreads
        [.sysExitGroup 1 0, .left 2] t
        ∧ t.running = [] ∧ t.pcb.memset ≠ ⟨[]⟩ ∧ t.parentSignals = [] ∧ ¬ t.Reaped := by
  refine ⟨⟨_, .cons rfl (.cons rfl (.nil _)), rfl, rfl, rfl, not_reaped rfl⟩,
    ⟨_, .cons rfl (.cons rfl (.nil _)), rfl, by decide, rfl, not_reaped rfl⟩,
    ⟨_, .cons rfl (.cons rfl (.nil _)), rfl, by decide, rfl, not_reaped rfl⟩⟩

end ExitSys

end MonkeyOS
