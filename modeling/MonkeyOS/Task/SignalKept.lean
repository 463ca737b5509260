import MonkeyOS.Task.SignalRun

/-!
# MonkeyOS — signals that are sent while their handler runs

The bit of a signal stays set while its handler runs, and goes when the handler is through. A
signal that is sent meanwhile finds it set: `sys_tkill` and `sys_tgkill` count it in
`signal_queue` if it is a real-time signal, and everything else leaves no trace.

* `SigStep.owes` — the step lemma: with one in the queue, the end of the handler leaves the signal
  pending, and nothing else takes the bit before the next `handle_signal`;
* `SigTasks.loses_of_frame` — with none, the handler only has to return;
* `handler_send_kept_iff` — so the sends of an interleaving are kept exactly if they are counted.
-/

namespace MonkeyOS

open Lib

/-- The handler of a signal is in place. -/
def Entry.Handles (e : Entry) (sig : Nat) : Prop :=
  ∃ frame, e.control.frame = some frame ∧ frame.signal = sig

/-- The next look of `check_signal` finds the signal, or one before it, unless it is blocked. -/
def Entry.TakesUp (e : Entry) (sig : Nat) : Prop :=
  ∀ place, e.control = .checking place → e.sig.sigmask.getLsbD (sig - 1) = false →
    ∃ signal ≤ sig, e.starts .go = some signal

/-- A step in which nothing but the three calls sends the signal to the task. -/
def ApartStep (target sig : Nat) (s : SigTasks) (ev : SigEvent) (t : SigTasks) : Prop :=
  SigStep s ev t ∧ ev.Apart target sig s

/-- However it goes on, until its `handle_signal` begins or the task exits, the signal is pending,
and the next look takes it up. -/
def SigTasks.Keeps (s : SigTasks) (target sig : Nat) : Prop :=
  ∀ evs t, Run (ApartStep target sig) s evs t → (∀ ev ∈ evs, ev.starts target sig = false) →
    (t.entries target).sig.checkThreadExit = none →
    (t.entries target).sig.pending sig = true ∧ (t.entries target).TakesUp sig

namespace SigEvent

/-- The event sends the signal while its handler runs, to a task that does not exit. -/
structure Repeats (target sig : Nat) (s : SigTasks) (ev : SigEvent) : Prop where
  sends : ev.sends target sig = true
  handles : (s.entries target).Handles sig
  live : (s.entries target).sig.checkThreadExit = none
  enabled : ∃ t, SigStep s ev t

def Kept (target sig : Nat) (s : SigTasks) (ev : SigEvent) : Prop :=
  ev.Repeats target sig s → ∀ t, SigStep s ev t → t.Keeps target sig

def toThread : SigEvent → Bool
  | .called _ call _ => call.toThread
  | _ => false

/-- A real-time signal, by a call that counts it or after one that did. -/
def Counted (target sig : Nat) (s : SigTasks) (ev : SigEvent) : Prop :=
  ev.Repeats target sig s →
    34 ≤ sig ∧ (ev.toThread = true ∨ 0 < (s.entries target).sig.queued sig)

end SigEvent

theorem SigState.tryGetSignal_of_pending {s : SigState} {sig : Nat} (hlow : 1 ≤ sig)
    (hhigh : sig ≤ 64) (hpending : s.pending sig = true)
    (hmask : s.sigmask.getLsbD (sig - 1) = false) :
    ∃ signal ≤ sig, s.tryGetSignal = some signal := by
  have hwithin : sig - 1 < 64 := by omega
  have hbit : (s.signal &&& ~~~s.sigmask).getLsbD (sig - 1) = true := by
    rw [BitVec.getLsbD_and, BitVec.getLsbD_not, hmask, decide_eq_true hwithin]
    rw [SigState.pending] at hpending
    rw [hpending]
    rfl
  unfold SigState.tryGetSignal
  cases hfind : (List.range 64).find? (fun i => (s.signal &&& ~~~s.sigmask).getLsbD i) with
  | none =>
    rw [List.find?_eq_none] at hfind
    exact absurd hbit (hfind (sig - 1) (List.mem_range.mpr hwithin))
  | some i =>
    refine ⟨i + 1, ?_, rfl⟩
    obtain ⟨-, -, hbefore⟩ := List.find?_range_eq_some.mp hfind
    by_contra hlater
    have hclear := hbefore (sig - 1) (by omega)
    rw [hbit] at hclear
    cases hclear

/-- What the end of the handler leaves the signal pending by. -/
structure Entry.Owes (e : Entry) (sig : Nat) : Prop where
  pending : e.sig.pending sig = true
  queued : e.Handles sig → 0 < e.sig.queued sig

section Owing

variable {s t : SigTasks} {ev : SigEvent} {target sig : Nat}

/-- **The step lemma.** A signal stays owed until its `handle_signal` begins. -/
theorem SigStep.owes (hsig : 34 ≤ sig) (hhigh : sig ≤ 64) (h : SigStep s ev t)
    (hapart : ev.Apart target sig s) (hstart : ev.starts target sig = false)
    (howes : (s.entries target).Owes sig) : (t.entries target).Owes sig := by
  rcases h.cases hapart with ⟨self, call, -, -, heq⟩ | ⟨input, rfl, hmoves⟩ | ⟨hsame, -⟩
  · obtain ⟨hset, hcount⟩ := call.deliver_spec (s.entries target).sig hsig hhigh
    rw [heq]
    refine ⟨?_, fun hhandles => ?_⟩
    · rw [hset, howes.pending]
      rfl
    have hqueued := howes.queued hhandles
    show 0 < (call.deliver (s.entries target).sig).queued sig
    omega
  · have hfresh : (s.entries target).starts input ≠ some sig := by
      intro heq
      simp [SigEvent.starts, heq] at hstart
    obtain ⟨hset, hcount⟩ := hmoves.pending hsig hhigh
    by_cases hdone : (s.entries target).completes input = some sig
    · -- the handler is through, and a send it has counted sets the bit again
      refine ⟨?_, fun hhandles => ?_⟩
      · rw [hset, if_pos hdone]
        rcases Entry.completes_cases hdone with heq | hhandles
        · exact absurd heq hfresh
        · exact decide_eq_true (howes.queued hhandles)
      · obtain ⟨frame, hframe, -⟩ := hhandles
        rw [(hmoves.frame frame hframe).1] at hdone
        cases hdone
    · rw [if_neg hdone] at hset hcount
      refine ⟨hset.trans howes.pending, fun hhandles => ?_⟩
      obtain ⟨frame, hframe, hsignal⟩ := hhandles
      rw [hcount]
      rcases (hmoves.frame frame hframe).2 with hold | heq
      · exact howes.queued ⟨frame, hold, hsignal⟩
      · rw [hsignal] at heq
        exact absurd heq hfresh
  · refine ⟨hsame.pending.trans howes.pending, fun hhandles => ?_⟩
    obtain ⟨frame, hframe, hsignal⟩ := hhandles
    rw [hsame.control] at hframe
    rw [hsame.queued]
    exact howes.queued ⟨frame, hframe, hsignal⟩

/-- What a call that returns has done. -/
theorem SigStep.eq_modify {self n : Nat} {call : SendCall}
    (h : SigStep s (.called self call (.ok n)) t) : t = s.modify call.target call.deliver := by
  cases h with
  | called hsend =>
    rcases s.send_cases self call with heq | ⟨errno, heq⟩
    · rw [heq] at hsend
      exact (Prod.mk.inj hsend).1.symm
    · rw [heq] at hsend
      cases hsend

/-- A send that is counted while the handler runs makes the signal owed. -/
theorem SendCall.owes (call : SendCall) (e : Entry) (hsig : 34 ≤ sig) (hhigh : sig ≤ 64)
    (hsignal : call.signal = sig) (hpending : e.sig.pending sig = true)
    (hcounted : call.toThread = true ∨ 0 < e.sig.queued sig) :
    Entry.Owes ⟨call.deliver e.sig, e.control⟩ sig := by
  obtain ⟨hset, hcount⟩ := call.deliver_spec e.sig hsig hhigh
  refine ⟨?_, fun _ => ?_⟩
  · rw [hset, hpending]
    rfl
  show 0 < (call.deliver e.sig).queued sig
  rw [hcount]
  rcases hcounted with hthread | hqueued
  · rw [if_pos ⟨hthread, hsignal, hpending⟩]
    exact Nat.succ_pos _
  · exact Nat.add_pos_left hqueued _

/-- What is owed is kept. -/
theorem SigTasks.keeps_of_owes (hsig : 34 ≤ sig) (hhigh : sig ≤ 64)
    (howes : (s.entries target).Owes sig) : s.Keeps target sig := by
  intro evs t hrun hnone _
  have howes : (t.entries target).Owes sig := (hrun.restrict hnone).invariant
    (fun _ _ _ howes hstep => hstep.2.1.owes hsig hhigh hstep.2.2 hstep.1 howes) howes
  refine ⟨howes.pending, fun place hcontrol hmask => ?_⟩
  obtain ⟨signal, hle, hget⟩ :=
    SigState.tryGetSignal_of_pending (by omega) hhigh howes.pending hmask
  refine ⟨signal, hle, ?_⟩
  unfold Entry.starts
  simp only [hcontrol]
  exact hget

end Owing

/-! ### How a signal is lost

The handler in place comes to its end, whatever it is at, and the bit goes with it. -/

/-- The opposite of `SigTasks.Keeps`. -/
def SigTasks.Loses (s : SigTasks) (target sig : Nat) : Prop :=
  ∃ evs t, Run (ApartStep target sig) s evs t ∧ (∀ ev ∈ evs, ev.starts target sig = false)
    ∧ (t.entries target).sig.checkThreadExit = none
    ∧ (t.entries target).sig.pending sig = false

section Losing

variable {s : SigTasks} {e : Entry} {input : EntryInput} {hev : HandlerEvent} {target sig : Nat}
  {frame : SigFrame}

theorem SigTasks.Loses.not_keeps (h : s.Loses target sig) : ¬ s.Keeps target sig := by
  obtain ⟨evs, t, hrun, hnone, hlive, hclear⟩ := h
  intro hkeeps
  rw [(hkeeps evs t hrun hnone hlive).1] at hclear
  cases hclear

theorem SigTasks.Loses.of_step (hstep : (s.entries target).step input = some (e, hev))
    (hin : ∀ u, input ≠ .outside u) (hstarts : (s.entries target).starts input = none)
    (h : (s.setEntry target e).Loses target sig) : s.Loses target sig := by
  obtain ⟨evs, t, hrun, hnone, hend⟩ := h
  refine ⟨_ :: evs, t, .cons ⟨.stepped hstep, ?_⟩ hrun, fun ev hev => ?_, hend⟩
  · cases input with
    | outside u => exact absurd rfl (hin u)
    | _ => trivial
  · rcases List.mem_cons.mp hev with heq | hev
    · rw [heq]
      simp [SigEvent.starts, hstarts]
    · exact hnone ev hev

/-- The end of a handler, for a signal that is not queued. -/
theorem SigState.endHandler_clears {s : SigState} (place : Place)
    (hqueue : ¬ (34 ≤ frame.signal ∧ 0 < s.queued frame.signal)) :
    (Entry.endHandler s place frame).1.sig.pending frame.signal = false
      ∧ (Entry.endHandler s place frame).1.sig.checkThreadExit = s.checkThreadExit := by
  have hback : s.SameSignals (s.putBack frame) := ⟨rfl, rfl⟩
  have hsame := SigState.userContext_signals hback frame.sp
  constructor
  · rw [← Bool.not_eq_true]
    intro hpending
    obtain ⟨hreal, hqueued⟩ := SigState.removeSignal_pending hpending
    rw [← hsame.queued] at hqueue
    exact hqueue ⟨hreal, hqueued⟩
  · show (SigState.removeSignal _ _).checkThreadExit = _
    rw [SigState.removeSignal_checkThreadExit, SigState.userContext_checkThreadExit]
    rfl

variable {u : SigState} {place : Place}

/-- The handler returns. -/
theorem SigTasks.loses_of_handling (hentry : s.entries target = ⟨u, .handling place frame⟩)
    (hlive : u.checkThreadExit = none)
    (hqueue : ¬ (34 ≤ frame.signal ∧ 0 < u.queued frame.signal)) :
    s.Loses target frame.signal := by
  obtain ⟨hclear, hstill⟩ := SigState.endHandler_clears place hqueue
  have hexit : ¬ u.exitCode.isSome = true := by
    rw [Option.not_isSome_iff_eq_none]
    exact (Option.or_eq_none_iff.mp hlive).1
  have hstep : (s.entries target).step (.user (.sigreturn u.cx))
      = some (Entry.endHandler u place frame) := by
    rw [hentry]
    exact if_neg hexit
  refine .of_step hstep (fun _ h => nomatch h) rfl ⟨[], _, .nil _, nofun, ?_, ?_⟩
  · rw [SigTasks.setEntry_self]
    exact hstill.trans hlive
  · rw [SigTasks.setEntry_self]
    exact hclear

/-- The handler's system call is ready, and the handler returns. -/
theorem SigTasks.loses_of_handlerCall (hentry : s.entries target = ⟨u, .handlerCall place frame⟩)
    (hlive : u.checkThreadExit = none)
    (hqueue : ¬ (34 ≤ frame.signal ∧ 0 < u.queued frame.signal)) :
    s.Loses target frame.signal := by
  have hstep : (s.entries target).step (.ready 0)
      = some (⟨{ u with cx := u.cx.setRet 0 }, .handling place frame⟩, .quiet) := by
    rw [hentry]
    rfl
  refine .of_step hstep (fun _ h => nomatch h) rfl ?_
  exact SigTasks.loses_of_handling (s.setEntry_self _ _) hlive hqueue

theorem SigTasks.loses_of_frame (hframe : (s.entries target).control.frame = some frame)
    (hlive : (s.entries target).sig.checkThreadExit = none)
    (hqueue : ¬ (34 ≤ frame.signal ∧ 0 < (s.entries target).sig.queued frame.signal)) :
    s.Loses target frame.signal := by
  obtain ⟨u, control, hentry⟩ : ∃ u control, s.entries target = ⟨u, control⟩ := ⟨_, _, rfl⟩
  rw [hentry] at hframe hlive hqueue
  cases control with
  | handling place frame' =>
    cases hframe
    exact SigTasks.loses_of_handling hentry hlive hqueue
  | handlerCall place frame' =>
    cases hframe
    exact SigTasks.loses_of_handlerCall hentry hlive hqueue
  | pollOne armTwo =>
    -- the first arm is still pending, so the second one is polled
    cases hframe
    have hstep : (s.entries target).step .pending
        = some (⟨u, .handlerCall .armTwo frame⟩, .quiet) := by
      rw [hentry]
      rfl
    refine .of_step hstep (fun _ h => nomatch h) rfl ?_
    exact SigTasks.loses_of_handlerCall (s.setEntry_self _ _) hlive hqueue
  | _ => cases hframe

end Losing

/-! ### Which sends are kept -/

section Keeping

variable {s t : SigTasks} {ev : SigEvent} {target sig : Nat}

theorem SendCall.deliver_checkThreadExit (call : SendCall) (s : SigState) :
    (call.deliver s).checkThreadExit = s.checkThreadExit := by
  have hthread : ∀ sig, (s.sendThread sig).checkThreadExit = s.checkThreadExit := by
    intro sig
    unfold SigState.sendThread
    split
    · rfl
    · split <;> rfl
  cases call with
  | tkill tid signum => exact hthread _
  | tgkill tgid tid signum => exact hthread _
  | kill pid signum => rfl

/-- Where the handlers of real-time signals are pending, a send is kept exactly if it is counted. -/
theorem SigEvent.kept_iff_counted
    (hpending : 34 ≤ sig → sig ≤ 64 → (s.entries target).HandlerPending sig) (ev : SigEvent) :
    ev.Kept target sig s ↔ ev.Counted target sig s := by
  refine forall_congr' fun hrepeats => ?_
  obtain ⟨self, call, n, rfl⟩ : ∃ self call n, ev = .called self call (.ok n) := by
    have hsends := hrepeats.sends
    unfold SigEvent.sends at hsends
    split at hsends
    · exact ⟨_, _, _, rfl⟩
    · cases hsends
  have hsends : call.target = target ∧ call.signal = sig := of_decide_eq_true hrepeats.sends
  obtain ⟨htarget, hsignal⟩ := hsends
  have hhigh : sig ≤ 64 := hsignal ▸ (Signal.fromNum_range call.signum).2
  obtain ⟨frame, hframe, hsame⟩ := hrepeats.handles
  have hafter : ∀ {t}, SigStep s (.called self call (.ok n)) t →
      t.entries target = ⟨call.deliver (s.entries target).sig, (s.entries target).control⟩ := by
    intro t hstep
    rw [hstep.eq_modify, htarget]
    exact s.setEntry_self _ _
  constructor
  · intro hkept
    obtain ⟨t, hstep⟩ := hrepeats.enabled
    by_contra hnot
    have hentry := hafter hstep
    have hlost : t.Loses target frame.signal := by
      refine SigTasks.loses_of_frame ?_ ?_ ?_
      · rw [hentry]
        exact hframe
      · rw [hentry]
        exact (call.deliver_checkThreadExit _).trans hrepeats.live
      · rw [hentry, hsame]
        intro ⟨hreal, hqueued⟩
        refine hnot ⟨hreal, ?_⟩
        by_contra hnone
        rw [not_or] at hnone
        have hcount := (call.deliver_spec (s.entries target).sig hreal hhigh).2
        rw [if_neg (fun h => hnone.1 h.1)] at hcount
        rw [hcount, Nat.add_zero] at hqueued
        exact hnone.2 hqueued
    rw [hsame] at hlost
    exact hlost.not_keeps (hkept t hstep)
  · intro ⟨hreal, hcounted⟩ t hstep
    refine SigTasks.keeps_of_owes hreal hhigh ?_
    rw [hafter hstep]
    exact call.owes _ hreal hhigh hsignal (hpending hreal hhigh frame hframe hsame)
      hcounted

end Keeping

/-- **Which sends are lost to a running handler.** In every interleaving, the signals that are sent
to a task while their handler runs are all kept exactly if they are all counted: real-time
signals, sent by `sys_tkill` or `sys_tgkill` or after such a send that is still queued. -/
theorem handler_send_kept_iff {s : SigTasks} {target sig : Nat} (hnew : (s.entries target).New)
    (evs : List SigEvent) :
    Throughout (ApartStep target sig) (SigEvent.Kept target sig) s evs
      ↔ Throughout (ApartStep target sig) (SigEvent.Counted target sig) s evs := by
  refine throughout_iff (I := fun s => 34 ≤ sig → sig ≤ 64 → (s.entries target).HandlerPending sig)
    ?_ ?_ ?_ evs
  · intro s ev hpending
    exact SigEvent.kept_iff_counted hpending ev
  · intro s ev t hpending _ hstep hsig hhigh
    exact hstep.1.handlerPending hsig hhigh hstep.2 (hpending hsig hhigh)
  · intro _ _ frame hframe
    rw [hnew.control] at hframe
    cases hframe

/-- Signal 34 is sent again by `sys_tkill` while its handler runs, and kept. -/
theorem handler_send_kept_rt :
    ∃ u v : SigTasks,
      Run (ApartStep 1 34) sampleTasks
        [.called 1 (.tkill 1 34) (.ok 0), .stepped 1 .go (some 34) none] u
      ∧ (u.entries 1).Handles 34 ∧ (u.entries 1).sig.checkThreadExit = none
      ∧ SigStep u (.called 1 (.tkill 1 34) (.ok 0)) v ∧ v.Keeps 1 34 := by
  have hruns : ∃ u v : SigTasks,
      Run (ApartStep 1 34) sampleTasks
        [.called 1 (.tkill 1 34) (.ok 0), .stepped 1 .go (some 34) none] u
      ∧ (u.entries 1).Handles 34 ∧ (u.entries 1).sig.checkThreadExit = none
      ∧ SigStep u (.called 1 (.tkill 1 34) (.ok 0)) v :=
    ⟨_, _, .cons ⟨.called rfl, trivial⟩ (.cons ⟨.stepped rfl, trivial⟩ (.nil _)),
      ⟨_, rfl, rfl⟩, rfl, .called rfl⟩
  obtain ⟨u, v, hbefore, hhandles, hlive, hsend⟩ := hruns
  have hcounted : Throughout (ApartStep 1 34) (SigEvent.Counted 1 34) sampleTasks
      [.called 1 (.tkill 1 34) (.ok 0), .stepped 1 .go (some 34) none,
        .called 1 (.tkill 1 34) (.ok 0)] := by
    intro bs ev cs t hevs _ hrepeats
    have hev : ev ∈ bs ++ ev :: cs := List.mem_append_cons_self
    rw [← hevs] at hev
    refine ⟨Nat.le_refl 34, .inl ?_⟩
    simp only [List.mem_cons, List.not_mem_nil, or_false] at hev
    rcases hev with rfl | rfl | rfl
    · rfl
    · cases hrepeats.sends
    · rfl
  have hkept := (handler_send_kept_iff (sampleTasks_new 1) _).mpr hcounted
  exact ⟨u, v, hbefore, hhandles, hlive, hsend,
    hkept _ _ [] u rfl hbefore ⟨rfl, hhandles, hlive, v, hsend⟩ v hsend⟩

/-- One call makes the task enter the handler of a signal, and another sends the signal while the
handler runs. The handler returns, `check_signal` finds nothing, and the task goes on with its
program: nothing is blocked, and it does not exit. -/
def SendLost (first second : SendCall) (sig : Nat) : Prop :=
  ∃ u v t : SigTasks,
    Run (fun s ev t => SigStep s ev t ∧ ev.Apart 1 sig s) sampleTasks
      [.called 1 first (.ok 0), .stepped 1 .go (some sig) none] u
    ∧ (u.entries 1).Handles sig
    ∧ SigStep u (.called 1 second (.ok 0)) v ∧ second.target = 1 ∧ second.signal = sig
    ∧ Run (fun s ev t => SigStep s ev t ∧ ev.Apart 1 sig s) v
      [.stepped 1 (.user (.sigreturn (sampleCx 0x20010))) none (some sig),
        .stepped 1 .go none none] t
    ∧ (t.entries 1).control = .running ∧ (t.entries 1).sig.pending sig = false
    ∧ (t.entries 1).sig.sigmask = 0#64 ∧ (t.entries 1).sig.checkThreadExit = none

/-- SIGUSR1 is sent again by `sys_tkill` while its handler runs, and signal 34 by `sys_kill`. -/
theorem handler_send_lost :
    SendLost (.tkill 1 10) (.tkill 1 10) Signal.SIGUSR1
      ∧ SendLost (.tkill 1 34) (.kill 1 34) 34 := by
  constructor
  · refine ⟨_, _, _, .cons ⟨.called rfl, trivial⟩ (.cons ⟨.stepped rfl, trivial⟩ (.nil _)),
      ⟨_, rfl, rfl⟩, .called rfl, rfl, rfl,
      .cons ⟨.stepped rfl, trivial⟩ (.cons ⟨.stepped rfl, trivial⟩ (.nil _)), rfl, rfl, rfl, rfl⟩
  · refine ⟨_, _, _, .cons ⟨.called rfl, trivial⟩ (.cons ⟨.stepped rfl, trivial⟩ (.nil _)),
      ⟨_, rfl, rfl⟩, .called rfl, rfl, rfl,
      .cons ⟨.stepped rfl, trivial⟩ (.cons ⟨.stepped rfl, trivial⟩ (.nil _)), rfl, rfl, rfl, rfl⟩

end MonkeyOS
