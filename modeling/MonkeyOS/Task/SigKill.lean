import MonkeyOS.Task.SignalSend
import Mathlib.Algebra.Order.BigOperators.Group.Finset

/-!
# MonkeyOS — SIGKILL ends its task

`handle_signal` gives the process an exit code before it looks up the action of SIGKILL. What is
left of the life of the task is its own: `check_signal` goes on with the other signals, and a
handler that is set up for one of them is not run, since its loop looks at the exit code first.
Every iteration takes a signal from what is pending and queued (`SigState.weight`), so
`check_signal` comes to its end, and the task with it (`exited_finishes`).
-/

namespace MonkeyOS

open Lib

namespace SigState

variable {s t : SigState} {sig : Nat}

/-- The signals `check_signal` has still to go through; a queued one weighs more than all bits. -/
def weight (s : SigState) : Nat :=
  (∑ i ∈ Finset.range Signal.REAL_TIME_SIGNAL_NUM, s.signalQueue i) * 2 ^ 64 + s.signal.toNat

theorem SameSignals.weight (h : s.SameSignals t) : t.weight = s.weight := by
  unfold SigState.weight
  rw [h.signal, h.queue]

theorem toNat_clear_lt {flags : BitVec 64} {i : Nat} (h : flags.getLsbD i = true) :
    (flags &&& ~~~(BitVec.twoPow 64 i)).toNat < flags.toNat := by
  refine Nat.lt_of_le_of_ne ?_ (fun heq => ?_)
  · rw [BitVec.toNat_and]
    exact Nat.and_le_left
  have hclear := congrArg (·.getLsbD i) (BitVec.eq_of_toNat_eq heq)
  simp only [BitVec.getLsbD_and, BitVec.getLsbD_not, BitVec.getLsbD_twoPow, h,
    BitVec.lt_of_getLsbD h, decide_true, Bool.and_self, Bool.not_true, Bool.and_false,
    Bool.false_eq_true] at hclear

theorem removeSignal_weight (hhigh : sig ≤ 64) (hpending : s.pending sig = true) :
    (s.removeSignal sig).weight < s.weight := by
  by_cases hreque : sig ≥ 34 ∧ s.signalQueue (sig - 32) > 0
  · have hqueue : (s.removeSignal sig).signalQueue
        = Function.update s.signalQueue (sig - 32) (s.signalQueue (sig - 32) - 1) := by
      rw [removeSignal_of_queued hreque]
    have hless : ∑ i ∈ Finset.range Signal.REAL_TIME_SIGNAL_NUM, (s.removeSignal sig).signalQueue i
        < ∑ i ∈ Finset.range Signal.REAL_TIME_SIGNAL_NUM, s.signalQueue i := by
      rw [hqueue]
      refine Finset.sum_lt_sum (fun i _ => ?_) ⟨sig - 32, ?_, ?_⟩
      · by_cases hi : i = sig - 32
        · rw [hi, Function.update_self]
          exact Nat.sub_le _ _
        · rw [Function.update_of_ne hi]
      · rw [Finset.mem_range, Signal.REAL_TIME_SIGNAL_NUM]
        omega
      · rw [Function.update_self]
        exact Nat.sub_lt hreque.2 Nat.one_pos
    have hbits := (s.removeSignal sig).signal.isLt
    unfold weight
    omega
  · rw [removeSignal_of_not_queued hreque]
    exact Nat.add_lt_add_left (toNat_clear_lt hpending) _

theorem tryGetSignal_range (h : s.tryGetSignal = some sig) : 1 ≤ sig ∧ sig ≤ 64 := by
  obtain ⟨i, hfind, rfl⟩ := Option.map_eq_some_iff.mp h
  have hi := List.mem_range.mp (List.mem_of_find?_eq_some hfind)
  omega

theorem removeSignal_exitCode (s : SigState) (sig : Signal) :
    (s.removeSignal sig).exitCode = s.exitCode := by
  obtain ⟨signal, queue, heq⟩ := s.removeSignal_eq sig
  rw [heq]

theorem userContext_exitCode (s : SigState) (sp : Nat) :
    (s.userContext sp).exitCode = s.exitCode := by
  obtain ⟨cx, heq⟩ := s.userContext_eq sp
  rw [heq]

end SigState

namespace Entry

variable {e e' : Entry} {ev : HandlerEvent} {s t : SigState}

/-- The task comes to its end by itself. -/
def Finishes (e : Entry) : Prop :=
  ∃ ls e', Run EntryStep e ls e' ∧ (∀ l ∈ ls, l.1 = .go) ∧ e'.control = .finished

theorem Finishes.of_go (h : e.step .go = some (e', ev)) (hrest : e'.Finishes) : e.Finishes := by
  obtain ⟨ls, f, hrun, hgo, hfinished⟩ := hrest
  refine ⟨(.go, ev) :: ls, f, .cons h hrun, fun l hl => ?_, hfinished⟩
  rcases List.mem_cons.mp hl with heq | hl
  · rw [heq]
  · exact hgo l hl

/-- With an exit code, the loop of `handle_signal` breaks at once. -/
theorem go_handling {place : Place} {frame : SigFrame} (hexit : s.exitCode ≠ none) :
    step ⟨s, .handling place frame⟩ .go = some (endHandler s place frame) := by
  show (if s.exitCode.isSome then _ else _) = _
  rw [if_pos (Option.isSome_iff_ne_none.mpr hexit)]

theorem check_exited (place : Place) (hexit : s.exitCode ≠ none) (hnone : s.tryGetSignal = none) :
    check s place = (⟨s, .finished⟩, .quiet) := by
  have hthread : s.checkThreadExit.isSome = true := by
    unfold SigState.checkThreadExit
    rw [Option.isSome_or, Option.isSome_iff_ne_none.mpr hexit]
    rfl
  unfold check
  simp only [hnone, hthread, if_true]

/-- With an exit code, `check_signal` goes through the signals and the task ends. -/
theorem exited_finishes (s : SigState) (place : Place) (hexit : s.exitCode ≠ none) :
    Finishes ⟨s, .checking place⟩ := by
  -- on what is left to go through: every iteration takes a bit or a queued signal
  induction hweight : s.weight using Nat.strong_induction_on generalizing s place with
  | _ n ih =>
    have hstep : step ⟨s, .checking place⟩ .go = some ((check s place).1, (check s place).2) := rfl
    cases hsignal : s.tryGetSignal with
    | none =>
      rw [check_exited place hexit hsignal] at hstep
      exact .of_go hstep ⟨[], _, .nil _, nofun, rfl⟩
    | some signal =>
      have hhigh := (SigState.tryGetSignal_range hsignal).2
      have hpending := SigState.tryGetSignal_pending hsignal
      -- whatever `handle_signal` does, the iteration ends with less to go through
      have hless : ∀ t place, s.SameSignals t → t.exitCode ≠ none →
          Finishes ⟨t.removeSignal signal, .checking place⟩ := by
        intro t place hsame ht
        refine ih _ ?_ _ place ((t.removeSignal_exitCode signal).symm ▸ ht) rfl
        rw [← hweight, ← hsame.weight]
        exact SigState.removeSignal_weight hhigh ((hsame.pending signal).trans hpending)
      have hsame := s.prologue_signals signal
      have hstill : (s.prologue signal).state.exitCode ≠ none :=
        SigState.prologue_exitCode (.inl hexit)
      refine .of_go hstep ?_
      rcases step_of_starts hstep hsignal with ⟨place', t, hleft, heq⟩
        | ⟨place', t, frame, hprologue, heq⟩
      · rw [heq]
        rw [Prologue.state_of_left hleft] at hsame hstill
        exact hless t place' hsame hstill
      · rw [heq]
        rw [hprologue] at hsame hstill
        -- the handler is set up, and its loop breaks before it runs
        refine .of_go (go_handling hstill) ?_
        have hframe : frame.signal = signal :=
          congrArg SigFrame.signal (SigState.prologue_entered hprologue)
        show Finishes ⟨((t.putBack frame).userContext frame.sp).removeSignal frame.signal, _⟩
        rw [hframe]
        refine hless _ place' (SigState.userContext_signals ?_ _) ?_
        · exact ⟨hsame.signal, hsame.queue⟩
        · rw [SigState.userContext_exitCode]
          exact hstill

/-- The process has an exit code, no more user code runs in the task, and it ends. -/
structure Terminates (e : Entry) : Prop where
  exitCode : e.sig.exitCode ≠ none
  user : ∀ trap, e.step (.user trap) = none
  finishes : e.Finishes

/-- **`handle_signal` of SIGKILL terminates the task**, whatever its action is. -/
theorem kill_terminates (h : e.starts .go = some Signal.SIGKILL)
    (hstep : e.step .go = some (e', ev)) : e'.Terminates := by
  have hstill : (e.sig.prologue Signal.SIGKILL).state.exitCode ≠ none :=
    SigState.prologue_exitCode (.inr rfl)
  rcases step_of_starts hstep h with ⟨place, t, hleft, rfl⟩ | ⟨place, t, frame, hprologue, rfl⟩
  · rw [Prologue.state_of_left hleft, ← t.removeSignal_exitCode Signal.SIGKILL] at hstill
    exact ⟨hstill, fun _ => rfl, exited_finishes _ _ hstill⟩
  · rw [hprologue] at hstill
    have hstill : t.exitCode ≠ none := hstill
    refine ⟨hstill, fun trap => ?_, .of_go (go_handling hstill) (exited_finishes _ _ ?_)⟩
    · exact if_pos (Option.isSome_iff_ne_none.mpr hstill)
    · rw [SigState.removeSignal_exitCode, SigState.userContext_exitCode]
      exact hstill

end Entry

end MonkeyOS
