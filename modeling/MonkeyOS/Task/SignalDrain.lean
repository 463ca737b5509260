import MonkeyOS.Task.SigKill
import MonkeyOS.Task.SignalKept

/-!
# MonkeyOS — `check_signal` drains what is ignored

`check_signal` takes the lowest pending signal that is not blocked, calls `handle_signal`, removes the
bit, and for a real-time signal with a count in `signal_queue` sets the bit again and takes one from
the count. An ignored signal (SIG_IGN) is handled by doing nothing, so the loop runs on its own.

* `SigState.removeSignal_due` — the end of an iteration takes one from what is due of its signal and
  nothing from any other;
* `CheckStep.of_ignored` — with everything ignored, an iteration is that and no more;
* `checkSignal_drains` — the whole loop: what is due is delivered, lowest signal first.

The loop can set the very bit it has just removed; `SigState.weight` still gets smaller.
-/

namespace MonkeyOS

open Lib

namespace SigState

/-- Pending, and not blocked. -/
def deliverable (s : SigState) (sig : Nat) : Bool := s.pending sig && !s.sigmask.getLsbD (sig - 1)

/-- How often `check_signal` has to deliver the signal: once, and a real-time signal once more for
each count in the queue. -/
def due (s : SigState) (sig : Nat) : Nat :=
  if s.deliverable sig then 1 + if sig ≥ 34 then s.queued sig else 0 else 0

/-- Every signal that can be delivered is ignored, and none is SIGKILL. -/
def Ignores (s : SigState) : Prop :=
  ∀ sig, 1 ≤ sig → sig ≤ 64 → s.deliverable sig = true →
    sig ≠ Signal.SIGKILL ∧ (s.env.sigaction sig).handler = 1

end SigState

/-- An iteration of `check_signal` that calls `handle_signal` and comes back to look again. -/
def CheckStep (place : Place) (s : SigState) (sig : Signal) (t : SigState) : Prop :=
  Entry.starts ⟨s, .checking place⟩ .go = some sig
    ∧ ∃ ev, Entry.step ⟨s, .checking place⟩ .go = some (⟨t, .checking place⟩, ev)

/-! ## One iteration -/

namespace SigState

variable {s t : SigState} {sig other : Nat}

theorem removeSignal_env (s : SigState) (sig : Signal) : (s.removeSignal sig).env = s.env := by
  obtain ⟨signal, queue, heq⟩ := s.removeSignal_eq sig
  rw [heq]

theorem deliverable_of_tryGet (h : s.tryGetSignal = some sig) : s.deliverable sig = true := by
  obtain ⟨i, hfind, rfl⟩ := Option.map_eq_some_iff.mp h
  have hbit := List.find?_some hfind
  have hi := List.mem_range.mp (List.mem_of_find?_eq_some hfind)
  rw [BitVec.getLsbD_and, BitVec.getLsbD_not, decide_eq_true hi, Bool.true_and] at hbit
  exact hbit

theorem unblocked_of_deliverable (h : s.deliverable sig = true) :
    s.sigmask.getLsbD (sig - 1) = false := by
  unfold deliverable at h
  rw [Bool.and_eq_true, Bool.not_eq_true'] at h
  exact h.2

theorem tryGetSignal_le (hlow : 1 ≤ sig) (hhigh : sig ≤ 64) (h : s.deliverable sig = true) :
    ∃ signal ≤ sig, s.tryGetSignal = some signal := by
  unfold deliverable at h
  rw [Bool.and_eq_true, Bool.not_eq_true'] at h
  exact tryGetSignal_of_pending hlow hhigh h.1 h.2

/-- The signal whose iteration is through, if it was deliverable: it is again if it was queued. -/
theorem removeSignal_deliverable (hlow : 1 ≤ sig) (hhigh : sig ≤ 64) (hother : 1 ≤ other)
    (hmask : s.sigmask.getLsbD (other - 1) = false) :
    (s.removeSignal other).deliverable sig
      = if other = sig then decide (sig ≥ 34 ∧ s.queued sig > 0) else s.deliverable sig := by
  unfold deliverable
  rw [removeSignal_pending_eq s hhigh (by omega), removeSignal_sigmask]
  by_cases heq : other = sig
  · rw [heq] at hmask
    rw [if_pos heq, if_pos heq, hmask]
    simp
  · rw [if_neg heq, if_neg heq]

/-- **The end of an iteration** takes one from what is due. -/
theorem removeSignal_due (hlow : 1 ≤ sig) (hhigh : sig ≤ 64) (hother : 1 ≤ other)
    (h : s.deliverable other = true) :
    s.due sig = (s.removeSignal other).due sig + if other = sig then 1 else 0 := by
  have hmask := unblocked_of_deliverable h
  unfold due
  rw [removeSignal_deliverable hlow hhigh hother hmask]
  by_cases heq : other = sig
  · subst heq
    rw [if_pos rfl, if_pos rfl, if_pos h]
    by_cases hreal : other ≥ 34
    · rw [removeSignal_queued_eq s hreal]
      simp only [if_true, true_and, decide_eq_true_eq, hreal]
      split <;> omega
    · simp [hreal]
  · rw [if_neg heq, if_neg heq, Nat.add_zero]
    by_cases hreal : sig ≥ 34
    · rw [removeSignal_queued_eq s hreal, if_neg heq]
    · simp [hreal]

/-- An ignored signal: `handle_signal` returns with nothing done. -/
theorem prologue_of_ignored (hkill : sig ≠ Signal.SIGKILL)
    (hhandler : (s.env.sigaction sig).handler = 1) : s.prologue sig = .returned s := by
  unfold prologue deliver
  simp only [if_neg hkill, hhandler]
  rfl

theorem Ignores.removeSignal (h : s.Ignores) (hother : 1 ≤ other)
    (hdeliver : s.deliverable other = true) : (s.removeSignal other).Ignores := by
  intro sig hlow hhigh hsig
  rw [removeSignal_env]
  rw [removeSignal_deliverable hlow hhigh hother (unblocked_of_deliverable hdeliver)] at hsig
  by_cases heq : other = sig
  · rw [heq] at hdeliver
    exact h sig hlow hhigh hdeliver
  · rw [if_neg heq] at hsig
    exact h sig hlow hhigh hsig

end SigState

/-- With everything ignored, an iteration ends with the signal removed and nothing else done. -/
theorem CheckStep.of_ignored {place : Place} {s : SigState} {sig : Signal} (hignores : s.Ignores)
    (hget : s.tryGetSignal = some sig) (t : SigState) :
    CheckStep place s sig t ↔ t = s.removeSignal sig := by
  obtain ⟨hlow, hhigh⟩ := SigState.tryGetSignal_range hget
  obtain ⟨hkill, hhandler⟩ := hignores sig hlow hhigh (SigState.deliverable_of_tryGet hget)
  have hcheck : Entry.step ⟨s, .checking place⟩ .go
      = some (⟨s.removeSignal sig, .checking place⟩, .quiet) := by
    show some (Entry.check s place) = _
    unfold Entry.check
    simp only [hget, SigState.prologue_of_ignored hkill hhandler]
  unfold CheckStep
  rw [hcheck]
  constructor
  · rintro ⟨-, ev, heq⟩
    cases heq
    rfl
  · intro heq
    rw [heq]
    exact ⟨hget, .quiet, rfl⟩

/-! ## The loop -/

/-- The calls of `handle_signal`, in order, and what the loop leaves. -/
structure Drained (s : SigState) (delivered : List Signal) (t : SigState) : Prop where
  range : ∀ sig ∈ delivered, 1 ≤ sig ∧ sig ≤ 64
  /-- each signal as often as it is due -/
  count : ∀ sig, 1 ≤ sig → sig ≤ 64 → delivered.count sig = s.due sig
  ordered : delivered.Pairwise (· ≤ ·)
  /-- only the blocked signals are still pending -/
  pending : ∀ sig, 1 ≤ sig → sig ≤ 64 →
    t.pending sig = (s.pending sig && s.sigmask.getLsbD (sig - 1))
  queued : ∀ sig, 34 ≤ sig → sig ≤ 64 →
    t.queued sig = if s.deliverable sig then 0 else s.queued sig
  /-- nothing but the pending signals and their counts changes -/
  rest : ∃ signal queue, t = { s with signal := signal, signalQueue := queue }

namespace Drained

variable {s t : SigState} {delivered : List Signal} {sig : Signal}

/-- Nothing is deliverable, nothing is delivered. -/
theorem nil (hnone : s.tryGetSignal = none) : Drained s [] s := by
  have hfree : ∀ sig, 1 ≤ sig → sig ≤ 64 → s.deliverable sig = false := by
    intro sig hlow hhigh
    by_contra hdeliver
    obtain ⟨signal, -, hget⟩ := SigState.tryGetSignal_le hlow hhigh (by simpa using hdeliver)
    rw [hnone] at hget
    cases hget
  refine ⟨nofun, fun sig hlow hhigh => ?_, List.Pairwise.nil, fun sig hlow hhigh => ?_,
    fun sig hlow hhigh => ?_, s.signal, s.signalQueue, rfl⟩
  · unfold SigState.due
    rw [hfree sig hlow hhigh]
    rfl
  · have hblocked := hfree sig hlow hhigh
    unfold SigState.deliverable at hblocked
    cases hpending : s.pending sig with
    | false => rfl
    | true =>
      rw [hpending, Bool.true_and, Bool.not_eq_false'] at hblocked
      rw [hblocked]
      rfl
  · rw [hfree sig (by omega) hhigh]
    rfl

/-- One iteration before the others. -/
theorem cons (hget : s.tryGetSignal = some sig) (h : Drained (s.removeSignal sig) delivered t) :
    Drained s (sig :: delivered) t := by
  obtain ⟨hlow, hhigh⟩ := SigState.tryGetSignal_range hget
  have hdeliver := SigState.deliverable_of_tryGet hget
  have hmask := SigState.unblocked_of_deliverable hdeliver
  have hcount : ∀ x, 1 ≤ x → x ≤ 64 → (sig :: delivered).count x = s.due x := by
    intro x hx hx'
    rw [List.count_cons, h.count x hx hx', SigState.removeSignal_due hx hx' hlow hdeliver]
    simp only [beq_iff_eq]
  have hrange : ∀ x ∈ sig :: delivered, 1 ≤ x ∧ x ≤ 64 := by
    intro x hx
    rcases List.mem_cons.mp hx with rfl | hx
    · exact ⟨hlow, hhigh⟩
    · exact h.range x hx
  refine ⟨hrange, hcount, List.pairwise_cons.mpr ⟨fun x hx => ?_, h.ordered⟩,
    fun x hx hx' => ?_, fun x hx hx' => ?_, ?_⟩
  · -- what is delivered later was due already, so it is not lower
    obtain ⟨hx1, hx2⟩ := h.range x hx
    have hdue : s.due x ≠ 0 := by
      rw [← hcount x hx1 hx2]
      exact Nat.ne_of_gt (List.count_pos_iff.mpr (List.mem_cons_of_mem _ hx))
    have hx3 : s.deliverable x = true := by
      by_contra hnot
      unfold SigState.due at hdue
      rw [if_neg hnot] at hdue
      exact hdue rfl
    obtain ⟨signal, hle, hsignal⟩ := SigState.tryGetSignal_le hx1 hx2 hx3
    rw [hget] at hsignal
    cases hsignal
    exact hle
  · rw [h.pending x hx hx', SigState.removeSignal_sigmask,
      SigState.removeSignal_pending_eq s hx' (by omega)]
    by_cases heq : sig = x
    · rw [← heq, hmask, Bool.and_false, Bool.and_false]
    · rw [if_neg heq]
  · rw [h.queued x hx hx', SigState.removeSignal_queued_eq s hx,
      SigState.removeSignal_deliverable (by omega) hx' hlow hmask]
    by_cases heq : sig = x
    · rw [heq] at hdeliver
      simp only [if_pos heq, hdeliver, if_true, decide_eq_true_eq]
      split
      · rfl
      · omega
    · rw [if_neg heq, if_neg heq]
  · obtain ⟨signal, queue, ht⟩ := h.rest
    obtain ⟨signal', queue', hs⟩ := s.removeSignal_eq sig
    rw [hs] at ht
    exact ⟨signal, queue, ht⟩

end Drained

/-- **`check_signal` drains and stops.** If every signal that is pending and not blocked is ignored
and is not SIGKILL, and nothing arrives, the loop comes to its end: its iterations are those for
`delivered`, and there is no other way for them to go. Each signal is delivered once, a real-time
signal once more for each count in the queue, lowest first; then no unblocked signal is pending,
the counts of the delivered real-time signals are zero, and the blocked signals are as they were. -/
theorem checkSignal_drains (s : SigState) (place : Place) (hignores : s.Ignores) :
    ∃ delivered t, Run (CheckStep place) s delivered t
      ∧ Entry.starts ⟨t, .checking place⟩ .go = none
      ∧ (∀ sigs u, Run (CheckStep place) s sigs u → sigs <+: delivered)
      ∧ Drained s delivered t := by
  -- on what is left to go through: every iteration takes a bit or a queued signal
  induction hweight : s.weight using Nat.strong_induction_on generalizing s with
  | _ n ih =>
    cases hget : s.tryGetSignal with
    | none =>
      refine ⟨[], s, .nil s, hget, fun sigs u hrun => ?_, .nil hget⟩
      cases hrun with
      | nil => exact List.prefix_rfl
      | cons hstep _ =>
        have hstarts : s.tryGetSignal = some _ := hstep.1
        rw [hget] at hstarts
        cases hstarts
    | some sig =>
      obtain ⟨hlow, hhigh⟩ := SigState.tryGetSignal_range hget
      have hdeliver := SigState.deliverable_of_tryGet hget
      have hless : (s.removeSignal sig).weight < n := by
        rw [← hweight]
        exact SigState.removeSignal_weight hhigh (SigState.tryGetSignal_pending hget)
      obtain ⟨delivered, t, hrun, hstop, honly, hdrained⟩ :=
        ih _ hless _ (hignores.removeSignal hlow hdeliver) rfl
      refine ⟨sig :: delivered, t, .cons ((CheckStep.of_ignored hignores hget _).mpr rfl) hrun, hstop,
        fun sigs u hother => ?_, .cons hget hdrained⟩
      cases hother with
      | nil => exact List.nil_prefix
      | @cons _ u' _ sig' sigs' hstep hrest =>
        have hstarts : s.tryGetSignal = some sig' := hstep.1
        rw [hget] at hstarts
        cases hstarts
        rw [(CheckStep.of_ignored hignores hget u').mp hstep] at hrest
        exact List.prefix_cons_inj sig |>.mpr (honly _ _ hrest)

/-- SIGINT, SIGUSR1 and signal 40 are pending, the last with two in the queue, and SIGUSR1 is
blocked. -/
def ignoringState : SigState :=
  { sampleState 0 0x8000000202 with
    sigmask := 0x200
    signalQueue := fun i => if i = 8 then 2 else 0
    env := { sampleEnv 0 with sigaction := fun _ => ⟨1, 0, 0⟩ } }

theorem checkSignal_drains_sample :
    ∃ delivered t, Run (CheckStep .head) ignoringState delivered t
      ∧ delivered.count 2 = 1 ∧ delivered.count 10 = 0 ∧ delivered.count 40 = 3
      ∧ t.pending 10 = true ∧ t.queued 40 = 0 := by
  have hignores : ignoringState.Ignores := by
    intro sig _ _ hdeliver
    refine ⟨fun hkill => ?_, rfl⟩
    rw [hkill] at hdeliver
    exact absurd hdeliver (by decide)
  obtain ⟨delivered, t, hrun, -, -, hdrained⟩ := checkSignal_drains ignoringState .head hignores
  refine ⟨delivered, t, hrun, (hdrained.count 2 (by decide) (by decide)).trans (by decide),
    (hdrained.count 10 (by decide) (by decide)).trans (by decide),
    (hdrained.count 40 (by decide) (by decide)).trans (by decide),
    (hdrained.pending 10 (by decide) (by decide)).trans (by decide),
    (hdrained.queued 40 (by decide) (by decide)).trans (by decide)⟩

end MonkeyOS
