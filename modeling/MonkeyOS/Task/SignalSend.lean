import MonkeyOS.Task.Entry

/-!
# MonkeyOS — pending signals (`SignalList`, `signal_queue`)

A signal that is sent sets a bit of its task. A send to a thread counts a real-time signal whose
bit is set already in `signal_queue`; `check_signal` takes one from there when it has removed the
bit. The bit stays set while the handler runs.

* `SigState.sendThread_spec`, `SigState.removeSignal_spec` — what the two ends do to a real-time
  signal;
* `SigState.prologue_signals` — `handle_signal` itself does nothing to any;
* `Entry.step_moves` — the inversion lemma of a task's steps: an iteration of `check_signal` that
  is through removes its signal, nothing else does, and a handler comes into place only when
  its `handle_signal` begins.
-/

namespace MonkeyOS

open Lib

/-! ## Signal numbers -/

namespace Signal

/-- `SignalFlags::from_num`: all 64 bits have a name. The shift is unchecked, so only its lowest
six bits count. -/
def fromNum (signum : Nat) : Nat := (signum + 2 ^ 64 - 1) % 2 ^ 64 % 64 + 1

/-- `SignalFlags::bits` -/
def bits (sig : Nat) : BitVec 64 := BitVec.twoPow 64 (sig - 1)

/-- `SignalFlags::num` -/
def num (flags : BitVec 64) : Nat := (((List.range 64).find? flags.getLsbD).map (· + 1)).getD 0

def isRealTime (flags : BitVec 64) : Bool := flags &&& 0xFFFFFFFE00000000#64 != 0#64

def realTimeIndex (flags : BitVec 64) : Option Nat :=
  if isRealTime flags then some (num flags - 32) else none

/-- The length of `signal_queue`. -/
def REAL_TIME_SIGNAL_NUM : Nat := 33

variable {sig : Nat}

theorem fromNum_range (signum : Nat) : 1 ≤ fromNum signum ∧ fromNum signum ≤ 64 := by
  unfold fromNum
  omega

/-- The real-time signals are those from 34 on; their places in the queue are from 2 on. -/
theorem realTimeIndex_bits (hlow : 1 ≤ sig) (hhigh : sig ≤ 64) :
    realTimeIndex (bits sig) = if sig ≥ 34 then some (sig - 32) else none := by
  have hall : ∀ i : Fin 64, realTimeIndex (bits (i.1 + 1))
      = if i.1 + 1 ≥ 34 then some (i.1 + 1 - 32) else none := by decide
  have hsig := hall ⟨sig - 1, by omega⟩
  rw [Nat.sub_add_cancel hlow] at hsig
  exact hsig

theorem realTimeIndex_lt (hlow : 1 ≤ sig) (hhigh : sig ≤ 64) :
    ∀ i ∈ realTimeIndex (bits sig), i < REAL_TIME_SIGNAL_NUM := by
  intro i hi
  rw [realTimeIndex_bits hlow hhigh, Option.mem_def, Option.ite_none_right_eq_some] at hi
  obtain ⟨-, hi⟩ := hi
  cases hi
  unfold REAL_TIME_SIGNAL_NUM
  omega

end Signal

/-! ## The pending signals of a task -/

namespace SigState

def addSignal (s : SigState) (sig : Nat) : SigState := { s with signal := s.signal ||| Signal.bits sig }

def hasSig (s : SigState) (sig : Nat) : Bool := s.signal &&& Signal.bits sig != 0#64

/-- What `sys_tkill` and `sys_tgkill` do to the task they have found. -/
def sendThread (s : SigState) (sig : Nat) : SigState :=
  if !s.hasSig sig then s.addSignal sig
  else
    match Signal.realTimeIndex (Signal.bits sig) with
    | some index =>
      { s with signalQueue := Function.update s.signalQueue index (s.signalQueue index + 1) }
    | none => s

/-- The bit of a signal. -/
def pending (s : SigState) (sig : Nat) : Bool := s.signal.getLsbD (sig - 1)

/-- The count of a real-time signal in `signal_queue`. -/
def queued (s : SigState) (sig : Nat) : Nat := s.signalQueue (sig - 32)

/-- The instances of a real-time signal that are still to be handled. -/
def held (s : SigState) (sig : Nat) : Nat := (s.pending sig).toNat + s.queued sig

section

variable {s t : SigState} {sig other : Nat}

theorem getLsbD_bits (hlow : 1 ≤ sig) (hhigh : sig ≤ 64) (other : Nat) (hother : 1 ≤ other) :
    (Signal.bits other).getLsbD (sig - 1) = decide (other = sig) := by
  unfold Signal.bits
  rw [BitVec.getLsbD_twoPow, Bool.eq_iff_iff]
  simp only [Bool.and_eq_true, decide_eq_true_eq]
  omega

theorem hasSig_eq_pending (hlow : 1 ≤ sig) (hhigh : sig ≤ 64) :
    s.hasSig sig = s.pending sig := by
  have hbit := getLsbD_bits hlow hhigh sig hlow
  unfold hasSig pending
  cases hpending : s.signal.getLsbD (sig - 1) with
  | true =>
    rw [bne_iff_ne]
    intro hzero
    have hget := congrArg (fun flags => flags.getLsbD (sig - 1)) hzero
    simp [hpending, hbit] at hget
  | false =>
    have hzero : s.signal &&& Signal.bits sig = 0#64 := by
      unfold Signal.bits
      rw [BitVec.and_twoPow, hpending]
      rfl
    rw [hzero]
    rfl

theorem addSignal_pending (hlow : 1 ≤ sig) (hhigh : sig ≤ 64) (hother : 1 ≤ other) :
    (s.addSignal other).pending sig = (s.pending sig || decide (other = sig)) := by
  unfold pending addSignal
  rw [BitVec.getLsbD_or, getLsbD_bits hlow hhigh other hother]

/-- A send to a thread, as a real-time signal sees it. -/
theorem sendThread_spec (hsig : 34 ≤ sig) (hhigh : sig ≤ 64) (hother : 1 ≤ other)
    (hother' : other ≤ 64) :
    (s.sendThread other).pending sig = (s.pending sig || decide (other = sig))
      ∧ (s.sendThread other).queued sig
        = s.queued sig + if other = sig ∧ s.pending sig = true then 1 else 0 := by
  unfold sendThread
  rw [hasSig_eq_pending hother hother', Signal.realTimeIndex_bits hother hother']
  cases hpending : s.pending other with
  | false =>
    refine ⟨addSignal_pending (by omega) hhigh hother, ?_⟩
    have hnot : ¬ (other = sig ∧ s.pending sig = true) := by
      intro ⟨heq, hset⟩
      rw [heq, hset] at hpending
      cases hpending
    rw [if_neg hnot]
    rfl
  | true =>
    have hkeep : s.pending sig = (s.pending sig || decide (other = sig)) := by
      by_cases heq : other = sig
      · rw [← heq, hpending]
        rfl
      · simp [heq]
    by_cases hreal : other ≥ 34
    · simp only [Bool.not_true, Bool.false_eq_true, if_false, if_pos hreal]
      refine ⟨hkeep, ?_⟩
      unfold queued
      by_cases heq : other = sig
      · have hset : other = sig ∧ s.pending sig = true := ⟨heq, heq ▸ hpending⟩
        rw [if_pos hset, heq]
        exact Function.update_self ..
      · have hne : sig - 32 ≠ other - 32 := by omega
        rw [if_neg (fun h => heq h.1)]
        exact Function.update_of_ne hne ..
    · have hne : other ≠ sig := by omega
      simp only [Bool.not_true, Bool.false_eq_true, if_false, if_neg hreal]
      refine ⟨hkeep, ?_⟩
      rw [if_neg (fun h => hne h.1)]
      rfl

theorem removeSignal_of_queued (h : sig ≥ 34 ∧ s.signalQueue (sig - 32) > 0) :
    s.removeSignal sig = { s with
      signal := s.signal &&& ~~~(BitVec.twoPow 64 (sig - 1)) ||| BitVec.twoPow 64 (sig - 1)
      signalQueue := Function.update s.signalQueue (sig - 32)
        (s.signalQueue (sig - 32) - 1) } := if_pos h

theorem removeSignal_of_not_queued (h : ¬ (sig ≥ 34 ∧ s.signalQueue (sig - 32) > 0)) :
    s.removeSignal sig
      = { s with signal := s.signal &&& ~~~(BitVec.twoPow 64 (sig - 1)) } := if_neg h

/-- The bit of a signal after an iteration for another one, or for it: it is set again if it is a
real-time signal that is queued. -/
theorem removeSignal_pending_eq (s : SigState) (hhigh : sig ≤ 64)
    (hplace : other - 1 = sig - 1 ↔ other = sig) :
    (s.removeSignal other).pending sig
      = if other = sig then decide (sig ≥ 34 ∧ s.queued sig > 0) else s.pending sig := by
  have hwithin : sig - 1 < 64 := by omega
  have hbit : (BitVec.twoPow 64 (other - 1)).getLsbD (sig - 1) = decide (other = sig) := by
    rw [BitVec.getLsbD_twoPow, Bool.eq_iff_iff]
    simp only [Bool.and_eq_true, decide_eq_true_eq, hplace, and_iff_right_iff_imp]
    omega
  by_cases hreque : other ≥ 34 ∧ s.signalQueue (other - 32) > 0
  · rw [removeSignal_of_queued hreque]
    show (s.signal &&& ~~~(BitVec.twoPow 64 (other - 1))
      ||| BitVec.twoPow 64 (other - 1)).getLsbD (sig - 1) = _
    rw [BitVec.getLsbD_or, BitVec.getLsbD_and, BitVec.getLsbD_not, hbit, decide_eq_true hwithin]
    by_cases heq : other = sig
    · rw [heq] at hreque
      have hagain : sig ≥ 34 ∧ s.queued sig > 0 := hreque
      rw [if_pos heq, decide_eq_true heq, decide_eq_true hagain, Bool.or_true]
    · rw [if_neg heq, decide_eq_false heq]
      simp [pending]
  · rw [removeSignal_of_not_queued hreque]
    show (s.signal &&& ~~~(BitVec.twoPow 64 (other - 1))).getLsbD (sig - 1) = _
    rw [BitVec.getLsbD_and, BitVec.getLsbD_not, hbit, decide_eq_true hwithin]
    by_cases heq : other = sig
    · rw [heq] at hreque
      have hlast : ¬ (sig ≥ 34 ∧ s.queued sig > 0) := hreque
      rw [if_pos heq, decide_eq_true heq, decide_eq_false hlast]
      exact Bool.and_false _
    · rw [if_neg heq, decide_eq_false heq]
      simp [pending]

/-- An iteration takes one instance off the queue of its own signal. -/
theorem removeSignal_queued_eq (s : SigState) (hsig : 34 ≤ sig) (other : Nat) :
    (s.removeSignal other).queued sig = if other = sig then s.queued sig - 1 else s.queued sig := by
  by_cases hreque : other ≥ 34 ∧ s.signalQueue (other - 32) > 0
  · rw [removeSignal_of_queued hreque]
    show Function.update s.signalQueue (other - 32) (s.signalQueue (other - 32) - 1) (sig - 32) = _
    by_cases heq : other = sig
    · rw [if_pos heq, heq, Function.update_self]
      rfl
    have hne : sig - 32 ≠ other - 32 := by omega
    rw [if_neg heq, Function.update_of_ne hne]
    rfl
  · rw [removeSignal_of_not_queued hreque]
    show s.queued sig = _
    by_cases heq : other = sig
    · have hempty : s.queued sig = 0 := by
        unfold queued
        rw [heq] at hreque
        omega
      rw [if_pos heq, hempty]
    · rw [if_neg heq]

/-- The end of an iteration, as a real-time signal sees it. -/
theorem removeSignal_spec (s : SigState) (hsig : 34 ≤ sig) (hhigh : sig ≤ 64) (other : Nat) :
    (s.removeSignal other).pending sig
        = (if other = sig then decide (s.queued sig > 0) else s.pending sig)
      ∧ (s.removeSignal other).queued sig
        = if other = sig then s.queued sig - 1 else s.queued sig := by
  refine ⟨?_, removeSignal_queued_eq s hsig other⟩
  rw [removeSignal_pending_eq s hhigh (by omega)]
  simp only [show sig ≥ 34 from hsig, true_and]

end

/-! ## What delivery does to them -/

/-- Everything else may differ. -/
structure SameSignals (s t : SigState) : Prop where
  signal : t.signal = s.signal
  queue : t.signalQueue = s.signalQueue

variable {s t : SigState}

theorem SameSignals.pending (h : s.SameSignals t) (sig : Nat) : t.pending sig = s.pending sig := by
  unfold SigState.pending
  rw [h.signal]

theorem SameSignals.queued (h : s.SameSignals t) (sig : Nat) : t.queued sig = s.queued sig := by
  unfold SigState.queued
  rw [h.queue]

variable {u : SigState} {sig : Nat}

/-- `handle_signal` leaves the pending signals alone. -/
theorem prologue_signals (s : SigState) (sig : Signal) :
    s.SameSignals (s.prologue sig).state := by
  obtain ⟨cx, mem, exitCode, -, hstate⟩ := s.prologue_state sig
  rw [hstate]
  exact ⟨rfl, rfl⟩

theorem userContext_signals (h : s.SameSignals u) (sp : Nat) :
    s.SameSignals (u.userContext sp) := by
  obtain ⟨cx, heq⟩ := u.userContext_eq sp
  rw [heq]
  exact ⟨h.signal, h.queue⟩

/-- Only a pending signal is taken up. -/
theorem tryGetSignal_pending (h : s.tryGetSignal = some sig) : s.pending sig = true := by
  obtain ⟨i, hfind, rfl⟩ := Option.map_eq_some_iff.mp h
  have hbit := List.find?_some hfind
  rw [BitVec.getLsbD_and, Bool.and_eq_true] at hbit
  exact hbit.1

end SigState

/-! ## The iterations of `check_signal` -/

namespace Entry

/-- What a step does to the signals of its task. -/
def Removes (e e' : Entry) : Option Signal → Prop
  | none => e.sig.SameSignals e'.sig
  | some signal => ∃ u, e.sig.SameSignals u ∧ e'.sig = u.removeSignal signal

/-- A handler in place was there before, or the step has begun its `handle_signal`; the step removes
the signal whose iteration it completes, and no other. -/
structure Moves (e e' : Entry) (input : EntryInput) : Prop where
  frame : ∀ frame, e'.control.frame = some frame → e.completes input = none
    ∧ (e.control.frame = some frame ∨ e.starts input = some frame.signal)
  removes : e.Removes e' (e.completes input)

variable {e e' : Entry} {input : EntryInput} {ev : HandlerEvent} {sig : Signal}

/-- **The inversion lemma** of a task's own steps. -/
theorem step_moves (h : e.step input = some (e', ev)) (hin : ∀ t, input ≠ .outside t) :
    e.Moves e' input := by
  cases step_shape h hin with
  | own cx hstarts hcompletes hown =>
    refine ⟨fun frame h => ⟨hcompletes, .inl (hown.frame h)⟩, ?_⟩
    rw [hcompletes]
    exact ⟨rfl, rfl⟩
  | @passed place signal t ev hstarts hcompletes hleft hev =>
    refine ⟨fun _ h => (nomatch h), ?_⟩
    have hsame := e.sig.prologue_signals signal
    rw [Prologue.state_of_left hleft] at hsame
    rw [hcompletes]
    exact ⟨t, hsame, rfl⟩
  | @entered place signal t frame hstarts hcompletes hprologue =>
    have hsame := e.sig.prologue_signals signal
    rw [hprologue] at hsame
    refine ⟨fun frame' h => ⟨hcompletes, .inr ?_⟩, ?_⟩
    · cases h
      rw [hstarts, SigState.prologue_entered hprologue]
      rfl
    · rw [hcompletes]
      exact hsame
  | ended cx hstarts hframe hcompletes =>
    refine ⟨fun _ h => (nomatch h), ?_⟩
    rw [hcompletes]
    refine ⟨_, SigState.userContext_signals ?_ _, rfl⟩
    exact ⟨rfl, rfl⟩

/-- An iteration that is through was begun by the same step, or its handler was in place. -/
theorem completes_cases (h : e.completes input = some sig) :
    e.starts input = some sig ∨ ∃ frame, e.control.frame = some frame ∧ frame.signal = sig := by
  obtain ⟨s, control⟩ := e
  cases input with
  | go =>
    cases control with
    | checking place =>
      obtain ⟨signal, hsignal, hdone⟩ := Option.bind_eq_some_iff.mp h
      refine .inl (hsignal.trans ?_)
      split at hdone
      · cases hdone
      · exact hdone
    | handling place frame => exact .inr ⟨frame, rfl, Option.some.inj h⟩
    | _ => cases h
  | user trap =>
    cases trap with
    | sigreturn cx =>
      cases control with
      | handling place frame => exact .inr ⟨frame, rfl, Option.some.inj h⟩
      | _ => cases h
    | _ => cases h
  | _ => cases h

theorem starts_pending (h : e.starts input = some sig) : e.sig.pending sig = true :=
  SigState.tryGetSignal_pending (starts_cases h).2.1

end Entry

end MonkeyOS
