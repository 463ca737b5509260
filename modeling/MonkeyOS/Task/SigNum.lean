import MonkeyOS.Task.SigMask
import MonkeyOS.Task.SignalRun

/-!
# MonkeyOS — signal numbers (`SignalFlags::from_num`, `sys_sigaction`)

The calls that send a signal turn its number into a bit by a subtraction and a shift, which both wrap.
`sys_sigaction` takes the number as an index. None of them looks at it first.

* `deliver_eq_adds` — the numbers from 1 to 64 are the bits they should be;
* `deliver_zero_iff` — number 0 is signal 64;
* `send_of_reaches`, `send_of_not_reaches` — a thread of another process is not looked for;
* `ValidatesSend`, `ValidatesAction` — what the calls should do; `signum_validated_iff`, the numbers for
  which they do it;
* `signum_not_validated` — each call with a number that is none.
-/

namespace MonkeyOS

open Lib

/-! ## Sending -/

/-- One more of a real-time signal. -/
def SigState.enqueue (s : SigState) (sig : Nat) : SigState :=
  { s with
    signalQueue := Function.update s.signalQueue (sig - 32) (s.signalQueue (sig - 32) + 1) }

namespace SendCall

/-- What a call should do to its target: the bit of the signal, or one more of a real-time signal that
a thread has pending. -/
def adds (call : SendCall) (s : SigState) : SigState :=
  if call.toThread = true ∧ 34 ≤ call.signum ∧ s.pending call.signum = true then
    s.enqueue call.signum
  else { s with signal := s.signal ||| Signal.bits call.signum }

end SendCall

namespace Signal

theorem fromNum_of_range {signum : Nat} (hlow : 1 ≤ signum) (hhigh : signum ≤ 64) :
    fromNum signum = signum := by
  unfold fromNum
  omega

end Signal

namespace SigState

variable {s : SigState} {sig : Nat}

theorem or_bits_eq_iff (hlow : 1 ≤ sig) (hhigh : sig ≤ 64) :
    s.signal ||| Signal.bits sig = s.signal ↔ s.pending sig = true := by
  have hbit := getLsbD_bits hlow hhigh sig hlow
  rw [decide_eq_true rfl] at hbit
  constructor
  · intro h
    unfold pending
    rw [← h, BitVec.getLsbD_or, hbit, Bool.or_true]
  · intro h
    unfold pending at h
    apply BitVec.eq_of_getLsbD_eq
    intro i hi
    rw [BitVec.getLsbD_or]
    unfold Signal.bits
    rw [BitVec.getLsbD_twoPow]
    by_cases heq : sig - 1 = i
    · rw [← heq, h, Bool.true_or]
    · rw [decide_eq_false heq, Bool.and_false, Bool.or_false]

theorem sendThread_of_not_pending (hlow : 1 ≤ sig) (hhigh : sig ≤ 64) (h : s.pending sig = false) :
    s.sendThread sig = s.addSignal sig := by
  unfold sendThread
  rw [hasSig_eq_pending hlow hhigh, h]
  rfl

theorem sendThread_of_pending (hlow : 1 ≤ sig) (hhigh : sig ≤ 64) (h : s.pending sig = true) :
    s.sendThread sig = if 34 ≤ sig then s.enqueue sig else s := by
  unfold sendThread
  rw [hasSig_eq_pending hlow hhigh, h, Signal.realTimeIndex_bits hlow hhigh]
  by_cases hreal : 34 ≤ sig
  · rw [if_pos (show sig ≥ 34 from hreal), if_pos hreal]
    rfl
  · rw [if_neg (show ¬ sig ≥ 34 from hreal), if_neg hreal]
    rfl

/-- Sent to a thread, a real-time signal always changes something. -/
theorem sendThread_changes (hlow : 34 ≤ sig) (hhigh : sig ≤ 64) :
    ¬ s.SameSignals (s.sendThread sig) := by
  intro h
  cases hpending : s.pending sig with
  | false =>
    rw [sendThread_of_not_pending (by omega) hhigh hpending] at h
    rw [(or_bits_eq_iff (by omega) hhigh).mp h.signal] at hpending
    cases hpending
  | true =>
    rw [sendThread_of_pending (by omega) hhigh hpending, if_pos hlow] at h
    have hcount : Function.update s.signalQueue (sig - 32) (s.signalQueue (sig - 32) + 1) (sig - 32)
        = s.signalQueue (sig - 32) := congrFun h.queue (sig - 32)
    rw [Function.update_self] at hcount
    omega

theorem addSignal_same_iff (hlow : 1 ≤ sig) (hhigh : sig ≤ 64) :
    s.SameSignals (s.addSignal sig) ↔ s.pending sig = true := by
  rw [← or_bits_eq_iff hlow hhigh]
  exact ⟨fun h => h.signal, fun h => ⟨h, rfl⟩⟩

end SigState

namespace SendCall

theorem deliver_eq_adds (call : SendCall) (hlow : 1 ≤ call.signum) (hhigh : call.signum ≤ 64) :
    call.deliver = call.adds := by
  funext s
  have hthread : ∀ signum, 1 ≤ signum → signum ≤ 64 → s.sendThread (Signal.fromNum signum)
      = if true = true ∧ 34 ≤ signum ∧ s.pending signum = true then s.enqueue signum
        else { s with signal := s.signal ||| Signal.bits signum } := by
    intro signum hlow hhigh
    rw [Signal.fromNum_of_range hlow hhigh]
    cases hpending : s.pending signum with
    | false =>
      rw [SigState.sendThread_of_not_pending hlow hhigh hpending, if_neg (by simp)]
      rfl
    | true =>
      rw [SigState.sendThread_of_pending hlow hhigh hpending]
      by_cases hreal : 34 ≤ signum
      · rw [if_pos hreal, if_pos ⟨rfl, hreal, rfl⟩]
      · rw [if_neg hreal, if_neg (fun h => hreal h.2.1),
          (SigState.or_bits_eq_iff hlow hhigh).mpr hpending]
  cases call with
  | tkill tid signum => exact hthread signum hlow hhigh
  | tgkill tgid tid signum => exact hthread signum hlow hhigh
  | kill pid signum =>
    have hsignum : Signal.fromNum signum = signum := Signal.fromNum_of_range hlow hhigh
    show s.addSignal (Signal.fromNum signum) = _
    rw [hsignum]
    exact (if_neg (fun h => nomatch h.1)).symm

/-- Number 0 leaves the target alone only if it is sent by `sys_kill`, to a task that has signal 64
pending already. -/
theorem deliver_zero_iff (call : SendCall) (hzero : call.signum = 0) (s : SigState) :
    s.SameSignals (call.deliver s) ↔ call.toThread = false ∧ s.pending 64 = true := by
  have hthread : ¬ s.SameSignals (s.sendThread (Signal.fromNum 0)) :=
    SigState.sendThread_changes (by decide) (by decide)
  cases call with
  | tkill tid signum =>
    cases hzero
    exact ⟨fun h => absurd h hthread, fun h => nomatch h.1⟩
  | tgkill tgid tid signum =>
    cases hzero
    exact ⟨fun h => absurd h hthread, fun h => nomatch h.1⟩
  | kill pid signum =>
    cases hzero
    have hadd : s.SameSignals (s.addSignal (Signal.fromNum 0)) ↔ s.pending 64 = true :=
      SigState.addSignal_same_iff (by decide) (by decide)
    exact ⟨fun h => ⟨rfl, hadd.mp h⟩, fun h => hadd.mpr h.2⟩

end SendCall

namespace SigTasks

variable {s : SigTasks} {caller : Nat}

/-- The task that the call names exists (`tid2task` has it), and is in the group the call names. -/
def HasTarget (s : SigTasks) : SendCall → Prop
  | .tkill tid _ => s.registered tid = true
  | .tgkill tgid tid _ => s.registered tid = true ∧ s.processId tid = tgid
  | .kill pid _ => s.registered pid = true

/-- The caller, or a live thread of its process. -/
def LiveThread (s : SigTasks) (caller tid : Nat) : Prop :=
  tid = caller ∨ tid ∈ s.threads (s.processId caller) ∧ s.alive tid = true

/-- Where the call looks its target up: `sys_kill` among all tasks, the other two only among the
threads of the caller's process. -/
def Reaches (s : SigTasks) (caller : Nat) (call : SendCall) : Prop :=
  call.toThread = true → s.LiveThread caller call.target

theorem find?_named {p : Nat → Bool} {tid : Nat} {threads : List Nat}
    (hp : ∀ x, p x = true → x = tid) (hmem : tid ∈ threads) (htid : p tid = true) :
    threads.find? p = some tid := by
  rcases find?_thread hp threads with hnone | hsome
  · exact absurd htid (List.find?_eq_none.mp hnone tid hmem)
  · exact hsome

variable {call : SendCall}

/-- A target that is reached gets the signal. -/
theorem send_of_reaches (h : s.HasTarget call) (hreach : s.Reaches caller call) :
    s.send caller call = (s.modify call.target call.deliver, .ok 0) := by
  cases call with
  | tkill tid signum =>
    show s.sysTkill caller tid signum = _
    unfold sysTkill
    by_cases hself : tid = caller
    · simp only [if_pos hself]
      rw [← hself]
      rfl
    · have hthread : tid ∈ s.threads (s.processId caller) ∧ s.alive tid = true :=
        (hreach rfl).resolve_left hself
      simp only [if_neg hself]
      rw [find?_named (by simp) hthread.1 (by simp [hthread.2])]
      rfl
  | tgkill tgid tid signum =>
    have hgroup : s.processId tid = tgid := h.2
    show s.sysTgkill caller tgid tid signum = _
    unfold sysTgkill
    by_cases hself : tid = caller
    · -- the group named is the caller's own
      rw [hself] at hgroup
      simp only [if_pos (And.intro hself hgroup.symm)]
      rw [← hself]
      rfl
    · have hthread : tid ∈ s.threads (s.processId caller) ∧ s.alive tid = true :=
        (hreach rfl).resolve_left hself
      simp only [if_neg (fun hboth => hself (And.left hboth))]
      rw [find?_named (by simp +contextual) hthread.1 (by simp [hthread.2, hgroup])]
      rfl
  | kill pid signum =>
    show s.sysKill pid signum = _
    exact if_pos h

/-- A thread of another process is not found, whatever the number is. -/
theorem send_of_not_reaches (hreach : ¬ s.Reaches caller call) :
    ∃ errno, s.send caller call = (s, .error errno) := by
  have hno : ¬ s.LiveThread caller call.target := fun hlive => hreach (fun _ => hlive)
  have hself : call.target ≠ caller := fun heq => hno (.inl heq)
  have habsent : ∀ x ∈ s.threads (s.processId caller), ¬ (s.alive x = true ∧ x = call.target) := by
    rintro x hx ⟨halive, rfl⟩
    exact hno (.inr ⟨hx, halive⟩)
  cases call with
  | tkill tid signum =>
    refine ⟨.ECHILD, ?_⟩
    show s.sysTkill caller tid signum = _
    unfold sysTkill
    have hnone : (s.threads (s.processId caller)).find? (fun x => s.alive x && x == tid) = none := by
      rw [List.find?_eq_none]
      intro x hx
      rw [Bool.and_eq_true, beq_iff_eq]
      exact habsent x hx
    simp only [if_neg (show ¬ tid = caller from hself), hnone]
  | tgkill tgid tid signum =>
    refine ⟨.ESRCH, ?_⟩
    show s.sysTgkill caller tgid tid signum = _
    unfold sysTgkill
    have hnone : (s.threads (s.processId caller)).find?
        (fun x => s.alive x && (x == tid && s.processId x == tgid)) = none := by
      rw [List.find?_eq_none]
      intro x hx hfound
      simp only [Bool.and_eq_true, beq_iff_eq] at hfound
      exact habsent x hx ⟨hfound.1, hfound.2.1⟩
    simp only [if_neg (fun hboth : tid = caller ∧ _ => hself hboth.1), hnone]
  | kill pid signum => exact absurd (fun hthread => nomatch hthread) hreach

/-- What a call that sends a signal should do. -/
structure ValidatesSend (s : SigTasks) (caller : Nat) (call : SendCall) : Prop where
  valid : 1 ≤ call.signum → call.signum ≤ 64 →
    s.send caller call = (s.modify call.target call.adds, .ok 0)
  zero : call.signum = 0 →
    ∀ tid, (s.entries tid).sig.SameSignals ((s.send caller call).1.entries tid).sig
  large : 64 < call.signum → ∃ errno, s.send caller call = (s, .error errno)

theorem modify_same_iff (tid : Nat) (f : SigState → SigState) :
    (∀ tid', (s.entries tid').sig.SameSignals ((s.modify tid f).entries tid').sig)
      ↔ (s.entries tid).sig.SameSignals (f (s.entries tid).sig) := by
  constructor
  · intro h
    have htid := h tid
    unfold modify at htid
    rw [setEntry_self] at htid
    exact htid
  · intro h tid'
    unfold modify
    by_cases heq : tid' = tid
    · rw [heq, setEntry_self]
      exact h
    · rw [setEntry_of_ne heq]
      exact ⟨rfl, rfl⟩

/-- The numbers for which a call that reaches its target does what it should. -/
theorem validatesSend_of_reaches (htarget : s.HasTarget call) (hreach : s.Reaches caller call) :
    s.ValidatesSend caller call
      ↔ (1 ≤ call.signum ∧ call.signum ≤ 64)
        ∨ call.signum = 0 ∧ call.toThread = false
          ∧ (s.entries call.target).sig.pending 64 = true := by
  have hsend := send_of_reaches htarget hreach
  have hsame : call.signum = 0 →
      ((∀ tid, (s.entries tid).sig.SameSignals ((s.send caller call).1.entries tid).sig)
        ↔ call.toThread = false ∧ (s.entries call.target).sig.pending 64 = true) := by
    intro hzero
    rw [hsend]
    exact (modify_same_iff _ _).trans (call.deliver_zero_iff hzero _)
  constructor
  · intro h
    by_cases hrange : 1 ≤ call.signum ∧ call.signum ≤ 64
    · exact .inl hrange
    by_cases hzero : call.signum = 0
    · exact .inr ⟨hzero, (hsame hzero).mp (h.zero hzero)⟩
    -- a number above 64 is sent as another signal, with `Ok`
    obtain ⟨errno, herror⟩ := h.large (by omega)
    rw [hsend] at herror
    cases congrArg Prod.snd herror
  · rintro (⟨hlow, hhigh⟩ | ⟨hzero, hkept⟩)
    · refine ⟨fun _ _ => ?_, fun hzero => by omega, fun hlarge => by omega⟩
      rw [hsend, call.deliver_eq_adds hlow hhigh]
    · exact ⟨fun hlow => by omega, fun _ => (hsame hzero).mpr hkept, fun hlarge => by omega⟩

/-- A call that does not reach its target fails, which is right for the numbers that are none. -/
theorem validatesSend_of_not_reaches (hreach : ¬ s.Reaches caller call) :
    s.ValidatesSend caller call ↔ ¬ (1 ≤ call.signum ∧ call.signum ≤ 64) := by
  obtain ⟨errno, hsend⟩ := send_of_not_reaches hreach
  constructor
  · intro h hrange
    have hvalid := h.valid hrange.1 hrange.2
    rw [hsend] at hvalid
    cases congrArg Prod.snd hvalid
  · intro hrange
    refine ⟨fun hlow hhigh => absurd ⟨hlow, hhigh⟩ hrange, fun _ tid => ?_, fun _ => ⟨errno, hsend⟩⟩
    rw [hsend]
    exact ⟨rfl, rfl⟩

/-- The numbers for which the call does what it should, by where its target is. -/
structure NumberFits (s : SigTasks) (caller : Nat) (call : SendCall) : Prop where
  reached : s.Reaches caller call → (1 ≤ call.signum ∧ call.signum ≤ 64)
    ∨ call.signum = 0 ∧ call.toThread = false ∧ (s.entries call.target).sig.pending 64 = true
  missed : ¬ s.Reaches caller call → ¬ (1 ≤ call.signum ∧ call.signum ≤ 64)

theorem validatesSend_iff (htarget : s.HasTarget call) :
    s.ValidatesSend caller call ↔ s.NumberFits caller call := by
  constructor
  · intro h
    exact ⟨fun hreach => (validatesSend_of_reaches htarget hreach).mp h,
      fun hreach => (validatesSend_of_not_reaches hreach).mp h⟩
  · intro h
    by_cases hreach : s.Reaches caller call
    · exact (validatesSend_of_reaches htarget hreach).mpr (h.reached hreach)
    · exact (validatesSend_of_not_reaches hreach).mpr (h.missed hreach)

end SigTasks

/-! ## Actions -/

/-- `pcb.sigaction` -/
abbrev SigActions := Fin 65 → SigAction

/-- The records of user memory at their addresses, the table, and the result; `none` is a panic. -/
def sysSigaction (mem : Nat → SigAction) (actions : SigActions) (sig act oldact : Nat) :
    Option ((Nat → SigAction) × SigActions × Except Errno Nat) :=
  (if oldact ≠ 0 then
    if h : sig < 65 then some (Function.update mem oldact (actions ⟨sig, h⟩)) else none
  else some mem).bind (fun mem =>
    (if act ≠ 0 then
      if h : sig < 65 then some (Function.update actions ⟨sig, h⟩ (mem act)) else none
    else some actions).map (fun actions => (mem, actions, .ok 0)))

/-- The table afterwards is that of `SigProc.sysSigaction`, which is given the record at `act`. The old
action is stored before that record is read. -/
theorem SigProc.sysSigaction_table (p : SigProc) (mem : Nat → SigAction) (sig act oldact : Nat) :
    (MonkeyOS.sysSigaction mem (fun n => p.sigaction n) sig act oldact).map (·.2.1)
      = (p.sysSigaction sig
          (if act ≠ 0 then
            some ((if oldact ≠ 0 then Function.update mem oldact (p.sigaction sig) else mem) act)
          else none) (decide (oldact ≠ 0))).map (fun p' (n : Fin 65) => p'.sigaction n) := by
  unfold MonkeyOS.sysSigaction SigProc.sysSigaction
  -- the table has 65 entries, and `SigProc` a function of all numbers
  have htable : ∀ (h : sig < 65) (new : SigAction),
      (fun n : Fin 65 => Function.update p.sigaction sig new n)
        = Function.update (fun n : Fin 65 => p.sigaction n) ⟨sig, h⟩ new :=
    fun h new => Function.update_comp_eq_of_injective p.sigaction Fin.val_injective ⟨sig, h⟩ new
  by_cases hact : act = 0 <;> by_cases hold : oldact = 0 <;> by_cases hsig : sig < 65 <;>
    simp [hact, hold, hsig, htable]

/-- What `sys_sigaction` should do with a number that is none. -/
def ValidatesAction (mem : Nat → SigAction) (actions : SigActions) (sig act oldact : Nat) : Prop :=
  ¬ (1 ≤ sig ∧ sig ≤ 64) →
    ∃ mem' errno, sysSigaction mem actions sig act oldact = some (mem', actions, .error errno)

/-- It never fails: it returns `Ok`, or panics. -/
theorem sysSigaction_ok {mem mem' : Nat → SigAction} {actions actions' : SigActions}
    {sig act oldact : Nat} {r : Except Errno Nat}
    (h : sysSigaction mem actions sig act oldact = some (mem', actions', r)) : r = .ok 0 := by
  obtain ⟨_, -, h⟩ := Option.bind_eq_some_iff.mp h
  obtain ⟨_, -, h⟩ := Option.map_eq_some_iff.mp h
  cases h
  rfl

theorem validatesAction_iff (mem : Nat → SigAction) (actions : SigActions) (sig act oldact : Nat) :
    ValidatesAction mem actions sig act oldact ↔ 1 ≤ sig ∧ sig ≤ 64 := by
  constructor
  · intro h
    by_contra hrange
    obtain ⟨mem', errno, hcall⟩ := h hrange
    cases sysSigaction_ok hcall
  · intro hrange hnot
    exact absurd hrange hnot

/-! ## The four calls -/

/-- **Signal numbers.** A call to an existing target does what it should exactly for the numbers from 1
to 64, and for number 0 by `sys_kill` to a task that has signal 64 pending; `sys_tkill` and `sys_tgkill`
to a thread of another process, which they do not find, exactly for the other numbers.
`sys_sigaction` does exactly for the numbers from 1 to 64. -/
theorem signum_validated_iff (s : SigTasks) (caller : Nat) (call : SendCall)
    (htarget : s.HasTarget call) (mem : Nat → SigAction) (actions : SigActions)
    (sig act oldact : Nat) :
    (s.ValidatesSend caller call ↔ s.NumberFits caller call)
      ∧ (ValidatesAction mem actions sig act oldact ↔ 1 ≤ sig ∧ sig ≤ 64) :=
  ⟨SigTasks.validatesSend_iff htarget, validatesAction_iff mem actions sig act oldact⟩

/-- An action without a handler. -/
def SigAction.none : SigAction := ⟨0, 0, 0⟩

theorem signum_validated_iff_usr1 :
    sampleTasks.ValidatesSend 1 (.tkill 1 10)
      ∧ ValidatesAction (fun _ => .none) (fun _ => .none) 10 0x1000 0 := by
  obtain ⟨hsend, haction⟩ := signum_validated_iff sampleTasks 1 (.tkill 1 10) rfl
    (fun _ => .none) (fun _ => .none) 10 0x1000 0
  refine ⟨hsend.mpr ⟨fun _ => .inl ⟨by decide, by decide⟩, fun hmissed => ?_⟩,
    haction.mpr ⟨by decide, by decide⟩⟩
  exact absurd (fun _ => .inl rfl) hmissed

/-- The tasks of `sampleTasks`, each a process of its own. -/
def apartTasks : SigTasks := { sampleTasks with processId := id, threads := fun pid => [pid] }

/-- Number 0 sends signal 64, and number 65 signal 1, both with `Ok`. A valid number is not sent to a
thread of another process. `sys_sigaction` sets the action of number 0, and panics at number 65. -/
theorem signum_not_validated :
    ((sampleTasks.sysKill 1 0).2 = .ok 0
        ∧ (sampleTasks.entries 1).sig.pending 64 = false
        ∧ ((sampleTasks.sysKill 1 0).1.entries 1).sig.pending 64 = true)
      ∧ ((sampleTasks.sysTkill 1 1 65).2 = .ok 0
        ∧ (sampleTasks.entries 1).sig.pending 1 = false
        ∧ ((sampleTasks.sysTkill 1 1 65).1.entries 1).sig.pending 1 = true)
      ∧ ((sampleTasks.sysTgkill 1 1 1 65).2 = .ok 0
        ∧ ((sampleTasks.sysTgkill 1 1 1 65).1.entries 1).sig.pending 1 = true)
      ∧ (apartTasks.registered 2 = true ∧ apartTasks.sysTkill 1 2 10 = (apartTasks, .error .ECHILD)
        ∧ apartTasks.sysTgkill 1 2 2 10 = (apartTasks, .error .ESRCH))
      ∧ ((sysSigaction (fun _ => ⟨0x10000, 0, 0⟩) (fun _ => .none) 0 0x1000 0).map
          (fun r => ((r.2.1 0).handler, r.2.2.isOk)) = some (0x10000, true))
      ∧ (sysSigaction (fun _ => .none) (fun _ => .none) 65 0x1000 0).isNone = true := by
  refine ⟨⟨rfl, ?_, ?_⟩, ⟨rfl, ?_, ?_⟩, ⟨rfl, ?_⟩, ⟨rfl, rfl, rfl⟩, ?_, ?_⟩ <;> decide

end MonkeyOS
