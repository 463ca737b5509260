import MonkeyOS.Task.SignalSend

/-!
# MonkeyOS — sending signals (`sys_kill`, `sys_tkill`, `sys_tgkill`)

The tasks of the system run their `entry_point`s (`Entry.step`) and send signals to each other, in
any order.

`SigStep.cases` is how one task and one signal see a step: it is sent to it, or the task moves, or
nothing of theirs changes. The first result that comes from it is that real-time signals are
counted (`realTime_counted`): every send is an iteration of `check_signal`, or still held.
-/

namespace MonkeyOS

open Lib

/-- The tasks, and what the calls look them up in. -/
structure SigTasks where
  entries : Nat → Entry
  /-- the `Weak` reference to the task can be upgraded -/
  alive : Nat → Bool
  /-- `tid2task` has it, and it is a user task -/
  registered : Nat → Bool
  /-- the process of a task -/
  processId : Nat → Nat
  /-- `pcb.threads` of a process -/
  threads : Nat → List Nat

inductive SendCall where
  | tkill (tid signum : Nat)
  | tgkill (tgid tid signum : Nat)
  | kill (pid signum : Nat)

namespace SendCall

/-- The task it sends to. -/
def target : SendCall → Nat
  | .tkill tid _ => tid
  | .tgkill _ tid _ => tid
  | .kill pid _ => pid

def signum : SendCall → Nat
  | .tkill _ signum => signum
  | .tgkill _ _ signum => signum
  | .kill _ signum => signum

def signal (call : SendCall) : Nat := Signal.fromNum call.signum

/-- It counts real-time signals. -/
def toThread : SendCall → Bool
  | .kill _ _ => false
  | _ => true

/-- What it does to the task it has found. -/
def deliver : SendCall → SigState → SigState
  | .tkill _ signum, s => s.sendThread (Signal.fromNum signum)
  | .tgkill _ _ signum, s => s.sendThread (Signal.fromNum signum)
  | .kill _ signum, s => s.addSignal (Signal.fromNum signum)

/-- A call, as a real-time signal of its target sees it. -/
theorem deliver_spec (call : SendCall) (s : SigState) {sig : Nat} (hsig : 34 ≤ sig)
    (hhigh : sig ≤ 64) :
    (call.deliver s).pending sig = (s.pending sig || decide (call.signal = sig))
      ∧ (call.deliver s).queued sig = s.queued sig
        + if call.toThread = true ∧ call.signal = sig ∧ s.pending sig = true then 1 else 0 := by
  have hthread : ∀ signum, (s.sendThread (Signal.fromNum signum)).pending sig
        = (s.pending sig || decide (Signal.fromNum signum = sig))
      ∧ (s.sendThread (Signal.fromNum signum)).queued sig = s.queued sig
        + if true = true ∧ Signal.fromNum signum = sig ∧ s.pending sig = true then 1 else 0 := by
    intro signum
    obtain ⟨hlow, hup⟩ := Signal.fromNum_range signum
    simp only [true_and]
    exact SigState.sendThread_spec hsig hhigh hlow hup
  cases call with
  | tkill tid signum => exact hthread signum
  | tgkill tgid tid signum => exact hthread signum
  | kill pid signum =>
    obtain ⟨hlow, -⟩ := Signal.fromNum_range signum
    refine ⟨SigState.addSignal_pending (by omega) hhigh hlow, ?_⟩
    rw [if_neg (fun h => nomatch h.1)]
    rfl

end SendCall

namespace SigTasks

def setEntry (s : SigTasks) (tid : Nat) (e : Entry) : SigTasks :=
  { s with entries := Function.update s.entries tid e }

@[simp] theorem setEntry_self (s : SigTasks) (tid : Nat) (e : Entry) :
    (s.setEntry tid e).entries tid = e := Function.update_self ..

theorem setEntry_of_ne {tid tid' : Nat} (h : tid' ≠ tid) (s : SigTasks) (e : Entry) :
    (s.setEntry tid e).entries tid' = s.entries tid' := Function.update_of_ne h ..

def modify (s : SigTasks) (tid : Nat) (f : SigState → SigState) : SigTasks :=
  s.setEntry tid ⟨f (s.entries tid).sig, (s.entries tid).control⟩

def sysTkill (s : SigTasks) (self tid signum : Nat) : SigTasks × Except Errno Nat :=
  let child := (s.threads (s.processId self)).find? (fun x => s.alive x && x == tid)
  let child := if tid = self then some self else child
  match child with
  | some child => (s.modify child (·.sendThread (Signal.fromNum signum)), .ok 0)
  | none => (s, .error .ECHILD)

def sysTgkill (s : SigTasks) (self tgid tid signum : Nat) : SigTasks × Except Errno Nat :=
  let thread :=
    if tid = self ∧ tgid = s.processId self then some self
    else (s.threads (s.processId self)).find?
      (fun x => s.alive x && (x == tid && s.processId x == tgid))
  match thread with
  | some thread => (s.modify thread (·.sendThread (Signal.fromNum signum)), .ok 0)
  | none => (s, .error .ESRCH)

def sysKill (s : SigTasks) (pid signum : Nat) : SigTasks × Except Errno Nat :=
  if s.registered pid then (s.modify pid (·.addSignal (Signal.fromNum signum)), .ok 0)
  else (s, .error .ESRCH)

def send (s : SigTasks) (self : Nat) : SendCall → SigTasks × Except Errno Nat
  | .tkill tid signum => s.sysTkill self tid signum
  | .tgkill tgid tid signum => s.sysTgkill self tgid tid signum
  | .kill pid signum => s.sysKill pid signum

theorem find?_thread {p : Nat → Bool} {tid : Nat} (hp : ∀ x, p x = true → x = tid)
    (threads : List Nat) : threads.find? p = none ∨ threads.find? p = some tid := by
  cases hfind : threads.find? p with
  | none => exact .inl rfl
  | some thread =>
    rw [hp thread (List.find?_some hfind)]
    exact .inr rfl

/-- The signal arrives at the task the call names, or the call fails. -/
theorem send_cases (s : SigTasks) (self : Nat) (call : SendCall) :
    s.send self call = (s.modify call.target call.deliver, .ok 0)
      ∨ ∃ errno, s.send self call = (s, .error errno) := by
  cases call with
  | tkill tid signum =>
    show s.sysTkill self tid signum = _ ∨ ∃ errno, s.sysTkill self tid signum = _
    unfold sysTkill
    simp only
    by_cases hself : tid = self
    · rw [if_pos hself, ← hself]
      exact .inl rfl
    rw [if_neg hself]
    have hnamed : ∀ x, (s.alive x && x == tid) = true → x = tid := by simp
    rcases find?_thread hnamed (s.threads (s.processId self)) with hfind | hfind
    · rw [hfind]
      exact .inr ⟨_, rfl⟩
    · rw [hfind]
      exact .inl rfl
  | tgkill tgid tid signum =>
    show s.sysTgkill self tgid tid signum = _ ∨ ∃ errno, s.sysTgkill self tgid tid signum = _
    unfold sysTgkill
    simp only
    by_cases hself : tid = self ∧ tgid = s.processId self
    · rw [if_pos hself, ← hself.1]
      exact .inl rfl
    rw [if_neg hself]
    have hnamed : ∀ x, (s.alive x && (x == tid && s.processId x == tgid)) = true → x = tid := by
      simp +contextual
    rcases find?_thread hnamed (s.threads (s.processId self)) with hfind | hfind
    · rw [hfind]
      exact .inr ⟨_, rfl⟩
    · rw [hfind]
      exact .inl rfl
  | kill pid signum =>
    show s.sysKill pid signum = _ ∨ ∃ errno, s.sysKill pid signum = _
    unfold sysKill
    split
    · exact .inl rfl
    · exact .inr ⟨_, rfl⟩

end SigTasks

/-! ## Interleavings -/

inductive SigEvent where
  /-- a task sends, with this result -/
  | called (self : Nat) (call : SendCall) (res : Except Errno Nat)
  /-- a task moves; the signal whose `handle_signal` this begins, and the one whose iteration of
  `check_signal` it completes -/
  | stepped (tid : Nat) (input : EntryInput) (started done : Option Signal)
  /-- tasks come and go -/
  | registry (alive registered : Nat → Bool) (processId : Nat → Nat) (threads : Nat → List Nat)

inductive SigStep : SigTasks → SigEvent → SigTasks → Prop where
  | called {s t : SigTasks} {self : Nat} {call : SendCall} {res : Except Errno Nat}
      (h : s.send self call = (t, res)) : SigStep s (.called self call res) t
  | stepped {s : SigTasks} {tid : Nat} {input : EntryInput} {e : Entry} {ev : HandlerEvent}
      (h : (s.entries tid).step input = some (e, ev)) :
      SigStep s
        (.stepped tid input ((s.entries tid).starts input) ((s.entries tid).completes input))
        (s.setEntry tid e)
  | registry {s : SigTasks} (alive registered : Nat → Bool) (processId : Nat → Nat)
      (threads : Nat → List Nat) :
      SigStep s (.registry alive registered processId threads)
        ⟨s.entries, alive, registered, processId, threads⟩

namespace SigEvent

/-- A signal is sent to a task. -/
def sends (target sig : Nat) : SigEvent → Bool
  | .called _ call (.ok _) => decide (call.target = target ∧ call.signal = sig)
  | _ => false

/-- A task begins `handle_signal` for a signal. -/
def starts (target sig : Nat) : SigEvent → Bool
  | .stepped tid _ started _ => decide (tid = target ∧ started = some sig)
  | _ => false

/-- A task completes an iteration of `check_signal` for a signal. -/
def completes (target sig : Nat) : SigEvent → Bool
  | .stepped tid _ _ done => decide (tid = target ∧ done = some sig)
  | _ => false

/-- The signal is sent to the task by the three calls alone: what else changes the task leaves
its bit and its count as they are. -/
def Apart (target sig : Nat) (s : SigTasks) : SigEvent → Prop
  | .stepped tid (.outside u) _ _ => tid = target →
    u.pending sig = (s.entries tid).sig.pending sig
      ∧ u.queued sig = (s.entries tid).sig.queued sig
  | _ => True

/-- No `sys_kill` sends the signal to the task. -/
def ToThread (target sig : Nat) : SigEvent → Prop
  | .called _ call _ => call.target = target → call.signal = sig → call.toThread = true
  | _ => True

end SigEvent

/-- A step of someone else's, as far as one task and one signal are concerned. -/
structure Entry.Untouched (e e' : Entry) (sig : Nat) : Prop where
  control : e'.control = e.control
  pending : e'.sig.pending sig = e.sig.pending sig
  queued : e'.sig.queued sig = e.sig.queued sig

namespace SigStep

variable {s t : SigTasks} {ev : SigEvent} {target sig : Nat}

/-- **The inversion lemma.** -/
theorem cases (h : SigStep s ev t) (hapart : ev.Apart target sig s) :
    (∃ self call, ev = .called self call (.ok 0) ∧ call.target = target
        ∧ t.entries target = ⟨call.deliver (s.entries target).sig, (s.entries target).control⟩)
      ∨ (∃ input, ev = .stepped target input ((s.entries target).starts input)
          ((s.entries target).completes input)
        ∧ (s.entries target).Moves (t.entries target) input)
      ∨ ((s.entries target).Untouched (t.entries target) sig
        ∧ ev.sends target sig = false ∧ ev.starts target sig = false
        ∧ ev.completes target sig = false) := by
  have hsame : (s.entries target).Untouched (s.entries target) sig := ⟨rfl, rfl, rfl⟩
  cases h with
  | @called t self call res hsend =>
    rcases s.send_cases self call with heq | ⟨errno, heq⟩
    · rw [heq] at hsend
      cases hsend
      by_cases htarget : call.target = target
      · refine .inl ⟨self, call, rfl, htarget, ?_⟩
        rw [← htarget]
        exact s.setEntry_self _ _
      · refine .inr (.inr ⟨?_, ?_, rfl, rfl⟩)
        · unfold SigTasks.modify
          rw [SigTasks.setEntry_of_ne (Ne.symm htarget)]
          exact hsame
        · simp [SigEvent.sends, htarget]
    · rw [heq] at hsend
      cases hsend
      exact .inr (.inr ⟨hsame, rfl, rfl, rfl⟩)
  | @stepped tid input e ev hstep =>
    by_cases htid : tid = target
    · subst htid
      rw [SigTasks.setEntry_self]
      by_cases hout : ∃ u, input = .outside u
      · -- from outside: this signal is left alone
        obtain ⟨u, rfl⟩ := hout
        cases hstep
        obtain ⟨hpending, hqueued⟩ := hapart rfl
        refine .inr (.inr ⟨⟨rfl, hpending, hqueued⟩, rfl, ?_, ?_⟩)
        · simp [SigEvent.starts, Entry.starts]
        · simp [SigEvent.completes, Entry.completes]
      · exact .inr (.inl ⟨input, rfl, Entry.step_moves hstep (fun u heq => hout ⟨u, heq⟩)⟩)
    · rw [SigTasks.setEntry_of_ne (Ne.symm htid)]
      refine .inr (.inr ⟨hsame, rfl, ?_, ?_⟩)
      · simp [SigEvent.starts, htid]
      · simp [SigEvent.completes, htid]
  | registry alive registered processId threads => exact .inr (.inr ⟨hsame, rfl, rfl, rfl⟩)

end SigStep

/-! ## Real-time signals are counted -/

/-- The signal of the handler in place is pending. -/
def Entry.HandlerPending (e : Entry) (sig : Nat) : Prop :=
  ∀ frame, e.control.frame = some frame → frame.signal = sig → e.sig.pending sig = true

/-- A task as it is created. -/
structure Entry.New (e : Entry) : Prop where
  control : e.control = .checking .head
  signal : e.sig.signal = 0#64
  queue : e.sig.signalQueue = fun _ => 0

section Counting

variable {s t : SigTasks} {ev : SigEvent} {target sig : Nat}

/-- Only an iteration that is through takes the bit, and it leaves no handler in place. -/
theorem Entry.Moves.pending {e e' : Entry} {input : EntryInput} (h : e.Moves e' input)
    (hsig : 34 ≤ sig) (hhigh : sig ≤ 64) :
    e'.sig.pending sig = (if e.completes input = some sig then decide (e.sig.queued sig > 0)
        else e.sig.pending sig)
      ∧ e'.sig.queued sig = if e.completes input = some sig then e.sig.queued sig - 1
        else e.sig.queued sig := by
  have hremoves := h.removes
  cases hdone : e.completes input with
  | none =>
    rw [hdone] at hremoves
    rw [if_neg nofun, if_neg nofun]
    exact ⟨hremoves.pending sig, hremoves.queued sig⟩
  | some signal =>
    rw [hdone] at hremoves
    obtain ⟨u, hsame, hsig'⟩ := hremoves
    obtain ⟨hpending, hqueued⟩ := u.removeSignal_spec hsig hhigh signal
    rw [hsig', hpending, hqueued, hsame.pending, hsame.queued]
    simp only [Option.some.injEq, and_self]

theorem SigStep.handlerPending (hsig : 34 ≤ sig) (hhigh : sig ≤ 64) (h : SigStep s ev t)
    (hapart : ev.Apart target sig s) (hpending : (s.entries target).HandlerPending sig) :
    (t.entries target).HandlerPending sig := by
  intro frame hframe hsignal
  rcases h.cases hapart with ⟨self, call, -, -, heq⟩ | ⟨input, -, hmoves⟩ | ⟨hsame, -⟩
  · rw [heq] at hframe ⊢
    rw [(call.deliver_spec _ hsig hhigh).1, hpending frame hframe hsignal]
    rfl
  · -- a handler is still in place, so the step has completed no iteration
    obtain ⟨hdone, hbefore⟩ := hmoves.frame frame hframe
    rw [(hmoves.pending hsig hhigh).1, hdone, if_neg nofun]
    rcases hbefore with hold | hstart
    · exact hpending frame hold hsignal
    · rw [hsignal] at hstart
      exact Entry.starts_pending hstart
  · rw [hsame.pending]
    rw [hsame.control] at hframe
    exact hpending frame hframe hsignal

/-- The first send sets the bit, the later ones are queued. -/
theorem SendCall.deliver_held (call : SendCall) (s : SigState) (hsig : 34 ≤ sig) (hhigh : sig ≤ 64)
    (hthread : call.signal = sig → call.toThread = true) :
    (call.deliver s).held sig = s.held sig + (decide (call.signal = sig)).toNat := by
  obtain ⟨hset, hcount⟩ := call.deliver_spec s hsig hhigh
  unfold SigState.held
  rw [hset, hcount]
  by_cases hsignal : call.signal = sig
  · have hcounts := hthread hsignal
    cases s.pending sig
    · simp only [hsignal, decide_true, Bool.or_true, Bool.toNat_true, Bool.toNat_false,
        Bool.false_eq_true, and_false, if_false]
      omega
    · simp only [hsignal, hcounts, decide_true, Bool.or_true, Bool.toNat_true, and_self, if_true]
      omega
  · simp [hsignal]

/-- An iteration that is through takes one, if the bit was set. -/
theorem Entry.Moves.held {e e' : Entry} {input : EntryInput} (h : e.Moves e' input)
    (hsig : 34 ≤ sig) (hhigh : sig ≤ 64) (hpending : e.HandlerPending sig) :
    e.sig.held sig = (decide (e.completes input = some sig)).toNat + e'.sig.held sig := by
  obtain ⟨hset, hcount⟩ := h.pending hsig hhigh
  unfold SigState.held
  rw [hset, hcount]
  by_cases hdone : e.completes input = some sig
  · -- the iteration began with the bit set, and nothing has taken it since
    have hbit : e.sig.pending sig = true := by
      rcases Entry.completes_cases hdone with hstart | ⟨frame, hframe, heq⟩
      · exact Entry.starts_pending hstart
      · exact hpending frame hframe heq
    rw [if_pos hdone, if_pos hdone, hbit]
    by_cases hqueue : e.sig.queued sig > 0
    · simp only [hdone, hqueue, decide_true, Bool.toNat_true]
      omega
    · simp only [hdone, hqueue, decide_true, decide_false, Bool.toNat_true, Bool.toNat_false]
      omega
  · simp [hdone]

/-- **The step lemma.** A send adds one to what is held, an iteration takes one. -/
theorem SigStep.held (hsig : 34 ≤ sig) (hhigh : sig ≤ 64) (h : SigStep s ev t)
    (hapart : ev.Apart target sig s) (hthread : ev.ToThread target sig)
    (hpending : (s.entries target).HandlerPending sig) :
    (s.entries target).sig.held sig + (ev.sends target sig).toNat
      = (ev.completes target sig).toNat + (t.entries target).sig.held sig := by
  rcases h.cases hapart with ⟨self, call, rfl, htarget, heq⟩ | ⟨input, rfl, hmoves⟩
    | ⟨hsame, hsends, -, hdone⟩
  · have hsends : SigEvent.sends target sig (.called self call (.ok 0))
        = decide (call.signal = sig) := by
      simp [SigEvent.sends, htarget]
    have hdone : SigEvent.completes target sig (.called self call (.ok 0)) = false := rfl
    rw [heq, hsends, hdone, Bool.toNat_false, Nat.zero_add]
    exact (call.deliver_held _ hsig hhigh (hthread htarget)).symm
  · have hsends : SigEvent.sends target sig (.stepped target input
        ((s.entries target).starts input) ((s.entries target).completes input)) = false := rfl
    have hdone : SigEvent.completes target sig (.stepped target input
        ((s.entries target).starts input) ((s.entries target).completes input))
        = decide ((s.entries target).completes input = some sig) := by
      simp [SigEvent.completes]
    rw [hsends, hdone, Bool.toNat_false, Nat.add_zero]
    exact hmoves.held hsig hhigh hpending
  · unfold SigState.held
    rw [hsends, hdone, hsame.pending, hsame.queued, Bool.toNat_false, Nat.zero_add, Nat.add_zero]

end Counting

/-- In every interleaving, the sends of a real-time signal to a task since its creation are the
iterations of `check_signal` it has completed for it, and those it still holds. -/
theorem realTime_counted {s t : SigTasks} {evs : List SigEvent} {target sig : Nat}
    (hsig : 34 ≤ sig ∧ sig ≤ 64) (hnew : (s.entries target).New)
    (hrun : Run (fun s ev t => SigStep s ev t ∧ ev.Apart target sig s ∧ ev.ToThread target sig)
      s evs t) :
    ∃ index, Signal.realTimeIndex (Signal.bits sig) = some index
      ∧ index < Signal.REAL_TIME_SIGNAL_NUM
      ∧ evs.countP (SigEvent.sends target sig) = evs.countP (SigEvent.completes target sig)
        + (if (t.entries target).sig.signal.getLsbD (sig - 1) then 1 else 0)
        + (t.entries target).sig.signalQueue index := by
  have hindex : Signal.realTimeIndex (Signal.bits sig) = some (sig - 32) := by
    rw [Signal.realTimeIndex_bits (by omega) hsig.2, if_pos hsig.1]
  have hstart : (s.entries target).HandlerPending sig := by
    intro frame hframe
    rw [hnew.control] at hframe
    cases hframe
  -- a handler that ends finds its bit set, so what the steps take out was put in
  have hwithin := hrun.within
    (fun _ _ _ hpending hstep => hstep.1.handlerPending hsig.1 hsig.2 hstep.2.1 hpending) hstart
  have hbalance := hwithin.balance (fun s => (s.entries target).sig.held sig)
    (fun _ _ _ hstep => hstep.2.1.held hsig.1 hsig.2 hstep.2.2.1 hstep.2.2.2 hstep.1)
  have hempty : (s.entries target).sig.held sig = 0 := by
    unfold SigState.held SigState.pending SigState.queued
    rw [hnew.signal, hnew.queue]
    simp
  refine ⟨sig - 32, hindex,
    Signal.realTimeIndex_lt (by omega) hsig.2 _ (Option.mem_def.mpr hindex), ?_⟩
  rw [hempty, Nat.zero_add] at hbalance
  rw [hbalance, Nat.add_assoc]
  unfold SigState.held SigState.pending SigState.queued
  cases (t.entries target).sig.signal.getLsbD (sig - 1) <;> rfl

/-- One task that has handlers, and is the only thread of its process. -/
def sampleTasks : SigTasks :=
  ⟨fun _ => ⟨sampleState 0x20010 0, .checking .head⟩, fun _ => true, fun _ => true, fun _ => 1,
    fun _ => [1]⟩

theorem sampleTasks_new (tid : Nat) : (sampleTasks.entries tid).New := ⟨rfl, rfl, rfl⟩

/-- Signal 34 is sent, sent again while its handler runs, and the handler returns. -/
theorem realTime_counted_twice :
    ∃ t : SigTasks, Run (fun s ev t => SigStep s ev t ∧ ev.Apart 1 34 s ∧ ev.ToThread 1 34)
        sampleTasks [.called 1 (.tkill 1 34) (.ok 0), .stepped 1 .go (some 34) none,
          .called 1 (.tgkill 1 1 34) (.ok 0),
          .stepped 1 (.user (.sigreturn (sampleCx 0x20010))) none (some 34)] t
      ∧ 2 = 1 + (if (t.entries 1).sig.signal.getLsbD 33 then 1 else 0)
        + (t.entries 1).sig.signalQueue 2 := by
  have hrun : Run (fun s ev t => SigStep s ev t ∧ ev.Apart 1 34 s ∧ ev.ToThread 1 34)
      sampleTasks [.called 1 (.tkill 1 34) (.ok 0), .stepped 1 .go (some 34) none,
        .called 1 (.tgkill 1 1 34) (.ok 0),
        .stepped 1 (.user (.sigreturn (sampleCx 0x20010))) none (some 34)] _ :=
    .cons ⟨.called rfl, trivial, fun _ _ => rfl⟩
      (.cons ⟨.stepped rfl, trivial, trivial⟩
        (.cons ⟨.called rfl, trivial, fun _ _ => rfl⟩
          (.cons ⟨.stepped rfl, trivial, trivial⟩ (.nil _))))
  obtain ⟨index, hindex, -, hcount⟩ := realTime_counted ⟨by decide, by decide⟩
    (sampleTasks_new 1) hrun
  have heq : index = 2 := by
    rw [Signal.realTimeIndex_bits (by decide) (by decide)] at hindex
    exact (Option.some.inj hindex).symm
  rw [heq] at hcount
  exact ⟨_, hrun, hcount⟩

end MonkeyOS
