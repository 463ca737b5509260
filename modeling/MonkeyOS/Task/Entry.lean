import MonkeyOS.Lib.Run
import MonkeyOS.Task.Signal

/-!
# MonkeyOS — the life of a thread (`entry_point`)

A thread loops: pending signals, then user code up to its next system call. While that call is
pending, `future::or` polls it first and then a second arm, which looks for signals in its turn
and runs their handlers. A handler runs on the thread's only trap frame, and may block in a
system call of its own.

`Entry.step` takes the thread from one point where something is decided outside of it to the next:
what user code does, whether the call that is polled is ready, and what other threads and
interrupts change meanwhile. What such a step can do is said once, in `Entry.step_shape`.

A step also says what became of the handlers, which `HandlerSpec` judges: what a handler
interrupted comes back when it ends, and nothing is written over it.

The second arm is dropped when the first one is ready, a suspended handler with it
(`entry_clobbers_handler`). So the specification is met by the runs in which this does not happen,
and in which every handler that is set up has a way to return (`entry_refines_handlerSpec`).
-/

namespace MonkeyOS

open Lib

/-- Where `check_signal` runs: at the head of the loop, or in the second arm of `future::or`. -/
inductive Place where
  | head
  | armTwo
  deriving DecidableEq

/-- Where the thread is. -/
inductive Control where
  /-- `check_signal` looks for the next signal -/
  | checking (place : Place)
  /-- the loop of `handle_signal`, before it runs the handler on -/
  | handling (place : Place) (frame : SigFrame)
  /-- the handler's own system call is polled -/
  | handlerCall (place : Place) (frame : SigFrame)
  /-- the first arm runs user code -/
  | running
  /-- the first arm polls its call for the first time -/
  | calling
  /-- a later poll of the two arms begins; the second holds a suspended handler or none -/
  | pollOne (armTwo : Option SigFrame)
  | finished

/-- The handler whose context is in the trap frame. -/
def Control.frame : Control → Option SigFrame
  | .handling _ frame => some frame
  | .handlerCall _ frame => some frame
  | .pollOne armTwo => armTwo
  | _ => none

structure Entry where
  sig : SigState
  control : Control

/-- What `run_user_task` comes back with. -/
inductive UserTrap where
  | other (cx : TrapFrame)
  | sigreturn (cx : TrapFrame)
  | syscall (cx : TrapFrame)

/-- What is decided outside of `entry_point`. -/
inductive EntryInput where
  /-- other threads, interrupts and the system calls themselves: everything but the trap frame -/
  | outside (sig : SigState)
  | go
  | user (trap : UserTrap)
  /-- the system call that is polled is ready, with this result -/
  | ready (ret : Nat)
  | pending

/-- What a handler interrupted. -/
structure Interrupted where
  signal : Signal
  cx : TrapFrame
  sigmask : BitVec 64

def SigFrame.interrupted (frame : SigFrame) : Interrupted :=
  ⟨frame.signal, frame.storeCx, frame.taskMask⟩

/-- What a step means for the handlers. -/
inductive HandlerEvent where
  | quiet
  /-- the trap frame is now the handler's -/
  | entered (i : Interrupted)
  /-- the handler is through, and the thread goes on with this; the handler had changed its saved
  context, the bit of the signal is still pending, the signal was queued again -/
  | ended (i : Interrupted) (changed pending requeued : Bool)
  /-- `handle_signal` returned with the handler's stack and program counter in the trap frame -/
  | abandoned (exited : Bool)
  /-- the result of the thread's own call was written into the trap frame -/
  | resumed
  /-- the same, over the trap frame of a handler, which was dropped -/
  | clobbered

namespace Entry

/-- `check_thread_exit` after the two arms. -/
def afterOr (s : SigState) : Entry :=
  ⟨s, if s.checkThreadExit.isSome then .finished else .checking .head⟩

/-- `handle_signal` ends, `check_signal` removes the bit and looks again. -/
def endHandler (s : SigState) (place : Place) (frame : SigFrame) : Entry × HandlerEvent :=
  let u := (s.putBack frame).userContext frame.sp
  let t := u.removeSignal frame.signal
  (⟨t, .checking place⟩,
    .ended ⟨frame.signal, t.cx, t.sigmask⟩ (decide (¬ s.env.Holds frame.sp frame.storeCx))
      (t.signal.getLsbD (frame.signal - 1))
      (decide (frame.signal ≥ 34 ∧ u.signalQueue (frame.signal - 32) > 0)))

/-- `check_signal` looks for a signal. -/
def check (s : SigState) (place : Place) : Entry × HandlerEvent :=
  match s.tryGetSignal with
  | some signal =>
    match s.prologue signal with
    | .returned t => (⟨t.removeSignal signal, .checking place⟩, .quiet)
    | .abandoned t =>
      (⟨t.removeSignal signal, .checking place⟩, .abandoned t.checkThreadExit.isSome)
    | .entered t frame =>
      (⟨t, .handling place frame⟩, .entered ⟨signal, s.cx, s.sigmask⟩)
  | none =>
    if s.checkThreadExit.isSome then (⟨s, .finished⟩, .quiet)
    else
      match place with
      | .head => (⟨s, .running⟩, .quiet)
      | .armTwo => (⟨s, .pollOne none⟩, .quiet)

/-- User code has run, for the first arm or for a handler. -/
def user (s : SigState) (trap : UserTrap) : Control → Option (Entry × HandlerEvent)
  | .running =>
    match trap with
    | .other cx => some (afterOr { s with cx := cx }, .quiet)
    | .sigreturn cx => some (⟨{ s with cx := cx }, .finished⟩, .quiet)
    | .syscall cx => some (⟨{ s with cx := cx.syscallOk }, .calling⟩, .quiet)
  | .handling place frame =>
    if s.exitCode.isSome then none
    else
      match trap with
      | .other cx => some (⟨{ s with cx := cx }, .handling place frame⟩, .quiet)
      | .sigreturn cx => some (endHandler { s with cx := cx } place frame)
      | .syscall cx => some (⟨{ s with cx := cx.syscallOk }, .handlerCall place frame⟩, .quiet)
  | _ => none

/-- The call that is polled is ready: its result goes into the trap frame. -/
def ready (s : SigState) (ret : Nat) : Control → Option (Entry × HandlerEvent)
  | .calling => some (afterOr { s with cx := s.cx.setRet ret }, .resumed)
  | .pollOne none => some (afterOr { s with cx := s.cx.setRet ret }, .resumed)
  -- the first arm is ready: the second one is dropped as it is
  | .pollOne (some _) => some (afterOr { s with cx := s.cx.setRet ret }, .clobbered)
  | .handlerCall place frame =>
    some (⟨{ s with cx := s.cx.setRet ret }, .handling place frame⟩, .quiet)
  | _ => none

/-- The call that is polled is pending: the second arm is polled, or the poll is over. -/
def pending (s : SigState) : Control → Option (Entry × HandlerEvent)
  | .calling => some (⟨s, .checking .armTwo⟩, .quiet)
  | .pollOne none => some (⟨s, .checking .armTwo⟩, .quiet)
  | .pollOne (some frame) => some (⟨s, .handlerCall .armTwo frame⟩, .quiet)
  | .handlerCall .head frame => some (⟨s, .handlerCall .head frame⟩, .quiet)
  | .handlerCall .armTwo frame => some (⟨s, .pollOne (some frame)⟩, .quiet)
  | _ => none

def go (s : SigState) : Control → Option (Entry × HandlerEvent)
  | .checking place => some (check s place)
  -- the loop of `handle_signal` breaks once the process has an exit code
  | .handling place frame => if s.exitCode.isSome then some (endHandler s place frame) else none
  | _ => none

def step (e : Entry) : EntryInput → Option (Entry × HandlerEvent)
  | .outside t => some (⟨{ t with cx := e.sig.cx }, e.control⟩, .quiet)
  | .go => go e.sig e.control
  | .user trap => user e.sig trap e.control
  | .ready ret => ready e.sig ret e.control
  | .pending => pending e.sig e.control

end Entry

/-! ## What a step can do -/

namespace Entry

/-- The signal whose `handle_signal` a step begins. -/
def starts (e : Entry) : EntryInput → Option Signal
  | .go =>
    match e.control with
    | .checking _ => e.sig.tryGetSignal
    | _ => none
  | _ => none

/-- The signal whose iteration of `check_signal` a step completes. -/
def completes (e : Entry) : EntryInput → Option Signal
  | .go =>
    match e.control with
    | .checking _ =>
      e.sig.tryGetSignal.bind (fun signal =>
        match e.sig.prologue signal with
        | .entered _ _ => none
        | _ => some signal)
    | .handling _ frame => some frame.signal
    | _ => none
  | .user (.sigreturn _) =>
    match e.control with
    | .handling _ frame => some frame.signal
    | _ => none
  | _ => none

/-- What a step that begins and completes no iteration means for the handler in place. -/
inductive OwnEvent (e : Entry) (input : EntryInput) (control : Control) : HandlerEvent → Prop where
  | quiet (hframe : control.frame = e.control.frame) : OwnEvent e input control .quiet
  | resumed (hold : e.control.frame = none) (hframe : control.frame = none) :
      OwnEvent e input control .resumed
  | clobbered {frame : SigFrame} {ret : Nat} (hold : e.control = .pollOne (some frame))
      (hready : input = .ready ret) (hframe : control.frame = none) :
      OwnEvent e input control .clobbered

/-- User code runs, a call is polled or there is no signal; `handle_signal` passes without the
handler, or enters it; or a handler ends. -/
inductive Shape (e : Entry) (input : EntryInput) : Entry → HandlerEvent → Prop where
  | own {control : Control} {ev : HandlerEvent} (cx : TrapFrame) (hstarts : e.starts input = none)
      (hcompletes : e.completes input = none) (hown : OwnEvent e input control ev) :
      Shape e input ⟨{ e.sig with cx := cx }, control⟩ ev
  | passed {place : Place} {signal : Signal} {t : SigState} {ev : HandlerEvent}
      (hstarts : e.starts input = some signal) (hcompletes : e.completes input = some signal)
      (hleft : (e.sig.prologue signal).left = some t)
      (hev : ev = .quiet
        ∨ ev = .abandoned t.checkThreadExit.isSome ∧ e.sig.prologue signal = .abandoned t) :
      Shape e input ⟨t.removeSignal signal, .checking place⟩ ev
  | entered {place : Place} {signal : Signal} {t : SigState} {frame : SigFrame}
      (hstarts : e.starts input = some signal) (hcompletes : e.completes input = none)
      (hprologue : e.sig.prologue signal = .entered t frame) :
      Shape e input ⟨t, .handling place frame⟩ (.entered ⟨signal, e.sig.cx, e.sig.sigmask⟩)
  | ended {place : Place} {frame : SigFrame} (cx : TrapFrame) (hstarts : e.starts input = none)
      (hframe : e.control.frame = some frame) (hcompletes : e.completes input = some frame.signal) :
      Shape e input (endHandler { e.sig with cx := cx } place frame).1
        (endHandler { e.sig with cx := cx } place frame).2

section Shape

variable {e e' : Entry} {input : EntryInput} {ev : HandlerEvent} {s : SigState}
  {control : Control} {trap : UserTrap} {ret : Nat} {sig : Signal}

/-- `handle_signal` begins only where `check_signal` looks. -/
theorem starts_cases (h : e.starts input = some sig) :
    input = .go ∧ e.sig.tryGetSignal = some sig ∧ ∃ place, e.control = .checking place := by
  obtain ⟨s, control⟩ := e
  cases input with
  | go =>
    cases control with
    | checking place => exact ⟨rfl, h, place, rfl⟩
    | _ => cases h
  | _ => cases h

theorem frame_of_starts (h : e.starts input = some sig) : e.control.frame = none := by
  obtain ⟨-, -, place, hcontrol⟩ := starts_cases h
  rw [hcontrol]
  rfl

/-- Without an iteration, a handler in place was there before. -/
theorem OwnEvent.frame (h : OwnEvent e input control ev) {frame : SigFrame}
    (hframe : control.frame = some frame) : e.control.frame = some frame := by
  cases h with
  | quiet heq => exact heq ▸ hframe
  | resumed hold hnone =>
    rw [hnone] at hframe
    cases hframe
  | clobbered hold hready hnone =>
    rw [hnone] at hframe
    cases hframe

theorem afterOr_frame (s : SigState) : (afterOr s).control.frame = none := by
  unfold afterOr
  split <;> rfl

theorem check_shape (s : SigState) (place : Place) :
    Shape ⟨s, .checking place⟩ .go (check s place).1 (check s place).2 := by
  unfold check
  cases hsignal : s.tryGetSignal with
  | none =>
    have hdone : completes ⟨s, .checking place⟩ .go = none := by
      show s.tryGetSignal.bind _ = none
      rw [hsignal]
      rfl
    simp only
    split_ifs
    · exact .own s.cx hsignal hdone (.quiet rfl)
    · cases place <;> exact .own s.cx hsignal hdone (.quiet rfl)
  | some signal =>
    have hdone : completes ⟨s, .checking place⟩ .go
        = match s.prologue signal with
          | .entered _ _ => none
          | _ => some signal := by
      show s.tryGetSignal.bind _ = _
      rw [hsignal]
      rfl
    simp only
    cases hprologue : s.prologue signal with
    | returned t =>
      rw [hprologue] at hdone
      exact .passed hsignal hdone (congrArg Prologue.left hprologue) (.inl rfl)
    | abandoned t =>
      rw [hprologue] at hdone
      exact .passed hsignal hdone (congrArg Prologue.left hprologue) (.inr ⟨rfl, hprologue⟩)
    | entered t frame =>
      rw [hprologue] at hdone
      exact .entered hsignal hdone hprologue

theorem go_shape (h : go s control = some (e', ev)) : Shape ⟨s, control⟩ .go e' ev := by
  cases control with
  | checking place =>
    have hshape := check_shape s place
    rw [Option.some.inj h] at hshape
    exact hshape
  | handling place frame =>
    obtain ⟨-, heq⟩ := Option.ite_none_right_eq_some.mp h
    cases heq
    exact .ended s.cx rfl rfl rfl
  | _ => cases h

theorem user_shape (h : user s trap control = some (e', ev)) :
    Shape ⟨s, control⟩ (.user trap) e' ev := by
  cases control with
  | running =>
    cases trap with
    | other cx =>
      cases h
      exact .own cx rfl rfl (.quiet (afterOr_frame _))
    | sigreturn cx =>
      cases h
      exact .own cx rfl rfl (.quiet rfl)
    | syscall cx =>
      cases h
      exact .own cx.syscallOk rfl rfl (.quiet rfl)
  | handling place frame =>
    obtain ⟨-, heq⟩ := Option.ite_none_left_eq_some.mp h
    cases trap with
    | other cx =>
      cases heq
      exact .own cx rfl rfl (.quiet rfl)
    | sigreturn cx =>
      cases heq
      exact .ended cx rfl rfl rfl
    | syscall cx =>
      cases heq
      exact .own cx.syscallOk rfl rfl (.quiet rfl)
  | _ => cases h

theorem ready_shape (h : ready s ret control = some (e', ev)) :
    Shape ⟨s, control⟩ (.ready ret) e' ev := by
  cases control with
  | calling =>
    cases h
    exact .own (s.cx.setRet ret) rfl rfl (.resumed rfl (afterOr_frame _))
  | pollOne armTwo =>
    cases armTwo with
    | none =>
      cases h
      exact .own (s.cx.setRet ret) rfl rfl (.resumed rfl (afterOr_frame _))
    | some frame =>
      -- the suspended handler goes, and its signal stays
      cases h
      exact .own (s.cx.setRet ret) rfl rfl (.clobbered rfl rfl (afterOr_frame _))
  | handlerCall place frame =>
    cases h
    exact .own (s.cx.setRet ret) rfl rfl (.quiet rfl)
  | _ => cases h

theorem pending_shape (h : pending s control = some (e', ev)) :
    Shape ⟨s, control⟩ .pending e' ev := by
  cases control with
  | calling =>
    cases h
    exact .own s.cx rfl rfl (.quiet rfl)
  | pollOne armTwo => cases armTwo <;> cases h <;> exact .own s.cx rfl rfl (.quiet rfl)
  | handlerCall place frame => cases place <;> cases h <;> exact .own s.cx rfl rfl (.quiet rfl)
  | _ => cases h

/-- **The inversion lemma** of the steps that are the thread's own. -/
theorem step_shape (h : e.step input = some (e', ev)) (hin : ∀ t, input ≠ .outside t) :
    Shape e input e' ev := by
  cases input with
  | outside t => exact absurd rfl (hin t)
  | go => exact go_shape h
  | user trap => exact user_shape h
  | ready ret => exact ready_shape h
  | pending => exact pending_shape h

/-- A step that begins `handle_signal` passes it, or enters the handler. -/
theorem step_of_starts (h : e.step input = some (e', ev)) (hstarts : e.starts input = some sig) :
    (∃ place t, (e.sig.prologue sig).left = some t ∧ e' = ⟨t.removeSignal sig, .checking place⟩)
      ∨ ∃ place t frame, e.sig.prologue sig = .entered t frame ∧ e' = ⟨t, .handling place frame⟩ := by
  have hin : ∀ t, input ≠ .outside t := by
    intro t heq
    rw [(starts_cases hstarts).1] at heq
    cases heq
  cases step_shape h hin with
  | own cx hnone hcompletes hown =>
    rw [hnone] at hstarts
    cases hstarts
  | @passed place signal t ev hsignal hcompletes hleft hev =>
    rw [hsignal] at hstarts
    cases hstarts
    exact .inl ⟨place, t, hleft, rfl⟩
  | @entered place signal t frame hsignal hcompletes hprologue =>
    rw [hsignal] at hstarts
    cases hstarts
    exact .inr ⟨place, t, frame, hprologue, rfl⟩
  | ended cx hnone hframe hcompletes =>
    rw [hnone] at hstarts
    cases hstarts

end Shape

end Entry

/-- What a thread gets from outside, and what becomes of its handlers. -/
abbrev EntryLabel := EntryInput × HandlerEvent

def EntryStep (e : Entry) (l : EntryLabel) (e' : Entry) : Prop := e.step l.1 = some (e', l.2)

/-! ## The specification -/

/-- What a thread may rely on: the state is what its handler has interrupted, if one is in place.
When a handler ends, the thread goes on with the mask it had, and with the trap frame it had unless
the handler has changed what was saved of it; the signal is pending after that only if it was queued
again. The thread's own call comes back when no handler is in place. -/
inductive HandlerSpec : Option Interrupted → HandlerEvent → Option Interrupted → Prop where
  | quiet (h : Option Interrupted) : HandlerSpec h .quiet h
  | entered (i : Interrupted) : HandlerSpec none (.entered i) (some i)
  | ended (i : Interrupted) (cx : TrapFrame) (changed pending requeued : Bool)
      (hcx : changed = false → cx.Agrees i.cx) (hbit : pending = true → requeued = true) :
      HandlerSpec (some i) (.ended ⟨i.signal, cx, i.sigmask⟩ changed pending requeued) none
  /-- the process has an exit code -/
  | killed : HandlerSpec none (.abandoned true) none
  | resumed : HandlerSpec none .resumed none

/-- The specification, over the labels of a thread. -/
def HandlerSpecStep (h : Option Interrupted) (l : EntryLabel) (h' : Option Interrupted) : Prop :=
  HandlerSpec h l.2 h'

namespace Entry

variable {e e' : Entry} {input : EntryInput} {ev : HandlerEvent}

/-- No poll finds the interrupted call ready while the second arm holds a suspended handler, and
every signal whose handler is set up has a usable restorer. -/
def Undisturbed (e : Entry) (input : EntryInput) : Prop :=
  (∀ frame ret, e.control = .pollOne (some frame) → input ≠ .ready ret)
    ∧ ∀ place signal, e.control = .checking place → input = .go →
      e.sig.tryGetSignal = some signal → e.sig.TakesHandler signal → e.sig.StackReady →
        e.sig.env.Returns signal

def interrupted (e : Entry) : Option Interrupted := e.control.frame.map SigFrame.interrupted

/-- What `handle_signal` leaves behind a handler. -/
theorem endHandler_spec (s : SigState) (place : Place) (frame : SigFrame) :
    HandlerSpec (some frame.interrupted) (endHandler s place frame).2
      (endHandler s place frame).1.interrupted := by
  have hmask : (((s.putBack frame).userContext frame.sp).removeSignal frame.signal).sigmask
      = frame.taskMask := by
    rw [SigState.removeSignal_sigmask, SigState.userContext_sigmask]
    rfl
  -- the copy of the trap frame is put back first, and the saved context over it
  have hcx : decide (¬ s.env.Holds frame.sp frame.storeCx) = false →
      ((((s.putBack frame).userContext frame.sp).removeSignal frame.signal).cx).Agrees
        frame.storeCx := by
    intro hsame
    rw [SigState.removeSignal_cx]
    exact SigState.userContext_agrees (s := s.putBack frame)
      (not_not.mp (of_decide_eq_false hsame))
  unfold endHandler
  simp only
  rw [hmask]
  exact .ended frame.interrupted _ _ _ _ hcx
    (fun hpending => decide_eq_true (SigState.removeSignal_pending hpending))

theorem interrupted_eq_none (h : e.control.frame = none) : e.interrupted = none := by
  unfold interrupted
  rw [h]
  rfl

/-- **The step lemma.** -/
theorem step_spec (h : e.step input = some (e', ev)) (hcalm : e.Undisturbed input) :
    HandlerSpec e.interrupted ev e'.interrupted := by
  by_cases hout : ∃ t, input = .outside t
  · obtain ⟨t, rfl⟩ := hout
    cases h
    exact .quiet _
  · cases step_shape h (fun t heq => hout ⟨t, heq⟩) with
    | own cx hstarts hcompletes hown =>
      cases hown with
      | quiet hframe =>
        unfold interrupted
        rw [hframe]
        exact .quiet _
      | resumed hold hframe =>
        rw [interrupted_eq_none hold, interrupted_eq_none hframe]
        exact .resumed
      | clobbered hold hready hframe => exact absurd hready (hcalm.1 _ _ hold)
    | @passed place signal t ev hstarts hcompletes hleft hev =>
      rw [interrupted_eq_none (frame_of_starts hstarts)]
      rcases hev with rfl | ⟨rfl, hprologue⟩
      · exact .quiet none
      · -- with a usable restorer, giving up means killing the process
        obtain ⟨hgo, hsignal, place', hcontrol⟩ := starts_cases hstarts
        have hexit :=
          SigState.prologue_abandoned hprologue (hcalm.2 place' signal hcontrol hgo hsignal)
        have hsome : t.checkThreadExit.isSome = true := by
          unfold SigState.checkThreadExit
          rw [Option.isSome_or, Option.isSome_iff_ne_none.mpr hexit]
          rfl
        rw [hsome]
        exact .killed
    | @entered place signal t frame hstarts hcompletes hprologue =>
      rw [interrupted_eq_none (frame_of_starts hstarts), SigState.prologue_entered hprologue]
      exact .entered _
    | @ended place frame cx hstarts hframe hcompletes =>
      have hold : e.interrupted = some frame.interrupted := by
        unfold interrupted
        rw [hframe]
        rfl
      rw [hold]
      exact endHandler_spec _ place frame

end Entry

/-- **Handlers run to their end.** A run in which no poll finds the interrupted call ready over a
suspended handler, and in which every handler that is set up has a way to return, meets the
specification; the handler that is still in place at its end is the one the thread goes on with. -/
theorem entry_refines_handlerSpec {e e' : Entry} {ls : List EntryLabel}
    (hstart : e.control = .checking .head)
    (hrun : Run (fun e l e' => EntryStep e l e' ∧ e.Undisturbed l.1) e ls e') :
    Run HandlerSpecStep none ls e'.interrupted := by
  obtain ⟨h, hspec, rfl⟩ := hrun.refines (R := fun e h => h = e.interrupted)
    (fun e l e' h hR hstep => ⟨e'.interrupted, hR ▸ Entry.step_spec hstep.1 hstep.2, rfl⟩)
    (show none = e.interrupted by rw [Entry.interrupted, hstart]; rfl)
  exact hspec

/-- What the specification excludes. -/
theorem handlerSpec_run_sound {h h' : Option Interrupted} {ls : List EntryLabel}
    (hrun : Run HandlerSpecStep h ls h') :
    ∀ l ∈ ls, l.2 ≠ .clobbered ∧ l.2 ≠ .abandoned false := by
  induction hrun with
  | nil _ => exact fun _ hl => nomatch hl
  | cons hstep _ ih =>
    intro l hl
    rcases List.mem_cons.mp hl with rfl | hl
    · unfold HandlerSpecStep at hstep
      constructor <;> intro heq <;> rw [heq] at hstep <;> cases hstep
    · exact ih l hl

/-! ### Runs of a thread with a handler -/

theorem undisturbed_user (e : Entry) (trap : UserTrap) : e.Undisturbed (.user trap) :=
  ⟨fun _ _ _ h => (nomatch h), fun _ _ _ h => nomatch h⟩

theorem undisturbed_pending (e : Entry) : e.Undisturbed .pending :=
  ⟨fun _ _ _ h => (nomatch h), fun _ _ _ h => nomatch h⟩

theorem undisturbed_outside (e : Entry) (t : SigState) : e.Undisturbed (.outside t) :=
  ⟨fun _ _ _ h => (nomatch h), fun _ _ _ h => nomatch h⟩

theorem undisturbed_go {e : Entry}
    (h : ∀ signal, e.sig.tryGetSignal = some signal → e.sig.env.Returns signal) :
    e.Undisturbed .go :=
  ⟨fun _ _ _ h => (nomatch h), fun _ signal _ _ hsignal _ _ => h signal hsignal⟩

/-- A SIGUSR1 interrupts a pending call; its handler returns, and the call comes back. -/
theorem entry_refines_handlerSpec_usr1 :
    ∃ (ls : List EntryLabel) (e : Entry),
      ls.map Prod.fst = [.go, .user (.syscall (sampleCx 0x20100)), .pending, .go,
        .outside (sampleState 0x20010 0x200), .pending, .go, .user (.sigreturn (sampleCx 0x20010)),
        .go, .ready 5]
      ∧ Run HandlerSpecStep none ls e.interrupted
      ∧ e.sig.cx.x 10 = 5 := by
  have hquiet : ∀ signal, (sampleState 0x20010 0).tryGetSignal = some signal →
      (sampleEnv 0x20010).Returns signal := fun signal h => nomatch h
  have hrun : Run (fun e l e' => EntryStep e l e' ∧ e.Undisturbed l.1)
      ⟨sampleState 0x20010 0, .checking .head⟩
      [(.go, _), (.user (.syscall (sampleCx 0x20100)), _), (.pending, _), (.go, _),
        (.outside (sampleState 0x20010 0x200), _), (.pending, _), (.go, _),
        (.user (.sigreturn (sampleCx 0x20010)), _), (.go, _), (.ready 5, _)] _ :=
    .cons ⟨rfl, undisturbed_go hquiet⟩
      (.cons ⟨rfl, undisturbed_user _ _⟩
        (.cons ⟨rfl, undisturbed_pending _⟩
          (.cons ⟨rfl, undisturbed_go hquiet⟩
            (.cons ⟨rfl, undisturbed_outside _ _⟩
              (.cons ⟨rfl, undisturbed_pending _⟩
                (.cons ⟨rfl, undisturbed_go (fun signal _ =>
                    ⟨fun h => (nomatch h), fun _ h => nomatch h⟩)⟩
                  (.cons ⟨rfl, undisturbed_user _ _⟩
                    (.cons ⟨rfl, undisturbed_go hquiet⟩
                      (.cons ⟨rfl, fun _ _ h => (nomatch h), fun _ _ _ h => nomatch h⟩
                        (.nil _))))))))))
  exact ⟨_, _, rfl, entry_refines_handlerSpec rfl hrun, rfl⟩

/-- The interrupted call becomes ready while the handler of SIGUSR1 is blocked in a call of its
own: the handler is gone, the thread goes on with its program counter, and the result 5 is in its
registers. A SIGURG whose action has no restorer: `handle_signal` is through, and the program
counter is the handler's. -/
theorem entry_clobbers_handler :
    (∃ (ls : List EntryLabel) (e : Entry),
      Run EntryStep ⟨sampleState 0x20010 0, .checking .head⟩ ls e
        ∧ e.control = .checking .head ∧ e.sig.checkThreadExit = none
        ∧ e.sig.cx.sepc = 0x20008 ∧ e.sig.cx.x 10 = 5
        ∧ ¬ ∃ h, Run HandlerSpecStep none ls h)
      ∧ ∃ (ls : List EntryLabel) (e : Entry),
        Run EntryStep ⟨sampleState 0 0x400000, .checking .head⟩ ls e
          ∧ e.control = .checking .head ∧ e.sig.checkThreadExit = none
          ∧ e.sig.cx.sepc = 0x20000
          ∧ ¬ ∃ h, Run HandlerSpecStep none ls h := by
  refine ⟨⟨[(.go, _), (.user (.syscall (sampleCx 0x20100)), _), (.pending, _), (.go, _),
      (.outside (sampleState 0x20010 0x200), _), (.pending, _), (.go, _),
      (.user (.syscall (sampleCx 0x20004)), _), (.pending, _), (.ready 5, .clobbered)], _,
    .cons rfl (.cons rfl (.cons rfl (.cons rfl (.cons rfl (.cons rfl (.cons rfl (.cons rfl
      (.cons rfl (.cons rfl (.nil _)))))))))), rfl, rfl, rfl, rfl, ?_⟩,
    ⟨[(.go, .abandoned false)], _, .cons rfl (.nil _), rfl, rfl, rfl, ?_⟩⟩
  · rintro ⟨h, hspec⟩
    exact (handlerSpec_run_sound hspec (.ready 5, .clobbered) (by simp)).1 rfl
  · rintro ⟨h, hspec⟩
    exact (handlerSpec_run_sound hspec (.go, .abandoned false) (by simp)).2 rfl

end MonkeyOS
