import MonkeyOS.Mem.MemSet
import Mathlib.Data.List.Nodup
import Mathlib.Logic.Function.Basic

/-!
# MonkeyOS — delivering a signal (`handle_signal`, `check_signal`)

The part of `handle_signal` before the handler runs (`SigState.prologue`) and the part after it
has returned (`SigState.putBack`, `SigState.userContext`). In between the trap frame of the thread
is the handler's.

`prologue` has three ways out. It may return without a handler, it may set up the handler's trap
frame and go on, and it may return when it has already put the handler's stack and program
counter into the trap frame: there the restorer is missing or lies outside the code areas.
Mostly the process is then killed, but for the signals of `SigEnv.Returns` it is not.

The layout is that of riscv64. User memory is read and written by 64-bit words, each under its
address; a handler's context is at a multiple of 16.
-/

namespace MonkeyOS

/-- `TrapFrame`, with its registers `x` and the program counter. -/
structure TrapFrame where
  x : Nat → Nat
  sepc : Nat

namespace TrapFrame

def sp (cx : TrapFrame) : Nat := cx.x 2

def setReg (cx : TrapFrame) (i v : Nat) : TrapFrame := { cx with x := Function.update cx.x i v }

def setSp (cx : TrapFrame) (v : Nat) : TrapFrame := cx.setReg 2 v

def setRa (cx : TrapFrame) (v : Nat) : TrapFrame := cx.setReg 1 v

/-- `RET` and `ARG0` are the same register. -/
def setRet (cx : TrapFrame) (v : Nat) : TrapFrame := cx.setReg 10 v

def setSepc (cx : TrapFrame) (v : Nat) : TrapFrame := { cx with sepc := v }

def syscallOk (cx : TrapFrame) : TrapFrame := cx.setSepc ((cx.sepc + 4) % 2 ^ 64)

end TrapFrame

/-- `SignalFlags`, by number. -/
abbrev Signal := Nat

namespace Signal

def SIGKILL : Signal := 9
def SIGUSR1 : Signal := 10
def SIGUSR2 : Signal := 12
def SIGCHLD : Signal := 17
def SIGURG : Signal := 23
def SIGWINCH : Signal := 28
def SIGIO : Signal := 29
def SIGTIMER : Signal := 32

/-- The signals that kill the process when their restorer is not valid: SIGCANCEL, SIGSEGV,
SIGILL, SIGABRT, SIGQUIT, SIGTERM, SIGHUP, SIGINT, SIGPIPE, SIGALRM, SIGFPE, SIGBUS, SIGTRAP,
SIGXCPU, SIGXFSZ, SIGVTALRM, SIGPROF. -/
def fatal : List Signal := [33, 11, 4, 6, 3, 15, 1, 2, 13, 14, 8, 7, 5, 24, 25, 26, 27]

/-- The signals that kill the process by default. -/
def fatalByDefault : List Signal := fatal ++ [SIGUSR1, SIGUSR2]

/-- The signals that are ignored when their action has no restorer. -/
def ignoredBare : List Signal := [SIGCHLD, SIGURG, SIGWINCH, SIGIO]

def user : List Signal := [SIGUSR1, SIGUSR2]

end Signal

structure SigAction where
  handler : Nat
  restorer : Nat
  mask : BitVec 64

namespace MemSet

/-- A handler or a restorer may lie here. -/
def inCode (m : MemSet) (addr : Nat) : Bool :=
  m.areas.any (fun a => a.contains addr
    && decide (a.mtype = .mmap ∨ a.mtype = .stack ∨ a.mtype = .codeSection))

/-- A context of this size may lie here. -/
def inStack (m : MemSet) (sp contextSize : Nat) : Bool :=
  m.areas.any (fun a => a.contains sp && a.contains (sp + contextSize)
    && decide (a.mtype = .stack ∨ a.mtype = .mmap))

end MemSet

/-- What `handle_signal` reads of the process, and the memory it stores contexts in. -/
structure SigEnv where
  sigaction : Signal → SigAction
  memset : MemSet
  /-- `PageTable::translate` finds the table with the entry of this address. The entry may be empty
  (`Polyhal.Shows.translate_isSome`): a store then faults, and brings the page in. -/
  translate : Nat → Bool
  mem : Nat → Nat

namespace SigEnv

/-- `size_of::<SignalUserContext>()` -/
def contextSize : Nat := 960

/-- The word for register `i` in the context at `ctx`; `pc()` is the one for `x0`. -/
def gregs (env : SigEnv) (ctx i : Nat) : Nat := env.mem (ctx + (176 + 8 * i))

/-- `store_ctx`, `set_pc` and the mask, in the context at `ctx`. -/
def saveContext (env : SigEnv) (ctx : Nat) (cx : TrapFrame) (mask : BitVec 64) : SigEnv :=
  let mem := (List.range 32).foldl
    (fun mem i => Function.update mem (ctx + (176 + 8 * i)) (cx.x i)) env.mem
  let mem := Function.update mem (ctx + 176) cx.sepc
  { env with mem := Function.update mem (ctx + 40) mask.toNat }

def restoreCtx (env : SigEnv) (ctx : Nat) (cx : TrapFrame) : TrapFrame :=
  { cx with x := fun i => if i < 32 then env.gregs ctx i else cx.x i }

/-- The context at `ctx` holds the registers of `cx`, and its program counter. -/
def Holds (env : SigEnv) (ctx : Nat) (cx : TrapFrame) : Prop :=
  ∀ i < 32, env.gregs ctx i = if i = 0 then cx.sepc else cx.x i

instance (env : SigEnv) (ctx : Nat) (cx : TrapFrame) : Decidable (env.Holds ctx cx) :=
  inferInstanceAs (Decidable (∀ i < 32, _))

/-- The restorer of the action is there, or the signal is handled without one. -/
def Returns (env : SigEnv) (sig : Signal) : Prop :=
  ((env.sigaction sig).restorer = 0 → sig ∉ Signal.ignoredBare)
    ∧ ((env.sigaction sig).restorer ≠ 0 →
      env.memset.inCode (env.sigaction sig).restorer = false → sig ∈ Signal.user ++ Signal.fatal)

end SigEnv

/-- What `handle_signal` keeps while the handler runs. -/
structure SigFrame where
  signal : Signal
  storeCx : TrapFrame
  taskMask : BitVec 64
  sp : Nat

/-- The state of a thread that signals read and change. -/
structure SigState where
  cx : TrapFrame
  sigmask : BitVec 64
  signal : BitVec 64
  signalQueue : Nat → Nat
  exitCode : Option Nat
  threadExitCode : Option Nat
  env : SigEnv

/-- How the part of `handle_signal` before the handler ends. -/
inductive Prologue where
  /-- it returns, the trap frame is the thread's -/
  | returned (s : SigState)
  /-- it returns, the trap frame has the handler's stack and program counter -/
  | abandoned (s : SigState)
  | entered (s : SigState) (frame : SigFrame)

/-- The state `handle_signal` leaves when it does not come to the handler. -/
def Prologue.left : Prologue → Option SigState
  | .returned s => some s
  | .abandoned s => some s
  | .entered _ _ => none

/-- The state `handle_signal` returns or goes into its handler with. -/
def Prologue.state : Prologue → SigState
  | .returned s => s
  | .abandoned s => s
  | .entered s _ => s

theorem Prologue.state_of_left {p : Prologue} {t : SigState} (h : p.left = some t) :
    p.state = t := by
  cases p with
  | returned s => exact Option.some.inj h
  | abandoned s => exact Option.some.inj h
  | entered s frame => cases h

namespace SigState

def checkThreadExit (s : SigState) : Option Nat := s.exitCode.or s.threadExitCode

/-- `exit_with_signal` -/
def exitWithSignal (s : SigState) : SigState := { s with exitCode := some 0 }

/-- The first signal that is pending and not masked. -/
def tryGetSignal (s : SigState) : Option Signal :=
  ((List.range 64).find? (fun i => (s.signal &&& ~~~s.sigmask).getLsbD i)).map (· + 1)

/-- The bit goes; a real-time signal that is queued comes again. -/
def removeSignal (s : SigState) (sig : Signal) : SigState :=
  let s := { s with signal := s.signal &&& ~~~(BitVec.twoPow 64 (sig - 1)) }
  if sig ≥ 34 ∧ s.signalQueue (sig - 32) > 0 then
    { s with
      signal := s.signal ||| BitVec.twoPow 64 (sig - 1)
      signalQueue := Function.update s.signalQueue (sig - 32) (s.signalQueue (sig - 32) - 1) }
  else s

/-- The stack pointer of the handler. -/
def handlerSp (sp : Nat) : Nat := (sp + 2 ^ 64 - 128 - SigEnv.contextSize) % 2 ^ 64 / 16 * 16

/-- The handler's trap frame, once its stack and program counter are set. -/
def enter (s : SigState) (frame : SigFrame) (restorer : Nat) : Prologue :=
  let ra := if restorer = 0 then frame.storeCx.sepc else restorer
  let cx := (((s.cx.setRa ra).setRet frame.signal).setReg 11 0).setReg 12 frame.sp
  .entered { s with cx := cx } frame

/-- `handle_signal` from where it has put the handler's stack and program counter in. -/
def checkRestorer (s : SigState) (frame : SigFrame) (restorer : Nat) : Prologue :=
  if restorer = 0 then
    if frame.signal ∈ Signal.user then s.enter frame restorer
    else if frame.signal ∈ Signal.ignoredBare then .abandoned s
    else .abandoned s.exitWithSignal
  else if s.env.memset.inCode restorer then s.enter frame restorer
  else if frame.signal ∈ Signal.user then s.enter frame restorer
  else if frame.signal ∈ Signal.fatal then .abandoned s.exitWithSignal
  else .abandoned s

/-- What `handle_signal` keeps of the thread. -/
def frame (s : SigState) (sig : Signal) : SigFrame := ⟨sig, s.cx, s.sigmask, handlerSp s.cx.sp⟩

/-- The thread when its context is saved and the handler's mask, stack and program counter are in. -/
def switched (s : SigState) (sig : Signal) : SigState :=
  { s with
    sigmask := (s.env.sigaction sig).mask
    env := s.env.saveContext (handlerSp s.cx.sp) s.cx (s.env.sigaction sig).mask
    cx := (s.cx.setSp (handlerSp s.cx.sp)).setSepc (s.env.sigaction sig).handler }

/-- `handle_signal` from where it has stored the context and the mask. -/
def setUp (s : SigState) (sig : Signal) : Prologue :=
  let act := s.env.sigaction sig
  let sp := handlerSp s.cx.sp
  let masked := { s with sigmask := act.mask }
  if sp ≥ s.cx.sp ∨ s.cx.sp - sp > 64 * 1024 then .returned masked
  else if sp < 0x1000 ∨ sp ≥ 0x800000000000 then .returned masked
  else if ¬ s.env.memset.inStack sp SigEnv.contextSize then .returned masked
  else if ¬ s.env.translate sp then .returned masked
  else (s.switched sig).checkRestorer (s.frame sig) act.restorer

/-- `handle_signal` from where it looks up the action. -/
def deliver (s : SigState) (sig : Signal) : Prologue :=
  let handler := (s.env.sigaction sig).handler
  if handler = 0 then .returned (if sig ∈ Signal.fatalByDefault then s.exitWithSignal else s)
  else if handler = 1 then .returned s
  else if handler < 0x10000 ∨ handler ≥ 0x800000000000 then .returned s.exitWithSignal
  else if ¬ s.env.memset.inCode handler then .returned s.exitWithSignal
  else if sig = Signal.SIGTIMER then .returned s
  else if sig = Signal.SIGCHLD then .returned s
  else s.setUp sig

/-- `handle_signal` up to the loop that runs the handler. -/
def prologue (s : SigState) (sig : Signal) : Prologue :=
  (if sig = Signal.SIGKILL then s.exitWithSignal else s).deliver sig

/-- `handle_signal` once the handler is through: the stored context and mask. -/
def putBack (s : SigState) (frame : SigFrame) : SigState :=
  { s with sigmask := frame.taskMask, cx := frame.storeCx }

/-- What the handler left in its user context, last. -/
def userContext (s : SigState) (sp : Nat) : SigState :=
  if s.env.translate sp then
    let pc := s.env.gregs sp 0
    if pc < 0x10000 ∨ pc ≥ 0x800000000000 then s
    else { s with cx := s.env.restoreCtx sp (s.cx.setSepc pc) }
  else s

end SigState

/-! ## The saved context -/

section Updates

variable {α β : Type} [DecidableEq α] {slots : List β} (place : β → α) (value : β → Nat) {f : α → Nat}

theorem foldl_update_of_not_mem {a : α} (h : a ∉ slots.map place) :
    slots.foldl (fun f slot => Function.update f (place slot) (value slot)) f a = f a := by
  induction slots generalizing f with
  | nil => rfl
  | cons slot slots ih =>
    rw [List.map_cons, List.mem_cons, not_or] at h
    rw [List.foldl_cons, ih h.2, Function.update_of_ne h.1]

theorem foldl_update_of_mem (hnodup : (slots.map place).Nodup) {slot : β} (h : slot ∈ slots) :
    slots.foldl (fun f slot => Function.update f (place slot) (value slot)) f (place slot)
      = value slot := by
  induction slots generalizing f with
  | nil => cases h
  | cons head slots ih =>
    rw [List.map_cons, List.nodup_cons] at hnodup
    rw [List.foldl_cons]
    rcases List.mem_cons.mp h with rfl | h
    · -- written first, and by none of the others
      rw [foldl_update_of_not_mem place value hnodup.1, Function.update_self]
    · exact ih hnodup.2 h

end Updates

namespace SigEnv

end SigEnv

/-- The same registers and program counter; `x0` is no register. -/
def TrapFrame.Agrees (cx cx' : TrapFrame) : Prop := cx.sepc = cx'.sepc ∧ ∀ i ≠ 0, cx.x i = cx'.x i

namespace SigState

/-! ## What the parts do -/

variable {s t : SigState} {frame : SigFrame} {sig : Signal} {restorer sp : Nat}

/-- It touches the trap frame only. -/
theorem userContext_eq (s : SigState) (sp : Nat) : ∃ cx, s.userContext sp = { s with cx := cx } := by
  unfold userContext
  simp only
  split
  · split
    · exact ⟨s.cx, rfl⟩
    · exact ⟨_, rfl⟩
  · exact ⟨s.cx, rfl⟩

/-- If the context holds what was put back, it comes to the same. -/
theorem userContext_agrees (h : s.env.Holds sp s.cx) : (s.userContext sp).cx.Agrees s.cx := by
  unfold userContext
  simp only
  split
  · split
    · exact ⟨rfl, fun _ _ => rfl⟩
    · refine ⟨h 0 (by decide), fun i hi => ?_⟩
      show (if i < 32 then s.env.gregs sp i else s.cx.x i) = s.cx.x i
      split
      · rename_i hlt
        rw [h i hlt, if_neg hi]
      · rfl
  · exact ⟨rfl, fun _ _ => rfl⟩

theorem userContext_sigmask (s : SigState) (sp : Nat) : (s.userContext sp).sigmask = s.sigmask := by
  obtain ⟨cx, heq⟩ := s.userContext_eq sp
  rw [heq]

theorem userContext_checkThreadExit (s : SigState) (sp : Nat) :
    (s.userContext sp).checkThreadExit = s.checkThreadExit := by
  obtain ⟨cx, heq⟩ := s.userContext_eq sp
  rw [heq]
  rfl

/-- It touches the pending signals only. -/
theorem removeSignal_eq (s : SigState) (sig : Signal) :
    ∃ signal queue, s.removeSignal sig = { s with signal := signal, signalQueue := queue } := by
  unfold removeSignal
  simp only
  split
  · exact ⟨_, _, rfl⟩
  · exact ⟨_, s.signalQueue, rfl⟩

theorem removeSignal_sigmask (s : SigState) (sig : Signal) :
    (s.removeSignal sig).sigmask = s.sigmask := by
  obtain ⟨signal, queue, heq⟩ := s.removeSignal_eq sig
  rw [heq]

theorem removeSignal_cx (s : SigState) (sig : Signal) : (s.removeSignal sig).cx = s.cx := by
  obtain ⟨signal, queue, heq⟩ := s.removeSignal_eq sig
  rw [heq]

theorem removeSignal_checkThreadExit (s : SigState) (sig : Signal) :
    (s.removeSignal sig).checkThreadExit = s.checkThreadExit := by
  obtain ⟨signal, queue, heq⟩ := s.removeSignal_eq sig
  rw [heq]
  rfl

/-- The bit of a signal is there afterwards only if the signal was queued. -/
theorem removeSignal_pending (h : (s.removeSignal sig).signal.getLsbD (sig - 1) = true) :
    sig ≥ 34 ∧ s.signalQueue (sig - 32) > 0 := by
  by_contra hqueue
  have hremove : s.removeSignal sig
      = { s with signal := s.signal &&& ~~~(BitVec.twoPow 64 (sig - 1)) } := if_neg hqueue
  rw [hremove] at h
  simp at h

/-- The handler is entered, or `handle_signal` gives up with or without killing the process. -/
theorem checkRestorer_cases (s : SigState) (frame : SigFrame) (restorer : Nat) :
    (∃ cx, s.checkRestorer frame restorer = .entered { s with cx := cx } frame)
      ∨ s.checkRestorer frame restorer = .abandoned s
      ∨ s.checkRestorer frame restorer = .abandoned s.exitWithSignal := by
  unfold checkRestorer enter
  split
  · split
    · exact .inl ⟨_, rfl⟩
    · split
      · exact .inr (.inl rfl)
      · exact .inr (.inr rfl)
  · split
    · exact .inl ⟨_, rfl⟩
    · split
      · exact .inl ⟨_, rfl⟩
      · split
        · exact .inr (.inr rfl)
        · exact .inr (.inl rfl)

theorem checkRestorer_entered {frame' : SigFrame}
    (h : s.checkRestorer frame restorer = .entered t frame') :
    frame' = frame := by
  rcases s.checkRestorer_cases frame restorer with ⟨t', h'⟩ | h' | h'
  · rw [h] at h'
    cases h'
    rfl
  · rw [h] at h'
    cases h'
  · rw [h] at h'
    cases h'

/-- With a usable restorer, `handle_signal` gives up only by killing the process. -/
theorem checkRestorer_abandoned (h : s.checkRestorer frame restorer = .abandoned t)
    (hbare : restorer = 0 → frame.signal ∉ Signal.ignoredBare)
    (hcode : restorer ≠ 0 → s.env.memset.inCode restorer = false →
      frame.signal ∈ Signal.user ++ Signal.fatal) : t.exitCode ≠ none := by
  unfold checkRestorer enter at h
  split at h
  · rename_i hzero
    split at h
    · cases h
    rw [if_neg (hbare hzero)] at h
    cases h
    exact nofun
  · rename_i hzero
    split at h
    · cases h
    rename_i hin
    split at h
    · cases h
    rename_i huser
    rcases List.mem_append.mp (hcode hzero (by simpa using hin)) with hmem | hmem
    · exact absurd hmem huser
    · rw [if_pos hmem] at h
      cases h
      exact nofun

/-! ## Returning without the handler

`handle_signal` switches the mask before it looks at the stack, and the stack and program counter
before it looks at the restorer. A return from behind these points that does not kill the
process leaves what was switched. -/

/-- The action has a handler that `handle_signal` sets out to run. -/
def TakesHandler (s : SigState) (sig : Signal) : Prop :=
  let handler := (s.env.sigaction sig).handler
  handler ≠ 0 ∧ handler ≠ 1 ∧ ¬ (handler < 0x10000 ∨ handler ≥ 0x800000000000)
    ∧ s.env.memset.inCode handler = true ∧ sig ≠ Signal.SIGTIMER ∧ sig ≠ Signal.SIGCHLD

/-- The place for the handler's context passes the checks. -/
def StackReady (s : SigState) : Prop :=
  ¬ (handlerSp s.cx.sp ≥ s.cx.sp ∨ s.cx.sp - handlerSp s.cx.sp > 64 * 1024)
    ∧ ¬ (handlerSp s.cx.sp < 0x1000 ∨ handlerSp s.cx.sp ≥ 0x800000000000)
    ∧ s.env.memset.inStack (handlerSp s.cx.sp) SigEnv.contextSize = true
    ∧ s.env.translate (handlerSp s.cx.sp) = true

instance (s : SigState) (sig : Signal) : Decidable (s.TakesHandler sig) :=
  inferInstanceAs (Decidable (_ ∧ _))

instance (s : SigState) : Decidable s.StackReady := inferInstanceAs (Decidable (_ ∧ _))

theorem deliver_of_takes (h : s.TakesHandler sig) : s.deliver sig = s.setUp sig := by
  obtain ⟨hzero, hone, hrange, hcode, htimer, hchld⟩ := h
  unfold deliver
  simp only
  rw [if_neg hzero, if_neg hone, if_neg hrange, if_neg (by simpa using hcode), if_neg htimer,
    if_neg hchld]

/-- Without a handler to run, the task is killed or nothing is done. -/
theorem deliver_of_not_takes (h : ¬ s.TakesHandler sig) :
    s.deliver sig = .returned s ∨ s.deliver sig = .returned s.exitWithSignal := by
  unfold deliver
  simp only
  split
  · split
    · exact .inr rfl
    · exact .inl rfl
  · rename_i hzero
    split
    · exact .inl rfl
    rename_i hone
    split
    · exact .inr rfl
    rename_i hrange
    split
    · exact .inr rfl
    rename_i hcode
    split
    · exact .inl rfl
    rename_i htimer
    split
    · exact .inl rfl
    · rename_i hchld
      exact absurd ⟨hzero, hone, hrange, by simpa using hcode, htimer, hchld⟩ h

theorem setUp_of_ready (h : s.StackReady) :
    s.setUp sig = (s.switched sig).checkRestorer (s.frame sig) (s.env.sigaction sig).restorer := by
  obtain ⟨hnear, hrange, hstack, hmapped⟩ := h
  unfold setUp
  simp only
  rw [if_neg hnear, if_neg hrange, if_neg (by simpa using hstack), if_neg (by simpa using hmapped)]

theorem setUp_of_not_ready (h : ¬ s.StackReady) :
    s.setUp sig = .returned { s with sigmask := (s.env.sigaction sig).mask } := by
  unfold setUp
  simp only
  split
  · rfl
  rename_i hnear
  split
  · rfl
  rename_i hrange
  split
  · rfl
  rename_i hstack
  split
  · rfl
  · rename_i hmapped
    exact absurd ⟨hnear, hrange, by simpa using hstack, by simpa using hmapped⟩ h

/-- `handle_signal` returns with the trap frame as it was, or comes to the restorer with what it has
stored. -/
theorem prologue_cases (s : SigState) (sig : Signal) :
    (∃ t, s.prologue sig = .returned t) ∨ s.TakesHandler sig ∧ s.StackReady
      ∧ ∃ u : SigState, u.env = (s.switched sig).env
        ∧ s.prologue sig = u.checkRestorer (s.frame sig) (s.env.sigaction sig).restorer := by
  -- SIGKILL sets the exit code first, which is not looked at before the handler's loop
  obtain ⟨exitCode, hprologue⟩ : ∃ exitCode,
      s.prologue sig = ({ s with exitCode := exitCode } : SigState).deliver sig := by
    unfold prologue
    split
    · exact ⟨some 0, rfl⟩
    · exact ⟨s.exitCode, rfl⟩
  rw [hprologue]
  by_cases htakes : s.TakesHandler sig
  · rw [deliver_of_takes (s := { s with exitCode := exitCode }) htakes]
    by_cases hready : s.StackReady
    · exact .inr ⟨htakes, hready, ({ s with exitCode := exitCode } : SigState).switched sig, rfl,
        setUp_of_ready hready⟩
    · exact .inl ⟨_, setUp_of_not_ready (s := { s with exitCode := exitCode }) hready⟩
  · rcases deliver_of_not_takes (s := { s with exitCode := exitCode }) htakes with h | h
    · exact .inl ⟨_, h⟩
    · exact .inl ⟨_, h⟩

theorem prologue_entered (h : s.prologue sig = .entered t frame) :
    frame = s.frame sig := by
  rcases s.prologue_cases sig with ⟨_, hreturned⟩ | ⟨-, -, u, -, hcheck⟩
  · rw [h] at hreturned
    cases hreturned
  · rw [hcheck] at h
    exact checkRestorer_entered h

/-- Where a handler is set up only with a usable restorer, giving up means killing the process. -/
theorem prologue_abandoned (h : s.prologue sig = .abandoned t)
    (hreturns : s.TakesHandler sig → s.StackReady → s.env.Returns sig) : t.exitCode ≠ none := by
  rcases s.prologue_cases sig with ⟨_, hreturned⟩ | ⟨htakes, hready, u, henv, hcheck⟩
  · rw [h] at hreturned
    cases hreturned
  · rw [hcheck] at h
    obtain ⟨hbare, hcode⟩ := hreturns htakes hready
    refine checkRestorer_abandoned h hbare ?_
    rw [henv]
    exact hcode

/-- Where the restorer is not usable, `handle_signal` gives up and the process lives on. -/
theorem checkRestorer_of_not_returns (s : SigState) (frame : SigFrame) {env : SigEnv}
    (h : ¬ env.Returns sig) (hset : s.env.memset = env.memset)
    (hsignal : frame.signal = sig) :
    s.checkRestorer frame (env.sigaction sig).restorer = .abandoned s := by
  subst hsignal
  unfold SigEnv.Returns at h
  generalize (env.sigaction frame.signal).restorer = restorer at h ⊢
  rw [← hset] at h
  unfold checkRestorer
  by_cases hzero : restorer = 0
  · have hbare : frame.signal ∈ Signal.ignoredBare := by
      by_contra hnot
      exact h ⟨fun _ => hnot, fun hne => absurd hzero hne⟩
    -- the user signals are tried first, but none of them is ignored
    have huser : frame.signal ∉ Signal.user := by
      intro hmem
      have hdisjoint : ∀ sig ∈ Signal.user, sig ∉ Signal.ignoredBare := by decide
      exact hdisjoint _ hmem hbare
    rw [if_pos hzero, if_neg huser, if_pos hbare]
  · have hin : ¬ (s.env.memset.inCode restorer = true) := by
      intro hin
      exact h ⟨fun hz => absurd hz hzero, fun _ hout => by rw [hin] at hout; cases hout⟩
    have hmem : frame.signal ∉ Signal.user ++ Signal.fatal := by
      intro hmem
      exact h ⟨fun hz => absurd hz hzero, fun _ _ => hmem⟩
    rw [List.mem_append, not_or] at hmem
    rw [if_neg hzero, if_neg hin, if_neg hmem.1, if_neg hmem.2]

/-- `handle_signal` changes the trap frame, sets the exit code, stores a context, and takes the mask
of the action if it sets out to run its handler. -/
theorem deliver_state (s : SigState) (sig : Signal) :
    ∃ cx mem exitCode, (exitCode = s.exitCode ∨ exitCode = some 0)
      ∧ (s.deliver sig).state = { s with
        cx := cx
        env := { s.env with mem := mem }
        sigmask := if s.TakesHandler sig then (s.env.sigaction sig).mask else s.sigmask
        exitCode := exitCode } := by
  by_cases htakes : s.TakesHandler sig
  · rw [deliver_of_takes htakes, if_pos htakes]
    by_cases hready : s.StackReady
    · rw [setUp_of_ready hready]
      rcases checkRestorer_cases _ _ _ with ⟨cx, hcheck⟩ | hcheck | hcheck
      · rw [hcheck]
        exact ⟨cx, _, s.exitCode, .inl rfl, rfl⟩
      · rw [hcheck]
        exact ⟨_, _, s.exitCode, .inl rfl, rfl⟩
      · rw [hcheck]
        exact ⟨_, _, some 0, .inr rfl, rfl⟩
    · rw [setUp_of_not_ready hready]
      exact ⟨s.cx, s.env.mem, s.exitCode, .inl rfl, rfl⟩
  · rw [if_neg htakes]
    rcases deliver_of_not_takes htakes with hd | hd
    · rw [hd]
      exact ⟨s.cx, s.env.mem, s.exitCode, .inl rfl, rfl⟩
    · rw [hd]
      exact ⟨s.cx, s.env.mem, some 0, .inr rfl, rfl⟩

/-- The same of the whole; SIGKILL sets the exit code in any case. -/
theorem prologue_state (s : SigState) (sig : Signal) :
    ∃ cx mem exitCode, (exitCode = some 0 ∨ exitCode = s.exitCode ∧ sig ≠ Signal.SIGKILL)
      ∧ (s.prologue sig).state = { s with
        cx := cx
        env := { s.env with mem := mem }
        sigmask := if s.TakesHandler sig then (s.env.sigaction sig).mask else s.sigmask
        exitCode := exitCode } := by
  unfold prologue
  by_cases hkill : sig = Signal.SIGKILL
  · rw [if_pos hkill]
    obtain ⟨cx, mem, exitCode, hexit, hstate⟩ := s.exitWithSignal.deliver_state sig
    exact ⟨cx, mem, exitCode, .inl (hexit.elim id id), hstate⟩
  · rw [if_neg hkill]
    obtain ⟨cx, mem, exitCode, hexit, hstate⟩ := s.deliver_state sig
    exact ⟨cx, mem, exitCode, hexit.symm.imp id (⟨·, hkill⟩), hstate⟩

theorem prologue_exitCode (h : s.exitCode ≠ none ∨ sig = Signal.SIGKILL) :
    (s.prologue sig).state.exitCode ≠ none := by
  obtain ⟨cx, mem, exitCode, hexit, hstate⟩ := s.prologue_state sig
  rw [hstate]
  show exitCode ≠ none
  rcases hexit with hzero | ⟨hsame, hne⟩
  · rw [hzero]
    exact nofun
  · rw [hsame]
    exact h.resolve_right hne

/-- The paths of `handle_signal` that do not run the handler, when they do not kill the process
either, leave the trap frame and the mask alone. -/
def LeavesTask (s : SigState) (sig : Signal) : Prop :=
  ∀ t, (s.prologue sig).left = some t → t.exitCode = none → t.cx = s.cx ∧ t.sigmask = s.sigmask

/-- The handler's stack pointer lies below the thread's. -/
theorem enteredCx_ne (hready : s.StackReady) (handler : Nat) :
    (s.cx.setSp (handlerSp s.cx.sp)).setSepc handler ≠ s.cx := by
  intro heq
  have hsp : ((s.cx.setSp (handlerSp s.cx.sp)).setSepc handler).sp = handlerSp s.cx.sp := by
    simp [TrapFrame.sp, TrapFrame.setSp, TrapFrame.setSepc, TrapFrame.setReg]
  rw [heq] at hsp
  have hnear := hready.1
  omega

/-- Past the choice of a handler, the task is left untouched exactly when the check that fails
comes before anything was changed. -/
theorem setUp_leaves_iff (hexit : s.exitCode = none) :
    (∀ t, (s.setUp sig).left = some t → t.exitCode = none →
        t.cx = s.cx ∧ t.sigmask = s.sigmask)
      ↔ (¬ s.StackReady → (s.env.sigaction sig).mask = s.sigmask)
        ∧ (s.StackReady → s.env.Returns sig) := by
  by_cases hready : s.StackReady
  · rw [setUp_of_ready hready]
    constructor
    · intro hleaves
      refine ⟨fun hnot => absurd hready hnot, fun _ => ?_⟩
      by_contra hreturns
      rw [(s.switched sig).checkRestorer_of_not_returns (s.frame sig) hreturns rfl rfl] at hleaves
      exact enteredCx_ne hready _ (hleaves _ rfl hexit).1
    · intro hcond t h hnone
      -- with a usable restorer the only way out is to kill the process
      have hreturns := hcond.2 hready
      rcases checkRestorer_cases _ _ _ with ⟨u, hcheck⟩ | hcheck | hcheck
      · rw [hcheck] at h
        cases h
      · have hkilled := checkRestorer_abandoned hcheck
        exact absurd hexit (hkilled hreturns.1 hreturns.2)
      · rw [hcheck] at h
        cases h
        cases hnone
  · rw [setUp_of_not_ready hready]
    constructor
    · intro hleaves
      exact ⟨fun _ => (hleaves _ rfl hexit).2, fun h => absurd h hready⟩
    · intro hcond t h hnone
      cases h
      exact ⟨rfl, hcond.1 hready⟩

end SigState

/-- **When `handle_signal` leaves the task untouched.** Exactly when it kills the process or
finds no handler to run, or when the check that makes it return came out harmless: with an
unusable stack the handler's mask is the thread's own, and with a usable one the restorer is
usable too. -/
theorem handleSignal_leaves_task_iff (s : SigState) (sig : Signal) :
    s.LeavesTask sig ↔ (s.exitCode = none → sig ≠ Signal.SIGKILL → s.TakesHandler sig →
      (¬ s.StackReady → (s.env.sigaction sig).mask = s.sigmask)
        ∧ (s.StackReady → s.env.Returns sig)) := by
  by_cases hdead : s.exitCode ≠ none ∨ sig = Signal.SIGKILL
  · -- the exit code was set before, or SIGKILL sets it first, whatever the action
    refine iff_of_true (fun t h hnone => ?_) (fun hexit hkill => ?_)
    · rw [← Prologue.state_of_left h] at hnone
      exact absurd hnone (SigState.prologue_exitCode hdead)
    · exact absurd (hdead.resolve_left (· hexit)) hkill
  · rw [not_or, not_not] at hdead
    obtain ⟨hexit, hkill⟩ := hdead
    have hprologue : s.prologue sig = s.deliver sig := by
      unfold SigState.prologue
      rw [if_neg hkill]
    unfold SigState.LeavesTask
    rw [hprologue]
    by_cases htakes : s.TakesHandler sig
    · rw [SigState.deliver_of_takes htakes, SigState.setUp_leaves_iff hexit]
      exact ⟨fun h _ _ _ => h, fun h => h hexit hkill htakes⟩
    refine iff_of_true (fun t h hnone => ?_) (fun _ _ h => absurd h htakes)
    rcases SigState.deliver_of_not_takes htakes with hd | hd
    · rw [hd] at h
      cases h
      exact ⟨rfl, rfl⟩
    · rw [hd] at h
      cases h
      cases hnone

/-! ### A thread with a handler -/

/-- Code at `0x20000`, a stack at `0x30000`, and handlers for all signals. -/
def sampleEnv (restorer : Nat) : SigEnv where
  sigaction := fun _ => ⟨0x20000, restorer, 0⟩
  memset := ⟨[⟨.codeSection, [], none, 0, 0x20000, 0x1000⟩, ⟨.stack, [], none, 0, 0x30000, 0x20000⟩]⟩
  translate := fun v => v / 0x200000 = 0
  mem := fun _ => 0

def sampleCx (sepc : Nat) : TrapFrame := ⟨fun i => if i = 2 then 0x40000 else 0, sepc⟩

/-- The thread at `0x20100`, with these signals pending. -/
def sampleState (restorer : Nat) (signal : BitVec 64) : SigState where
  cx := sampleCx 0x20100
  sigmask := 0
  signal := signal
  signalQueue := fun _ => 0
  exitCode := none
  threadExitCode := none
  env := sampleEnv restorer

/-- A SIGURG whose action has no restorer: the thread lives on with the handler's stack and program
counter. A SIGUSR1 while the stack pointer is in no area: the thread lives on with the handler's
mask, and SIGTERM is no longer blocked. -/
theorem handleSignal_leaves_changed :
    (∃ t, (sampleState 0 0x400000).prologue Signal.SIGURG = .abandoned t ∧ t.exitCode = none
      ∧ t.cx.sepc = 0x20000 ∧ t.cx.sp = 0x3fbc0)
    ∧ ∃ s t : SigState, s = { sampleState 0x20010 0x200 with
          cx := ⟨fun i => if i = 2 then 0x28000 else 0, 0x20100⟩, sigmask := 0x4000 }
      ∧ s.prologue Signal.SIGUSR1 = .returned t ∧ t.exitCode = none ∧ t.sigmask = 0 := by
  constructor
  · have htakes : (sampleState 0 0x400000).TakesHandler Signal.SIGURG := by decide
    have hready : (sampleState 0 0x400000).StackReady := by decide
    have hbare : ¬ (sampleEnv 0).Returns Signal.SIGURG := fun h => h.1 rfl (by decide)
    refine ⟨_, ((SigState.deliver_of_takes htakes).trans (SigState.setUp_of_ready hready)).trans
      (SigState.checkRestorer_of_not_returns _ _ hbare rfl rfl), rfl, rfl, ?_⟩
    decide
  · refine ⟨_, _, rfl, (SigState.deliver_of_takes ?_).trans (SigState.setUp_of_not_ready ?_), rfl, rfl⟩
    · decide
    · decide

end MonkeyOS
