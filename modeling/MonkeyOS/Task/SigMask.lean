import MonkeyOS.Task.SigKill

/-!
# MonkeyOS — who can block SIGKILL (`sys_sigprocmask`, `sys_sigaction`, `sys_sigreturn`)

The comment at the head of `syscall/signal.rs` has it that SIGKILL and SIGSTOP are neither caught,
blocked nor ignored. The mask of a thread is written in five places: `SigProcMask::handle`,
the entry of a handler, the return from it, `sys_sigreturn` and `thread_clone`. None of them takes
the two bits out of what user code has supplied.

A process keeps the two signals deliverable exactly if user code supplies no mask that has them
(`sigmask_unblockable_iff`). The masks that come back later, from the frame of a handler or from
the parent of a thread, are then free of them by themselves (`Entry.Open`).

`handle_syscall` returns before it dispatches `rt_sigreturn`, so `sys_sigreturn` is not reached from
user code; it is modelled as the system call it is.
-/

namespace MonkeyOS

open Lib

def Signal.SIGSTOP : Signal := 19

/-- The mask blocks neither SIGKILL nor SIGSTOP. -/
def Unblocked (mask : BitVec 64) : Prop :=
  mask.getLsbD (Signal.SIGKILL - 1) = false ∧ mask.getLsbD (Signal.SIGSTOP - 1) = false

/-! ## The calls -/

inductive SigMaskHow where
  | block
  | unblock
  | setmask
  deriving DecidableEq

namespace SigMaskHow

def fromUsize : Nat → Option SigMaskHow
  | 0 => some .block
  | 1 => some .unblock
  | 2 => some .setmask
  | _ => none

/-- `SigProcMask::handle` -/
def handle (how : SigMaskHow) (old mask : BitVec 64) : BitVec 64 :=
  match how with
  | .block => old ||| mask
  | .unblock => old &&& ~~~mask
  | .setmask => mask

/-- The bits of the argument go into the mask. -/
def adds : SigMaskHow → Bool
  | .unblock => false
  | _ => true

end SigMaskHow

namespace SigState

/-- `sys_sigprocmask`; the argument is `none` when its pointer is null. -/
def sysSigprocmask (s : SigState) (how : Nat) (set : Option (BitVec 64)) :
    SigState × Except Errno Nat :=
  match SigMaskHow.fromUsize how with
  | none => (s, .error .EINVAL)
  | some how =>
    match set with
    | some mask => ({ s with sigmask := how.handle s.sigmask mask }, .ok 0)
    | none => (s, .ok 0)

/-- The stack pointer is where `sys_sigreturn` reads a `SignalUserContext`. -/
def ContextReadable (s : SigState) : Prop :=
  ¬ (s.cx.sp < 0x1000 ∨ s.cx.sp ≥ 0x800000000000) ∧ s.env.translate s.cx.sp = true

instance (s : SigState) : Decidable s.ContextReadable := inferInstanceAs (Decidable (_ ∧ _))

/-- `sys_sigreturn`, where the context has this mask. -/
def sysSigreturn (s : SigState) (sigMask : BitVec 64) : SigState × Except Errno Nat :=
  if s.cx.sp < 0x1000 ∨ s.cx.sp ≥ 0x800000000000 then (s, .error .EFAULT)
  else if ¬ s.env.translate s.cx.sp then (s, .error .EFAULT)
  else
    let cx := s.cx.setSepc (s.env.gregs s.cx.sp 0)
    ({ s with sigmask := sigMask, cx := s.env.restoreCtx s.cx.sp cx }, .ok 0)

/-- The new thread of `thread_clone`. -/
def threadClone (s : SigState) : SigState :=
  { s with
    cx := s.cx.setRet 0
    signal := 0
    signalQueue := fun _ => 0
    threadExitCode := none }

theorem sysSigreturn_sigmask (s : SigState) (sigMask : BitVec 64) :
    (s.sysSigreturn sigMask).1.sigmask = if s.ContextReadable then sigMask else s.sigmask := by
  unfold sysSigreturn
  split
  · rename_i hrange
    rw [if_neg (fun h : s.ContextReadable => h.1 hrange)]
  rename_i hrange
  split
  · rename_i hmapped
    rw [if_neg (fun h : s.ContextReadable => hmapped h.2)]
  rename_i hmapped
  have hread : s.ContextReadable := ⟨hrange, by simpa using hmapped⟩
  rw [if_pos hread]

end SigState

/-! ## The process -/

/-- The threads share the actions and the exit code. -/
structure SigProc where
  sigaction : Nat → SigAction
  exitCode : Option Nat
  threads : Nat → Option Entry

inductive ProcEvent where
  | sigprocmask (tid how : Nat) (set : Option (BitVec 64))
  | sigaction (tid sig : Nat) (act : Option SigAction) (oldact : Bool)
  | sigreturn (tid : Nat) (sigMask : BitVec 64)
  | threadClone (tid new : Nat)
  /-- the thread moves, or something outside of it changes -/
  | stepped (tid : Nat) (input : EntryInput)

/-- A system call of the thread is polled. -/
def Control.inCall : Control → Bool
  | .calling => true
  | .handlerCall _ _ => true
  | _ => false

/-- What comes from outside is signals, memory and exit codes. -/
def EntryInput.confine (s : SigState) : EntryInput → EntryInput
  | .outside u => .outside { u with
      sigmask := s.sigmask
      exitCode := s.exitCode.or u.exitCode
      env := { u.env with sigaction := s.env.sigaction } }
  | input => input

namespace SigProc

/-- A thread, with what it shares. -/
def entry (p : SigProc) (tid : Nat) : Option Entry :=
  (p.threads tid).map (fun e =>
    ⟨{ e.sig with exitCode := p.exitCode, env := { e.sig.env with sigaction := p.sigaction } },
      e.control⟩)

def setEntry (p : SigProc) (tid : Nat) (e : Entry) : SigProc :=
  ⟨p.sigaction, e.sig.exitCode, Function.update p.threads tid (some e)⟩

def caller (p : SigProc) (tid : Nat) : Option Entry :=
  (p.entry tid).filter (·.control.inCall)

/-- `sys_sigaction`; `none` when the index is past the end of the table. -/
def sysSigaction (p : SigProc) (sig : Nat) (act : Option SigAction) (oldact : Bool) :
    Option SigProc :=
  if sig ≥ 65 ∧ (act.isSome ∨ oldact) then none
  else
    match act with
    | some act => some { p with sigaction := Function.update p.sigaction sig act }
    | none => some p

def exec (p : SigProc) : ProcEvent → Option SigProc
  | .sigprocmask tid how set =>
    (p.caller tid).map (fun e => p.setEntry tid ⟨(e.sig.sysSigprocmask how set).1, e.control⟩)
  | .sigaction tid sig act oldact => (p.caller tid).bind (fun _ => p.sysSigaction sig act oldact)
  | .sigreturn tid sigMask =>
    (p.caller tid).map (fun e => p.setEntry tid ⟨(e.sig.sysSigreturn sigMask).1, e.control⟩)
  | .threadClone tid new =>
    (p.caller tid).bind (fun e =>
      if (p.threads new).isSome then none
      else some (p.setEntry new ⟨e.sig.threadClone, .checking .head⟩))
  | .stepped tid input =>
    (p.entry tid).bind (fun e =>
      (e.step (input.confine e.sig)).map (fun moved => p.setEntry tid moved.1))

/-- `UserTask::new`, with the memory it is given; a forked process starts so, too. -/
def new (tid : Nat) (cx : TrapFrame) (env : SigEnv) : SigProc :=
  ⟨fun _ => ⟨0, 0, 0⟩, none, Function.update (fun _ => none) tid
    (some ⟨⟨cx, 0, 0, fun _ => 0, none, none, env⟩, .checking .head⟩)⟩

def Step (p : SigProc) (ev : ProcEvent) (q : SigProc) : Prop := p.exec ev = some q

/-- No thread blocks SIGKILL or SIGSTOP. -/
def Unblocked (p : SigProc) : Prop :=
  ∀ tid e, p.threads tid = some e → MonkeyOS.Unblocked e.sig.sigmask

/-- An event leaves the two signals unblocked, and a thread that takes up SIGKILL ends. -/
def Keeps (p : SigProc) (ev : ProcEvent) : Prop :=
  (∀ q, p.exec ev = some q → q.Unblocked)
    ∧ ∀ tid e e' hev, p.entry tid = some e → e.starts .go = some Signal.SIGKILL →
      e.step .go = some (e', hev) → e'.Terminates

/-- User code supplies no mask that has one of the two bits: not to `sys_sigprocmask`, unless it
unblocks, not with the action of a signal whose handler is taken up, and not in the context
`sys_sigreturn` reads. -/
def Admits (p : SigProc) : ProcEvent → Prop
  | .sigprocmask tid how set => ∀ e mask how', p.caller tid = some e → set = some mask →
    SigMaskHow.fromUsize how = some how' → how'.adds = true → MonkeyOS.Unblocked mask
  | .sigreturn tid sigMask => ∀ e, p.caller tid = some e → e.sig.ContextReadable →
    MonkeyOS.Unblocked sigMask
  | .stepped tid input => ∀ e sig, p.entry tid = some e → e.starts input = some sig →
    e.sig.TakesHandler sig → MonkeyOS.Unblocked (p.sigaction sig).mask
  | _ => True

end SigProc

/-! ## What a thread keeps -/

section Masks

variable {mask old : BitVec 64} {s : SigState}

theorem unblocked_zero : Unblocked 0#64 := ⟨BitVec.getLsbD_zero, BitVec.getLsbD_zero⟩

theorem unblocked_or : Unblocked (old ||| mask) ↔ Unblocked old ∧ Unblocked mask := by
  unfold Unblocked
  rw [BitVec.getLsbD_or, BitVec.getLsbD_or, Bool.or_eq_false_iff, Bool.or_eq_false_iff]
  exact and_and_and_comm

theorem Unblocked.and (h : Unblocked old) (mask : BitVec 64) : Unblocked (old &&& mask) := by
  unfold Unblocked at h ⊢
  rw [BitVec.getLsbD_and, BitVec.getLsbD_and, h.1, h.2]
  exact ⟨rfl, rfl⟩

theorem sysSigprocmask_unblocked_iff (h : Unblocked s.sigmask) (how : Nat)
    (set : Option (BitVec 64)) :
    Unblocked (s.sysSigprocmask how set).1.sigmask
      ↔ ∀ mask how', set = some mask → SigMaskHow.fromUsize how = some how' → how'.adds = true →
        Unblocked mask := by
  unfold SigState.sysSigprocmask
  cases hhow : SigMaskHow.fromUsize how with
  | none => exact iff_of_true h (fun _ _ _ heq => nomatch heq)
  | some how' =>
    cases set with
    | none => exact iff_of_true h (fun _ _ heq => nomatch heq)
    | some mask =>
      cases how' with
      | block =>
        refine unblocked_or.trans ⟨fun hor m how' hm _ _ => ?_,
          fun hall => ⟨h, hall mask .block rfl rfl rfl⟩⟩
        cases hm
        exact hor.2
      | unblock =>
        refine iff_of_true (h.and _) (fun m how' _ heq hadds => ?_)
        cases heq
        cases hadds
      | setmask =>
        refine ⟨fun hset m how' hm _ _ => ?_, fun hall => hall mask .setmask rfl rfl rfl⟩
        cases hm
        exact hset

end Masks

namespace Entry

variable {e e' : Entry} {input : EntryInput} {ev : HandlerEvent}

/-- Neither the mask of a thread nor the one its handler puts back has the two bits. -/
structure Open (e : Entry) : Prop where
  mask : Unblocked e.sig.sigmask
  frame : ∀ frame, e.control.frame = some frame → Unblocked frame.taskMask

theorem exists_step_of_starts {sig : Signal} (h : e.starts input = some sig) :
    ∃ moved, e.step (input.confine e.sig) = some moved := by
  obtain ⟨rfl, -, place, hcontrol⟩ := starts_cases h
  obtain ⟨s, control⟩ := e
  cases hcontrol
  exact ⟨check s place, rfl⟩

theorem confine_of_ne (hin : ∀ t, input ≠ .outside t) (s : SigState) :
    input.confine s = input := by
  cases input with
  | outside u => exact absurd rfl (hin u)
  | _ => rfl

/-- The mask `handle_signal` goes on with is the action's, if it takes up the handler. -/
theorem starts_unblocked_iff {signal : Signal} (h : Unblocked e.sig.sigmask)
    (hstarts : e.starts input = some signal) :
    Unblocked (e.sig.prologue signal).state.sigmask ↔ ∀ sig, e.starts input = some sig →
      e.sig.TakesHandler sig → Unblocked (e.sig.env.sigaction sig).mask := by
  obtain ⟨cx, mem, exitCode, -, hstate⟩ := e.sig.prologue_state signal
  rw [hstate, hstarts]
  show Unblocked (if e.sig.TakesHandler signal then _ else _) ↔ _
  by_cases htakes : e.sig.TakesHandler signal
  · rw [if_pos htakes]
    refine ⟨fun hmask sig heq _ => ?_, fun hall => hall signal rfl htakes⟩
    cases heq
    exact hmask
  · rw [if_neg htakes]
    refine iff_of_true h (fun sig heq htakes' => ?_)
    cases heq
    exact absurd htakes' htakes

/-- A move of an open thread keeps it open unless it takes the mask of an action that is not. -/
theorem step_open (h : e.Open) (hstep : e.step (input.confine e.sig) = some (e', ev)) :
    (Unblocked e'.sig.sigmask ↔ ∀ sig, e.starts input = some sig → e.sig.TakesHandler sig →
        Unblocked (e.sig.env.sigaction sig).mask)
      ∧ ∀ frame, e'.control.frame = some frame → Unblocked frame.taskMask := by
  by_cases hout : ∃ u, input = .outside u
  · obtain ⟨u, rfl⟩ := hout
    cases hstep
    exact ⟨iff_of_true h.mask (fun _ heq => nomatch heq), h.frame⟩
  · have hin : ∀ t, input ≠ .outside t := fun t heq => hout ⟨t, heq⟩
    rw [confine_of_ne hin] at hstep
    cases step_shape hstep hin with
    | own cx hstarts hcompletes hown =>
      refine ⟨iff_of_true h.mask (fun sig heq => ?_), fun frame hf => h.frame frame (hown.frame hf)⟩
      rw [hstarts] at heq
      cases heq
    | @passed place signal t ev hstarts hcompletes hleft hev =>
      refine ⟨?_, fun _ hf => nomatch hf⟩
      rw [← starts_unblocked_iff h.mask hstarts, Prologue.state_of_left hleft]
      show Unblocked (t.removeSignal signal).sigmask ↔ _
      rw [SigState.removeSignal_sigmask]
    | @entered place signal t frame hstarts hcompletes hprologue =>
      -- the frame keeps the mask of the thread, which comes back when the handler ends
      refine ⟨?_, fun frame' hf => ?_⟩
      · rw [← starts_unblocked_iff h.mask hstarts, hprologue]
        rfl
      cases hf
      rw [SigState.prologue_entered hprologue]
      exact h.mask
    | @ended place frame cx hstarts hframe hcompletes =>
      refine ⟨iff_of_true ?_ (fun sig heq => ?_), fun _ hf => nomatch hf⟩
      · show Unblocked (SigState.removeSignal _ _).sigmask
        rw [SigState.removeSignal_sigmask, SigState.userContext_sigmask]
        exact h.frame frame hframe
      · rw [hstarts] at heq
        cases heq

end Entry

/-! ## Runs of the process -/

namespace SigProc

variable {p q : SigProc} {tid : Nat} {e : Entry} {ev : ProcEvent}

/-- Every thread is open. -/
def Inv (p : SigProc) : Prop := ∀ tid e, p.threads tid = some e → e.Open

theorem Inv.entry (h : p.Inv) (he : p.entry tid = some e) : e.Open := by
  obtain ⟨e₀, he₀, rfl⟩ := Option.map_eq_some_iff.mp he
  exact ⟨(h tid e₀ he₀).mask, (h tid e₀ he₀).frame⟩

theorem entry_sigaction (he : p.entry tid = some e) : e.sig.env.sigaction = p.sigaction := by
  obtain ⟨e₀, -, rfl⟩ := Option.map_eq_some_iff.mp he
  rfl

theorem entry_of_caller (he : p.caller tid = some e) : p.entry tid = some e :=
  (Option.filter_eq_some_iff.mp he).1

theorem Inv.setEntry (h : p.Inv) (tid : Nat) (he : e.Open) : (p.setEntry tid e).Inv := by
  intro tid' e' he'
  by_cases htid : tid' = tid
  · rw [htid] at he'
    have heq : e = e' := by simpa [SigProc.setEntry] using he'
    exact heq ▸ he
  · have hold : p.threads tid' = some e' := by simpa [SigProc.setEntry, htid] using he'
    exact h tid' e' hold

theorem Inv.unblocked (h : p.Inv) : p.Unblocked := fun tid e he => (h tid e he).mask

theorem unblocked_setEntry (h : (p.setEntry tid e).Unblocked) :
    MonkeyOS.Unblocked e.sig.sigmask :=
  h tid e (by simp [SigProc.setEntry])

/-- **The step lemma.** -/
theorem Inv.exec (h : p.Inv) (hadmits : p.Admits ev) (hexec : p.exec ev = some q) : q.Inv := by
  cases ev with
  | sigprocmask tid how set =>
    obtain ⟨e, he, rfl⟩ := Option.map_eq_some_iff.mp hexec
    have hopen := h.entry (entry_of_caller he)
    refine h.setEntry tid ⟨?_, hopen.frame⟩
    exact (sysSigprocmask_unblocked_iff hopen.mask how set).mpr
      (fun mask how' => hadmits e mask how' he)
  | sigaction tid sig act oldact =>
    -- an action's mask counts when its handler is taken up, not when it is set
    obtain ⟨e, -, hcall⟩ := Option.bind_eq_some_iff.mp hexec
    obtain ⟨-, hcall⟩ := Option.ite_none_left_eq_some.mp hcall
    cases act with
    | some act =>
      cases hcall
      exact h
    | none =>
      cases hcall
      exact h
  | sigreturn tid sigMask =>
    obtain ⟨e, he, rfl⟩ := Option.map_eq_some_iff.mp hexec
    have hopen := h.entry (entry_of_caller he)
    refine h.setEntry tid ⟨?_, hopen.frame⟩
    show MonkeyOS.Unblocked (e.sig.sysSigreturn sigMask).1.sigmask
    rw [SigState.sysSigreturn_sigmask]
    by_cases hread : e.sig.ContextReadable
    · rw [if_pos hread]
      exact hadmits e he hread
    · rw [if_neg hread]
      exact hopen.mask
  | threadClone tid new =>
    obtain ⟨e, he, hcall⟩ := Option.bind_eq_some_iff.mp hexec
    obtain ⟨-, hcall⟩ := Option.ite_none_left_eq_some.mp hcall
    cases hcall
    exact h.setEntry new ⟨(h.entry (entry_of_caller he)).mask, fun _ hframe => nomatch hframe⟩
  | stepped tid input =>
    obtain ⟨e, he, hcall⟩ := Option.bind_eq_some_iff.mp hexec
    obtain ⟨⟨e', hev⟩, hstep, rfl⟩ := Option.map_eq_some_iff.mp hcall
    obtain ⟨hmask, hframe⟩ := Entry.step_open (h.entry he) hstep
    refine h.setEntry tid ⟨hmask.mpr (fun sig hstarts htakes => ?_), hframe⟩
    rw [entry_sigaction he]
    exact hadmits e sig he hstarts htakes

/-- An event that leaves the two signals unblocked was admitted. -/
theorem Inv.admits (h : p.Inv) (hkeeps : ∀ q, p.exec ev = some q → q.Unblocked) :
    p.Admits ev := by
  cases ev with
  | sigprocmask tid how set =>
    intro e mask how' he
    have hexec : p.exec (.sigprocmask tid how set)
        = some (p.setEntry tid ⟨(e.sig.sysSigprocmask how set).1, e.control⟩) :=
      Option.map_eq_some_iff.mpr ⟨e, he, rfl⟩
    have hmask := unblocked_setEntry (hkeeps _ hexec)
    exact (sysSigprocmask_unblocked_iff (h.entry (entry_of_caller he)).mask how set).mp hmask
      mask how'
  | sigaction tid sig act oldact => trivial
  | sigreturn tid sigMask =>
    intro e he hread
    have hexec : p.exec (.sigreturn tid sigMask)
        = some (p.setEntry tid ⟨(e.sig.sysSigreturn sigMask).1, e.control⟩) :=
      Option.map_eq_some_iff.mpr ⟨e, he, rfl⟩
    have hmask := unblocked_setEntry (hkeeps _ hexec)
    simp only [SigState.sysSigreturn_sigmask, if_pos hread] at hmask
    exact hmask
  | threadClone tid new => trivial
  | stepped tid input =>
    intro e sig he hstarts htakes
    obtain ⟨⟨e', hev⟩, hstep⟩ := Entry.exists_step_of_starts hstarts
    have hexec : p.exec (.stepped tid input) = some (p.setEntry tid e') := by
      show (p.entry tid).bind _ = _
      rw [he, Option.bind_some, hstep]
      rfl
    have hmask := (Entry.step_open (h.entry he) hstep).1.mp (unblocked_setEntry (hkeeps _ hexec))
    rw [← entry_sigaction he]
    exact hmask sig hstarts htakes

theorem Inv.keeps_iff (h : p.Inv) (ev : ProcEvent) : p.Keeps ev ↔ p.Admits ev := by
  refine ⟨fun hkeeps => h.admits hkeeps.1, fun hadmits => ⟨fun q hq => ?_, ?_⟩⟩
  · exact (h.exec hadmits hq).unblocked
  · exact fun _ _ _ _ _ hstarts hstep => Entry.kill_terminates hstarts hstep

theorem inv_new (tid : Nat) (cx : TrapFrame) (env : SigEnv) : (new tid cx env).Inv := by
  intro tid' e he
  by_cases htid : tid' = tid
  · rw [htid] at he
    have heq : Entry.mk ⟨cx, 0, 0, fun _ => 0, none, none, env⟩ (.checking .head) = e := by
      simpa [new] using he
    rw [← heq]
    exact ⟨unblocked_zero, fun _ hframe => nomatch hframe⟩
  · have hnone : (new tid cx env).threads tid' = none := by simp [new, htid]
    rw [hnone] at he
    cases he

end SigProc

/-- **SIGKILL and SIGSTOP stay deliverable in a process exactly as long as user code supplies no mask
that has them**: in no other run are they unblocked in every thread after every event. A thread
that takes up SIGKILL ends in any case. -/
theorem sigmask_unblockable_iff (tid : Nat) (cx : TrapFrame) (env : SigEnv)
    (evs : List ProcEvent) :
    Throughout SigProc.Step SigProc.Keeps (SigProc.new tid cx env) evs
      ↔ Throughout SigProc.Step SigProc.Admits (SigProc.new tid cx env) evs :=
  throughout_iff (I := SigProc.Inv) (fun _ ev h => h.keeps_iff ev)
    (fun _ _ _ h hadmits hstep => h.exec hadmits hstep) (SigProc.inv_new tid cx env) evs

/-- A new thread calls `sys_sigprocmask` with `SIG_SETMASK` and a mask of all signals. It now blocks
SIGKILL and SIGSTOP, and a SIGKILL that is sent to it is not found by `check_signal`. -/
theorem sigprocmask_blocks_kill :
    ∃ (q : SigProc) (e : Entry),
      Run SigProc.Step (SigProc.new 1 (sampleCx 0x20100) (sampleEnv 0x20010))
        [.stepped 1 .go, .stepped 1 (.user (.syscall (sampleCx 0x20100))),
          .sigprocmask 1 2 (some (BitVec.allOnes 64))] q
      ∧ q.entry 1 = some e ∧ ¬ q.Unblocked
      ∧ e.sig.sigmask.getLsbD (Signal.SIGKILL - 1) = true
      ∧ e.sig.sigmask.getLsbD (Signal.SIGSTOP - 1) = true
      ∧ (e.sig.addSignal Signal.SIGKILL).tryGetSignal = none := by
  refine ⟨_, _, .cons rfl (.cons rfl (.cons rfl (.nil _))), rfl, fun h => ?_, rfl, rfl, rfl⟩
  have hclear := (h 1 _ rfl).1
  cases hclear

end MonkeyOS
