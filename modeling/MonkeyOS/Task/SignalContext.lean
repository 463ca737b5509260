import MonkeyOS.Lib.Run
import MonkeyOS.Task.Signal

/-!
# MonkeyOS — what a handler interrupted comes back (`store_ctx`, `restore_ctx`)

`handle_signal` keeps what the handler interrupts twice: a copy of the trap frame and the mask in its
own variables, and the registers in a `SignalUserContext` on the user's stack. When the handler has
called `rt_sigreturn`, the copy is put back first, and then the program counter and the registers of
the user context over it.

The layout of trap frame and user context differs by target (`Target.arch`). Each has a table of the
registers that `store_ctx` copies and the place of each; `pc()` has a place of its own, or shares one
with a register. On riscv64 that register is `x0`.

* `SigArch.storeCtx_slot`, `SigArch.restoreCtx_slot` — the table, written and read;
* `SigThread.enterHandler_mem` — what the saved context holds when the handler starts;
* `signal_round_trip` — whatever the handler does in between;
* `erase_enterHandler`, `erase_restore` — for riscv64, the same as in `MonkeyOS/Task/Signal.lean`.

Registers and user memory are 64-bit words, memory by the address of the word; the stack pointer
of a handler is a multiple of 16.
-/

namespace MonkeyOS

open Lib

/-! ## Trap frames and user contexts -/

/-- The words of a trap frame (`polyhal_trap::trapframe`). -/
inductive RiscvReg where
  | x (i : Fin 32)
  | sstatus
  | sepc
  | fsx (i : Fin 2)
  deriving DecidableEq

inductive X86Reg where
  | rax | rcx | rdx | rbx | rbp | rsi | rdi | r8 | r9 | r10 | r11 | r12 | r13 | r14 | r15
  | fsBase | gsBase | vector | errorCode | rip | cs | rflags | rsp | ss
  deriving DecidableEq

inductive AarchReg where
  | regs (i : Fin 31)
  | sp
  | elr
  | spsr
  | tpidr
  deriving DecidableEq

inductive LoongReg where
  | regs (i : Fin 32)
  | prmd
  | era
  deriving DecidableEq

/-- What `handle_signal` uses of trap frame and user context. -/
structure SigArch (R : Type) where
  sepc : R
  sp : R
  /-- the return address; on x86_64 there is no such register, and it is pushed -/
  ra : Option R
  ret : R
  arg0 : R
  arg1 : R
  arg2 : R
  /-- what `syscall_ok` adds to the program counter -/
  syscallLen : Nat
  /-- `size_of::<SignalUserContext>()` -/
  contextSize : Nat
  /-- the offset of `sig_mask` -/
  sigMask : Nat
  /-- `store_ctx` and `restore_ctx`: the offset of each register -/
  gregs : List (Nat × R)
  /-- the offset of `pc()` -/
  pc : Nat
  /-- the register slot of the trap frame that stands for no register -/
  zero : Option R

def riscv64 : SigArch RiscvReg where
  sepc := .sepc
  sp := .x 2
  ra := some (.x 1)
  ret := .x 10
  arg0 := .x 10
  arg1 := .x 11
  arg2 := .x 12
  syscallLen := 4
  contextSize := 960
  sigMask := 40
  gregs := (List.finRange 32).map (fun i => (176 + 8 * i.1, .x i))
  pc := 176
  zero := some (.x 0)

def x86_64 : SigArch X86Reg where
  sepc := .rip
  sp := .rsp
  ra := none
  ret := .rax
  arg0 := .rdi
  arg1 := .rsi
  arg2 := .rdx
  syscallLen := 0
  contextSize := 944
  sigMask := 296
  gregs := [(40, .r8), (48, .r9), (56, .r10), (64, .r11), (72, .r12), (80, .r13), (88, .r14),
    (96, .r15), (104, .rdi), (112, .rsi), (120, .rbp), (128, .rbx), (136, .rdx), (144, .rax),
    (152, .rcx), (160, .rsp), (168, .rip)]
  pc := 168
  zero := none

def aarch64 : SigArch AarchReg where
  sepc := .elr
  sp := .sp
  ra := some (.regs 30)
  ret := .regs 0
  arg0 := .regs 0
  arg1 := .regs 1
  arg2 := .regs 2
  syscallLen := 0
  contextSize := 464
  sigMask := 40
  gregs := (List.finRange 31).map (fun i => (184 + 8 * i.1, .regs i))
  pc := 440
  zero := none

def loongarch64 : SigArch LoongReg where
  sepc := .era
  sp := .regs 3
  ra := some (.regs 1)
  ret := .regs 4
  arg0 := .regs 4
  arg1 := .regs 5
  arg2 := .regs 6
  syscallLen := 4
  contextSize := 752
  sigMask := 40
  gregs := (List.finRange 32).map (fun i => (72 + 8 * i.1, .regs i))
  pc := 64
  zero := none

/-- The architectures the kernel is built for. -/
inductive Target where
  | riscv64
  | x86_64
  | aarch64
  | loongarch64
  deriving DecidableEq

namespace Target

abbrev Reg : Target → Type
  | .riscv64 => RiscvReg
  | .x86_64 => X86Reg
  | .aarch64 => AarchReg
  | .loongarch64 => LoongReg

instance (target : Target) : DecidableEq target.Reg :=
  match target with
  | .riscv64 => inferInstanceAs (DecidableEq RiscvReg)
  | .x86_64 => inferInstanceAs (DecidableEq X86Reg)
  | .aarch64 => inferInstanceAs (DecidableEq AarchReg)
  | .loongarch64 => inferInstanceAs (DecidableEq LoongReg)

def arch : (target : Target) → SigArch target.Reg
  | .riscv64 => MonkeyOS.riscv64
  | .x86_64 => MonkeyOS.x86_64
  | .aarch64 => MonkeyOS.aarch64
  | .loongarch64 => MonkeyOS.loongarch64

end Target

namespace SigArch

variable {R : Type} [DecidableEq R]

def storeCtx (A : SigArch R) (mem : Nat → Nat) (ctx : Nat) (cx : R → Nat) : Nat → Nat :=
  A.gregs.foldl (fun mem slot => Function.update mem (ctx + slot.1) (cx slot.2)) mem

def restoreCtx (A : SigArch R) (mem : Nat → Nat) (ctx : Nat) (cx : R → Nat) : R → Nat :=
  A.gregs.foldl (fun cx slot => Function.update cx slot.2 (mem (ctx + slot.1))) cx

/-- The places of the table are different ones inside the context, and so are its registers. Only the
program counter itself, or the slot that stands for no register, lies where `pc()` is. -/
structure Lawful (A : SigArch R) : Prop where
  places : (A.gregs.map Prod.fst).Nodup
  registers : (A.gregs.map Prod.snd).Nodup
  inside : ∀ slot ∈ A.gregs, slot.1 < A.contextSize
  pc_inside : A.pc < A.contextSize
  mask_apart : A.sigMask ∉ A.pc :: A.gregs.map Prod.fst
  shared : ∀ slot ∈ A.gregs, slot.1 = A.pc → slot.2 = A.sepc ∨ A.zero = some slot.2
  zero_ne : A.zero ≠ some A.sepc

end SigArch

theorem Target.lawful (target : Target) : target.arch.Lawful := by
  cases target with
  | riscv64 => exact ⟨by decide, by decide, by decide, by decide, by decide, by decide, by decide⟩
  | x86_64 => exact ⟨by decide, by decide, by decide, by decide, by decide, by decide, by decide⟩
  | aarch64 => exact ⟨by decide, by decide, by decide, by decide, by decide, by decide, by decide⟩
  | loongarch64 => exact ⟨by decide, by decide, by decide, by decide, by decide, by decide, by decide⟩

theorem Target.sp_ne_sepc (target : Target) : target.arch.sp ≠ target.arch.sepc := by
  cases target <;> decide

/-! ## `handle_signal` -/

/-- The state of a thread that `handle_signal` reads and changes, with the user's memory. -/
structure SigThread (target : Target) where
  cx : target.Reg → Nat
  sigmask : BitVec 64
  exitCode : Option Nat
  sigaction : Signal → SigAction
  memset : MemSet
  /-- as in `SigEnv`: the tables of the address are there, a page or none is mapped -/
  translate : Nat → Bool
  mem : Nat → Nat

/-- What `handle_signal` has in its own variables while the handler runs. -/
structure SavedContext (target : Target) where
  storeCx : target.Reg → Nat
  taskMask : BitVec 64
  sp : Nat

namespace SigThread

variable {target : Target}

/-- The stack pointer of the handler, which is the address of its context. -/
def handlerSp (s : SigThread target) : Nat :=
  (s.cx target.arch.sp + 2 ^ 64 - 128 - target.arch.contextSize) % 2 ^ 64 / 16 * 16

/-- Handler, stack and restorer pass the checks of `handle_signal`, and there is a restorer. The page
for the context may be missing: the store brings it in. -/
structure Passes (s : SigThread target) (sig : Signal) : Prop where
  handled : (s.sigaction sig).handler ≠ 0 ∧ (s.sigaction sig).handler ≠ 1
  handler_range : ¬ ((s.sigaction sig).handler < 0x10000 ∨ (s.sigaction sig).handler ≥ 0x800000000000)
  handler_code : s.memset.inCode (s.sigaction sig).handler = true
  not_held_back : sig ≠ Signal.SIGTIMER ∧ sig ≠ Signal.SIGCHLD
  near : ¬ (s.handlerSp ≥ s.cx target.arch.sp ∨ s.cx target.arch.sp - s.handlerSp > 64 * 1024)
  stack_range : ¬ (s.handlerSp < 0x1000 ∨ s.handlerSp ≥ 0x800000000000)
  stack_area : s.memset.inStack s.handlerSp target.arch.contextSize = true
  stack_tables : s.translate s.handlerSp = true
  restorer : (s.sigaction sig).restorer ≠ 0
  restorer_code : s.memset.inCode (s.sigaction sig).restorer = true ∨ sig ∈ Signal.user

def setReg (s : SigThread target) (r : target.Reg) (v : Nat) : SigThread target :=
  { s with cx := Function.update s.cx r v }

/-- `cx[TrapFrameArgs::RA] = v` -/
def setRa (s : SigThread target) (v : Nat) : SigThread target :=
  match target.arch.ra with
  | some ra => s.setReg ra v
  | none =>
    let rsp := s.cx target.arch.sp - 8
    { s.setReg target.arch.sp rsp with mem := Function.update s.mem rsp v }

/-- `store_ctx`, `set_pc` and the mask, in the user context at `ctx`. -/
def saveContext (s : SigThread target) (ctx : Nat) (mask : BitVec 64) : Nat → Nat :=
  let mem := target.arch.storeCtx s.mem ctx s.cx
  let mem := Function.update mem (ctx + target.arch.pc) (s.cx target.arch.sepc)
  Function.update mem (ctx + target.arch.sigMask) mask.toNat

/-- `handle_signal` once the checks are passed, up to the loop that runs the handler. -/
def enterHandler (s : SigThread target) (sig : Signal) : SigThread target :=
  let act := s.sigaction sig
  let sp := s.handlerSp
  let t : SigThread target :=
    { s with sigmask := act.mask, mem := s.saveContext sp act.mask }
  let t := ((t.setReg target.arch.sp sp).setReg target.arch.sepc act.handler).setRa act.restorer
  ((t.setReg target.arch.arg0 sig).setReg target.arch.arg1 0).setReg target.arch.arg2 sp

def saved (s : SigThread target) : SavedContext target := ⟨s.cx, s.sigmask, s.handlerSp⟩

/-- `handle_signal` once the loop is through. -/
def restore (s : SigThread target) (saved : SavedContext target) : SigThread target :=
  let s := { s with sigmask := saved.taskMask, cx := saved.storeCx }
  if s.translate saved.sp then
    let newPc := s.mem (saved.sp + target.arch.pc)
    if newPc < 0x10000 ∨ newPc ≥ 0x800000000000 then s
    else
      let s := s.setReg target.arch.sepc newPc
      { s with cx := target.arch.restoreCtx s.mem saved.sp s.cx }
  else s

end SigThread

/-- What happens while the handler runs. -/
inductive HandlerMove (target : Target) where
  /-- user code, up to a trap that is no system call -/
  | user (cx : target.Reg → Nat) (mem : Nat → Nat)
  /-- user code, and a system call with whatever it does to the task -/
  | syscall (cx : target.Reg → Nat) (mem : Nat → Nat) (call : SigThread target → SigThread target)
      (ret : Nat)
  /-- user code, and `rt_sigreturn` -/
  | sigreturn (cx : target.Reg → Nat) (mem : Nat → Nat)
  /-- other threads and interrupts: everything but the trap frame -/
  | outside (t : SigThread target)

/-- An iteration of the loop, which breaks when the task has an exit code. -/
def HandlerStep {target : Target} (s : SigThread target) (move : HandlerMove target)
    (t : SigThread target) : Prop :=
  s.exitCode = none ∧ t =
    match move with
    | .user cx mem => { s with cx := cx, mem := mem }
    | .syscall cx mem call ret =>
      let u : SigThread target := { s with cx := cx, mem := mem }
      let u := call (u.setReg target.arch.sepc ((cx target.arch.sepc + target.arch.syscallLen) % 2 ^ 64))
      u.setReg target.arch.ret ret
    | .sigreturn cx mem => { s with cx := cx, mem := mem }
    | .outside t => { t with cx := s.cx }

/-! ## The table of registers -/

namespace SigArch

variable {R : Type} {A : SigArch R}

variable (hA : A.Lawful)

include hA

variable {mask ctx : Nat} {cx : R → Nat} {slot : Nat × R} {mem : Nat → Nat}

theorem storeCtx_slot (mem : Nat → Nat) (ctx : Nat) (cx : R → Nat)
    (h : slot ∈ A.gregs) : A.storeCtx mem ctx cx (ctx + slot.1) = cx slot.2 := by
  have hplaces : (A.gregs.map (fun slot => ctx + slot.1)).Nodup := by
    have hshift : ((A.gregs.map Prod.fst).map (ctx + ·)).Nodup :=
      List.Nodup.map (fun a b hab => Nat.add_left_cancel hab) hA.places
    rw [List.map_map] at hshift
    exact hshift
  exact foldl_update_of_mem (fun slot => ctx + slot.1) (fun slot => cx slot.2) hplaces h

theorem restoreCtx_slot [DecidableEq R] (mem : Nat → Nat) (ctx : Nat) (cx : R → Nat)
    (h : slot ∈ A.gregs) : A.restoreCtx mem ctx cx slot.2 = mem (ctx + slot.1) :=
  foldl_update_of_mem Prod.snd (fun slot => mem (ctx + slot.1)) hA.registers h

/-- What the whole of the saving leaves in the table: the program counter where `pc()` is. -/
theorem slot_of_saved (h : slot ∈ A.gregs) :
    Function.update (Function.update (A.storeCtx mem ctx cx) (ctx + A.pc) (cx A.sepc))
        (ctx + A.sigMask) mask (ctx + slot.1)
      = if slot.1 = A.pc then cx A.sepc else cx slot.2 := by
  have hmask : ctx + slot.1 ≠ ctx + A.sigMask := by
    intro heq
    apply hA.mask_apart
    rw [← Nat.add_left_cancel heq]
    exact List.mem_cons_of_mem _ (List.mem_map_of_mem h)
  rw [Function.update_of_ne hmask]
  by_cases hpc : slot.1 = A.pc
  · rw [if_pos hpc, hpc, Function.update_self]
  · rw [if_neg hpc, Function.update_of_ne (fun heq => hpc (Nat.add_left_cancel heq))]
    exact storeCtx_slot hA mem ctx cx h

theorem pc_of_saved :
    Function.update (Function.update (A.storeCtx mem ctx cx) (ctx + A.pc) (cx A.sepc))
        (ctx + A.sigMask) mask (ctx + A.pc) = cx A.sepc := by
  have hmask : ctx + A.pc ≠ ctx + A.sigMask := by
    intro heq
    apply hA.mask_apart
    rw [← Nat.add_left_cancel heq]
    exact List.mem_cons_self
  rw [Function.update_of_ne hmask, Function.update_self]

/-- A context that holds what was saved gives the registers back, all but the slot that stands for
none. -/
theorem restoreCtx_of_saved [DecidableEq R]
    (hslots : ∀ slot ∈ A.gregs, mem (ctx + slot.1) = if slot.1 = A.pc then cx A.sepc else cx slot.2)
    {r : R} (hr : A.zero ≠ some r) : A.restoreCtx mem ctx cx r = cx r := by
  by_cases hmem : r ∈ A.gregs.map Prod.snd
  · obtain ⟨slot, hslot, rfl⟩ := List.mem_map.mp hmem
    rw [restoreCtx_slot hA mem ctx cx hslot, hslots slot hslot]
    by_cases hpc : slot.1 = A.pc
    · rw [if_pos hpc]
      rcases hA.shared slot hslot hpc with hsepc | hzero
      · rw [hsepc]
      · exact absurd hzero hr
    · rw [if_neg hpc]
  · exact foldl_update_of_not_mem Prod.snd (fun slot => mem (ctx + slot.1)) hmem

end SigArch

/-! ## The round trip -/

namespace SigThread

variable {target : Target} {s u : SigThread target} {sig : Signal}

/-- The return address is written below the context, or nowhere. -/
theorem setRa_mem (s : SigThread target) (v : Nat) {a : Nat} (ha : s.cx target.arch.sp ≤ a)
    (hpos : 8 ≤ s.cx target.arch.sp) : (s.setRa v).mem a = s.mem a := by
  unfold setRa
  cases target.arch.ra with
  | some ra => rfl
  | none =>
    show Function.update s.mem (s.cx target.arch.sp - 8) v a = s.mem a
    exact Function.update_of_ne (by omega) ..

/-- What the handler finds in memory from its context on. -/
theorem enterHandler_mem (hpass : s.Passes sig) {a : Nat} (ha : s.handlerSp ≤ a) :
    (s.enterHandler sig).mem a = s.saveContext s.handlerSp (s.sigaction sig).mask a := by
  have hrange := hpass.stack_range
  have hsp : (((({ s with
      sigmask := (s.sigaction sig).mask
      mem := s.saveContext s.handlerSp (s.sigaction sig).mask } : SigThread target).setReg
        target.arch.sp s.handlerSp).setReg target.arch.sepc (s.sigaction sig).handler)).cx
          target.arch.sp = s.handlerSp := by
    show Function.update (Function.update s.cx target.arch.sp s.handlerSp) target.arch.sepc _
      target.arch.sp = s.handlerSp
    rw [Function.update_of_ne (Target.sp_ne_sepc target), Function.update_self]
  apply setRa_mem
  · rw [hsp]
    exact ha
  · rw [hsp]
    omega

theorem restore_of_valid (saved : SavedContext target) (hmapped : u.translate saved.sp = true)
    (hvalid : ¬ (u.mem (saved.sp + target.arch.pc) < 0x10000
      ∨ u.mem (saved.sp + target.arch.pc) ≥ 0x800000000000)) :
    u.restore saved = { u with
      sigmask := saved.taskMask
      cx := target.arch.restoreCtx u.mem saved.sp
        (Function.update saved.storeCx target.arch.sepc (u.mem (saved.sp + target.arch.pc))) } :=
  (if_pos hmapped).trans (if_neg hvalid)

/-- The end of `handle_signal`, when the saved context is as it was. -/
theorem restore_of_unmodified (hpass : s.Passes sig)
    (hpc : 0x10000 ≤ s.cx target.arch.sepc ∧ s.cx target.arch.sepc < 0x800000000000)
    (hcontext : ∀ a, s.handlerSp ≤ a → a < s.handlerSp + target.arch.contextSize →
      u.mem a = (s.enterHandler sig).mem a)
    (hmapped : u.translate s.handlerSp = true) :
    (u.restore s.saved).sigmask = s.sigmask
      ∧ ∀ r, target.arch.zero ≠ some r → (u.restore s.saved).cx r = s.cx r := by
  have hA := target.lawful
  -- what the context holds at the end is what was saved
  have hsaved : ∀ offset, offset < target.arch.contextSize → u.mem (s.handlerSp + offset)
      = s.saveContext s.handlerSp (s.sigaction sig).mask (s.handlerSp + offset) := by
    intro offset hoffset
    rw [hcontext _ (by omega) (by omega), enterHandler_mem hpass (by omega)]
  have hnewPc : u.mem (s.handlerSp + target.arch.pc) = s.cx target.arch.sepc := by
    rw [hsaved _ hA.pc_inside]
    exact SigArch.pc_of_saved hA
  have hslots : ∀ slot ∈ target.arch.gregs, u.mem (s.handlerSp + slot.1)
      = if slot.1 = target.arch.pc then s.cx target.arch.sepc else s.cx slot.2 := by
    intro slot hslot
    rw [hsaved _ (hA.inside slot hslot)]
    exact SigArch.slot_of_saved hA hslot
  have hvalid : ¬ (u.mem (s.handlerSp + target.arch.pc) < 0x10000
      ∨ u.mem (s.handlerSp + target.arch.pc) ≥ 0x800000000000) := by
    rw [hnewPc]
    omega
  have hrestore := restore_of_valid s.saved hmapped hvalid
  rw [hrestore]
  refine ⟨rfl, fun r hr => ?_⟩
  show target.arch.restoreCtx u.mem s.handlerSp (Function.update s.cx target.arch.sepc
    (u.mem (s.handlerSp + target.arch.pc))) r = s.cx r
  rw [hnewPc, Function.update_eq_self]
  exact SigArch.restoreCtx_of_saved hA hslots hr

end SigThread

/-- **The round trip of a signal handler.** Handler, stack and restorer pass the checks of
`handle_signal`; the handler does whatever it does, in any number of steps and system calls, and then
calls `rt_sigreturn`, with its context unmodified and the page of it mapped. When `handle_signal`
returns, the program counter, the stack pointer and every other word of the trap frame, but for the
slot of riscv64's zero register, and the mask are what they were when it was called. -/
theorem signal_round_trip {target : Target} {s u : SigThread target} {sig : Signal}
    (hpc : 0x10000 ≤ s.cx target.arch.sepc ∧ s.cx target.arch.sepc < 0x800000000000)
    (hpass : s.Passes sig) {moves : List (HandlerMove target)} {cx : target.Reg → Nat}
    {mem : Nat → Nat}
    (hrun : Run HandlerStep (s.enterHandler sig) (moves ++ [.sigreturn cx mem]) u)
    (hcontext : ∀ a, s.handlerSp ≤ a → a < s.handlerSp + target.arch.contextSize →
      u.mem a = (s.enterHandler sig).mem a)
    (hmapped : u.translate s.handlerSp = true) :
    (u.restore s.saved).cx target.arch.sepc = s.cx target.arch.sepc
    ∧ (u.restore s.saved).cx target.arch.sp = s.cx target.arch.sp
    ∧ (∀ r, target.arch.zero ≠ some r → (u.restore s.saved).cx r = s.cx r)
    ∧ (u.restore s.saved).sigmask = s.sigmask := by
  obtain ⟨hmask, hregs⟩ := SigThread.restore_of_unmodified hpass hpc hcontext hmapped
  have hsp : target.arch.zero ≠ some target.arch.sp := by
    cases target <;> decide
  exact ⟨hregs _ target.lawful.zero_ne, hregs _ hsp, hregs, hmask⟩

/-- A thread at `0x20100` with a handler for all signals, on riscv64. -/
def sampleThread : SigThread .riscv64 where
  cx := fun (r : RiscvReg) =>
    match r with
    | .x i => if i = 2 then 0x40000 else 7 * i.1
    | .sepc => 0x20100
    | _ => 0
  sigmask := 0x4000
  exitCode := none
  sigaction := fun _ => ⟨0x20000, 0x20010, 0⟩
  memset := (sampleEnv 0).memset
  translate := (sampleEnv 0).translate
  mem := fun _ => 0

/-- The handler changes every register, makes a system call that blocks all signals, and returns. -/
theorem signal_round_trip_sample :
    ∃ u, Run HandlerStep (sampleThread.enterHandler Signal.SIGUSR1)
        ([.syscall (fun _ => 1) (sampleThread.enterHandler Signal.SIGUSR1).mem
            (fun t => { t with sigmask := BitVec.allOnes 64 }) 5]
          ++ [.sigreturn (fun _ => 9) (sampleThread.enterHandler Signal.SIGUSR1).mem]) u
      ∧ (u.restore sampleThread.saved).cx RiscvReg.sepc = 0x20100
      ∧ (u.restore sampleThread.saved).cx (RiscvReg.x 2) = 0x40000
      ∧ (u.restore sampleThread.saved).cx (RiscvReg.x 10) = 70
      ∧ (u.restore sampleThread.saved).sigmask = 0x4000 := by
  have hpass : sampleThread.Passes Signal.SIGUSR1 :=
    ⟨by decide, by decide, by decide, by decide, by decide, by decide, by decide, by decide,
      by decide, by decide⟩
  have hrun : Run HandlerStep (sampleThread.enterHandler Signal.SIGUSR1)
      ([.syscall (fun _ => 1) (sampleThread.enterHandler Signal.SIGUSR1).mem
          (fun t => { t with sigmask := BitVec.allOnes 64 }) 5]
        ++ [.sigreturn (fun _ => 9) (sampleThread.enterHandler Signal.SIGUSR1).mem]) _ :=
    .cons ⟨rfl, rfl⟩ (.cons ⟨rfl, rfl⟩ (.nil _))
  obtain ⟨hpc, hsp, hregs, hmask⟩ := signal_round_trip (by decide) hpass hrun (fun _ _ _ => rfl)
    (by decide)
  exact ⟨_, hrun, hpc, hsp, hregs (RiscvReg.x 10) (by decide), hmask⟩

/-! ## The same on riscv64, as `MonkeyOS/Task/Signal.lean` has it -/

namespace SigThread

/-- The trap frame of `MonkeyOS/Task/Signal.lean`. -/
def eraseCx (cx : RiscvReg → Nat) : TrapFrame :=
  ⟨fun i => if h : i < 32 then cx (.x ⟨i, h⟩) else 0, cx .sepc⟩

/-- A riscv64 thread; the pending signals are those of `base`. -/
def erase (s : SigThread .riscv64) (base : SigState) : SigState :=
  { base with
    cx := eraseCx s.cx
    sigmask := s.sigmask
    exitCode := s.exitCode
    env :=
      { sigaction := s.sigaction
        memset := s.memset
        translate := s.translate
        mem := s.mem } }

variable {s u : SigThread .riscv64} {sig : Signal}

theorem eraseCx_of_lt (cx : RiscvReg → Nat) {i : Nat} (h : i < 32) :
    (eraseCx cx).x i = cx (.x ⟨i, h⟩) :=
  dif_pos h

theorem eraseCx_of_ge (cx : RiscvReg → Nat) {i : Nat} (h : ¬ i < 32) : (eraseCx cx).x i = 0 :=
  dif_neg h

theorem eraseCx_x (cx : RiscvReg → Nat) (i : Fin 32) (v : Nat) :
    eraseCx (Function.update cx (.x i) v) = (eraseCx cx).setReg i.1 v := by
  have hx : (eraseCx (Function.update cx (.x i) v)).x = Function.update (eraseCx cx).x i.1 v := by
    funext j
    by_cases hij : j = i.1
    · subst hij
      rw [eraseCx_of_lt _ i.2, Function.update_self, Function.update_self]
    rw [Function.update_of_ne hij]
    by_cases hj : j < 32
    · rw [eraseCx_of_lt _ hj, eraseCx_of_lt _ hj]
      apply Function.update_of_ne
      intro heq
      exact hij (congrArg Fin.val (RiscvReg.x.inj heq))
    · rw [eraseCx_of_ge _ hj, eraseCx_of_ge _ hj]
  show (⟨(eraseCx (Function.update cx (.x i) v)).x, cx .sepc⟩ : TrapFrame) = _
  rw [hx]
  rfl

theorem eraseCx_sepc (cx : RiscvReg → Nat) (v : Nat) :
    eraseCx (Function.update cx .sepc v) = (eraseCx cx).setSepc v := by
  unfold eraseCx TrapFrame.setSepc
  simp

/-- The trap frame the handler starts with. -/
theorem eraseCx_enterHandler (s : SigThread .riscv64) (sig : Signal) :
    eraseCx (s.enterHandler sig).cx
      = ((((((eraseCx s.cx).setSp s.handlerSp).setSepc (s.sigaction sig).handler).setRa
          (s.sigaction sig).restorer).setRet sig).setReg 11 0).setReg 12 s.handlerSp := by
  show eraseCx (Function.update (Function.update (Function.update (Function.update (Function.update
    (Function.update s.cx (.x 2) s.handlerSp) .sepc (s.sigaction sig).handler) (.x 1)
    (s.sigaction sig).restorer) (.x 10) sig) (.x 11) 0) (.x 12) s.handlerSp) = _
  rw [eraseCx_x, eraseCx_x, eraseCx_x, eraseCx_x, eraseCx_sepc, eraseCx_x]
  rfl

/-- The two tables of registers are the same. -/
theorem erase_saveContext (s : SigThread .riscv64) (base : SigState) (ctx : Nat) (mask : BitVec 64) :
    ((s.erase base).env.saveContext ctx (eraseCx s.cx) mask).mem = s.saveContext ctx mask := by
  have hstore : (List.range 32).foldl
      (fun mem i => Function.update mem (ctx + (176 + 8 * i)) ((eraseCx s.cx).x i)) s.mem
      = riscv64.storeCtx s.mem ctx s.cx := by
    show _ = ((List.finRange 32).map (fun i => (176 + 8 * i.1, RiscvReg.x i))).foldl
      (fun mem slot => Function.update mem (ctx + slot.1) (s.cx slot.2)) s.mem
    have hrange : List.range 32 = (List.finRange 32).map (·.1) := by decide
    rw [hrange, List.foldl_map, List.foldl_map]
    congr 1
    funext mem i
    rw [eraseCx_of_lt _ i.2]
  show Function.update (Function.update (List.foldl _ _ _) (ctx + 176) (s.cx .sepc) : Nat → Nat)
    (ctx + 40) mask.toNat = _
  rw [show (s.erase base).env.mem = s.mem from rfl, hstore]
  rfl

/-- The handler is entered as `SigState.prologue` enters it. -/
theorem erase_enterHandler (base : SigState) (hpass : s.Passes sig) (hkill : sig ≠ Signal.SIGKILL) :
    (s.erase base).prologue sig
      = .entered ((s.enterHandler sig).erase base)
        ⟨sig, eraseCx s.cx, s.sigmask, s.handlerSp⟩ := by
  have htakes : (s.erase base).TakesHandler sig :=
    ⟨hpass.handled.1, hpass.handled.2, hpass.handler_range, hpass.handler_code,
      hpass.not_held_back.1, hpass.not_held_back.2⟩
  have hready : (s.erase base).StackReady :=
    ⟨hpass.near, hpass.stack_range, hpass.stack_area, hpass.stack_tables⟩
  -- with such a restorer the handler is entered
  have hrestorer : ∀ (t : SigState) (frame : SigFrame), t.env.memset = s.memset →
      frame.signal = sig → t.checkRestorer frame (s.sigaction sig).restorer
        = t.enter frame (s.sigaction sig).restorer := by
    intro t frame hset hsignal
    unfold SigState.checkRestorer
    rw [if_neg hpass.restorer, hset, hsignal]
    by_cases hcode : s.memset.inCode (s.sigaction sig).restorer = true
    · rw [if_pos hcode]
    · rw [if_neg hcode, if_pos (hpass.restorer_code.resolve_left hcode)]
  unfold SigState.prologue
  rw [if_neg hkill, SigState.deliver_of_takes htakes, SigState.setUp_of_ready hready]
  refine (hrestorer _ _ rfl rfl).trans ?_
  unfold SigState.enter
  rw [if_neg hpass.restorer]
  -- the trap frame, and the memory with the context in it
  show Prologue.entered { base with
      cx := _, sigmask := _, exitCode := _
      env := (s.erase base).env.saveContext s.handlerSp (eraseCx s.cx) (s.sigaction sig).mask } _
    = .entered { base with
      cx := eraseCx (s.enterHandler sig).cx, sigmask := _, exitCode := _
      env :=
        { sigaction := s.sigaction, memset := s.memset, translate := s.translate
          mem := s.saveContext s.handlerSp (s.sigaction sig).mask } } _
  rw [eraseCx_enterHandler, ← erase_saveContext s base]
  rfl

/-- And what it interrupted is put back in the same way. -/
theorem erase_restore (base : SigState) (saved : SavedContext .riscv64) :
    (u.restore saved).erase base
      = (((u.erase base).putBack ⟨sig, eraseCx saved.storeCx, saved.taskMask, saved.sp⟩).userContext
        saved.sp) := by
  have hA := Target.lawful .riscv64
  unfold SigState.userContext
  by_cases hmapped : u.translate saved.sp = true
  · by_cases hvalid : u.mem (saved.sp + 176) < 0x10000 ∨ u.mem (saved.sp + 176) ≥ 0x800000000000
    · have hrestore : u.restore saved = { u with
          sigmask := saved.taskMask, cx := saved.storeCx } := (if_pos hmapped).trans (if_pos hvalid)
      rw [hrestore]
      exact ((if_pos hmapped).trans (if_pos hvalid)).symm
    · rw [restore_of_valid saved hmapped hvalid]
      refine Eq.trans ?_ ((if_pos hmapped).trans (if_neg hvalid)).symm
      -- the registers of the table, and the program counter, which is not in it
      have hcx : eraseCx (riscv64.restoreCtx u.mem saved.sp
            (Function.update saved.storeCx .sepc (u.mem (saved.sp + 176))))
          = (u.erase base).env.restoreCtx saved.sp
            ((eraseCx saved.storeCx).setSepc (u.mem (saved.sp + 176))) := by
        have hsepc : riscv64.restoreCtx u.mem saved.sp
              (Function.update saved.storeCx .sepc (u.mem (saved.sp + 176))) .sepc
            = u.mem (saved.sp + 176) :=
          (foldl_update_of_not_mem Prod.snd (fun slot => u.mem (saved.sp + slot.1))
            (by decide)).trans (Function.update_self ..)
        unfold eraseCx
        rw [hsepc]
        show TrapFrame.mk _ _ = TrapFrame.mk _ _
        congr 1
        funext i
        by_cases hi : i < 32
        · rw [dif_pos hi]
          have hslot : (176 + 8 * i, RiscvReg.x ⟨i, hi⟩) ∈ riscv64.gregs :=
            List.mem_map.mpr ⟨⟨i, hi⟩, List.mem_finRange _, rfl⟩
          exact (SigArch.restoreCtx_slot hA u.mem saved.sp _ hslot).trans (if_pos hi).symm
        · rw [dif_neg hi, if_neg hi]
          exact (eraseCx_of_ge saved.storeCx hi).symm
      show ({ base with
          cx := eraseCx (riscv64.restoreCtx u.mem saved.sp
            (Function.update saved.storeCx .sepc (u.mem (saved.sp + 176))))
          sigmask := _, exitCode := _, env := _ } : SigState) = _
      rw [hcx]
      rfl
  · have hrestore : u.restore saved = { u with
        sigmask := saved.taskMask, cx := saved.storeCx } := if_neg hmapped
    rw [hrestore]
    exact (if_neg hmapped).symm

end SigThread

end MonkeyOS
