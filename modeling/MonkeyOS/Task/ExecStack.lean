import MonkeyOS.Lib.Bytes
import MonkeyOS.Task.Exec

/-!
# MonkeyOS — the first stack of a program (`init_task_stack`)

Strings go first, and then words: the end of the auxiliary vector, its pairs, the environment, the
arguments and their count. All of it is pushed downwards and in reverse, so that upwards from the
stack pointer it reads in order.

* `Pushed` — what a sequence of pushes did to the task, and where everything went;
* `readStart` — what the runtime of a C program reads at its stack pointer;
* `StackLayout` — what it finds there: `initTaskStack_layout`.
-/

namespace MonkeyOS

open Lib

namespace StackItem

/-- How far the stack pointer goes down. A string gets at least one byte more than it has. -/
def size : StackItem → Nat
  | .bytes data => alignup (data.length + 1) 8
  | .num _ => 8

/-- What is stored. -/
def image : StackItem → List UInt8
  | .bytes data => data
  | .num n => leBytes 8 n

def text (s : String) : StackItem := .bytes s.toUTF8.toList

theorem size_random : (StackItem.bytes (List.replicate 16 0)).size = 24 := by decide

theorem size_platform : (StackItem.bytes "riscv".toUTF8.toList).size = 8 := by decide +kernel

theorem lt_size_bytes (data : List UInt8) : data.length < (StackItem.bytes data).size := by
  have hround := le_mul_divCeil (data.length + 1) (b := 8) (by decide)
  show data.length < divCeil (data.length + 1) 8 * 8
  omega

theorem length_image_le (item : StackItem) : item.image.length ≤ item.size := by
  cases item with
  | bytes data => exact Nat.le_of_lt (lt_size_bytes data)
  | num n => exact Nat.le_of_eq (length_leBytes 8 n)

end StackItem

/-! ## The pushes -/

namespace ExecTask

/-- From `t` to `t'` by pushes only; `placed` has what was pushed and where, latest first. -/
structure Pushed (t t' : ExecTask) (placed : List (Nat × StackItem)) : Prop where
  log : t'.pushed = placed ++ t.pushed
  descends : Descends StackItem.size t.cx.sp placed t'.cx.sp
  space : t'.space = t.space
  sepc : t'.cx.sepc = t.cx.sepc

namespace Pushed

variable {t t' t'' : ExecTask} {placed more : List (Nat × StackItem)}

theorem refl (t : ExecTask) : Pushed t t [] := ⟨rfl, .nil, rfl, rfl⟩

theorem trans (h : Pushed t t' placed) (h' : Pushed t' t'' more) :
    Pushed t t'' (more ++ placed) where
  log := by rw [h'.log, h.log, List.append_assoc]
  descends := h.descends.trans h'.descends
  space := h'.space.trans h.space
  sepc := h'.sepc.trans h.sepc

theorem sp_add (h : Pushed t t' placed) :
    t'.cx.sp + (placed.map (·.2.size)).sum = t.cx.sp :=
  h.descends.total

theorem sp_add_one {addr : Nat} {item : StackItem} (h : Pushed t t' [(addr, item)]) :
    t'.cx.sp + item.size = t.cx.sp :=
  h.sp_add

end Pushed

variable {top phCount entryPoint ptr phAddr mid sp phEntrySize base : Nat}
  {args texts : List String} {ptrs : List Nat} {path libcPath : String}
  {placed all words : List (Nat × StackItem)} {mem : ByteMem} {p : StackPtrs} {t : ExecTask}

theorem push_pushed (item : StackItem) (hroom : item.size ≤ t.cx.sp) (hsp : t.cx.sp < 2 ^ 64) :
    Pushed t (t.push item.size item) [(t.cx.sp - item.size, item)] := by
  -- the subtraction of the source does not wrap
  have hsub : (t.cx.sp + 2 ^ 64 - item.size) % 2 ^ 64 = t.cx.sp - item.size := by omega
  have hpush : t.push item.size item =
      { t with
        cx := t.cx.setSp (t.cx.sp - item.size)
        pushed := (t.cx.sp - item.size, item) :: t.pushed } := by
    unfold push
    rw [hsub]
  have hnew : (t.cx.setSp (t.cx.sp - item.size)).sp = t.cx.sp - item.size :=
    Function.update_self 2 _ t.cx.x
  rw [hpush]
  refine ⟨rfl, ?_, rfl, rfl⟩
  show Descends _ _ _ (t.cx.setSp (t.cx.sp - item.size)).sp
  rw [hnew]
  exact .push item .nil hroom

theorem pushArr_pushed (data : List UInt8) (hroom : (StackItem.bytes data).size ≤ t.cx.sp)
    (hsp : t.cx.sp < 2 ^ 64) :
    ∃ t' ptr, t.pushArr data = (t', ptr) ∧ Pushed t t' [(ptr, .bytes data)] := by
  have hpushed := push_pushed (.bytes data) hroom hsp
  have hleft := hpushed.sp_add_one
  have hptr : t.cx.sp - (StackItem.bytes data).size =
      (t.push (StackItem.bytes data).size (.bytes data)).cx.sp := by omega
  rw [hptr] at hpushed
  exact ⟨_, _, rfl, hpushed⟩

def textsSize (texts : List String) : Nat := (texts.map (fun s => (StackItem.text s).size)).sum

/-- The texts in the order of the pushes. -/
theorem foldl_pushStr :
    ∀ (t : ExecTask) (acc : List Nat), textsSize texts ≤ t.cx.sp → t.cx.sp < 2 ^ 64 →
      ∃ t' ptrs placed,
        texts.foldl (fun (t, ptrs) text =>
          let (t, ptr) := ExecTask.pushStr t text
          (t, ptrs ++ [ptr])) (t, acc) = (t', acc ++ ptrs)
        ∧ Pushed t t' placed ∧ placed.map Prod.fst = ptrs.reverse
        ∧ placed.map Prod.snd = (texts.map StackItem.text).reverse := by
  induction texts with
  | nil =>
    intro t acc _ _
    exact ⟨t, [], [], by rw [List.append_nil]; rfl, .refl t, rfl, rfl⟩
  | cons s texts ih =>
    intro t acc hroom hsp
    have hsum : textsSize (s :: texts) = (StackItem.text s).size + textsSize texts := List.sum_cons
    obtain ⟨t₁, ptr, heq₁, hfirst⟩ := pushArr_pushed s.toUTF8.toList
      (show (StackItem.text s).size ≤ t.cx.sp by omega) hsp
    have hleft : t₁.cx.sp + (StackItem.text s).size = t.cx.sp := hfirst.sp_add_one
    obtain ⟨t', ptrs, placed, heq, hpushed, hfst, hsnd⟩ :=
      ih t₁ (acc ++ [ptr]) (by omega) (by omega)
    refine ⟨t', ptr :: ptrs, _, ?_, hfirst.trans hpushed, ?_, ?_⟩
    · have hstr : t.pushStr s = (t₁, ptr) := heq₁
      simp only [List.foldl_cons, hstr]
      rw [heq, List.append_assoc]
      rfl
    · rw [List.map_append, hfst, List.reverse_cons]
      rfl
    · rw [List.map_append, hsnd, List.map_cons (l := texts), List.reverse_cons]
      rfl

/-- The last text is pushed first, so in memory they are in their order. -/
theorem pushStrs_pushed (texts : List String) (hroom : textsSize texts ≤ t.cx.sp)
    (hsp : t.cx.sp < 2 ^ 64) :
    ∃ t' ptrs placed, t.pushStrs texts = (t', ptrs) ∧ Pushed t t' placed
      ∧ placed.map Prod.fst = ptrs.reverse ∧ placed.map Prod.snd = texts.map StackItem.text := by
  have hsum : textsSize texts.reverse ≤ t.cx.sp := by
    unfold textsSize
    rw [List.map_reverse, List.sum_reverse]
    exact hroom
  obtain ⟨t', ptrs, placed, heq, hpushed, hfst, hsnd⟩ := foldl_pushStr t [] hsum hsp
  rw [List.map_reverse, List.reverse_reverse] at hsnd
  exact ⟨t', ptrs, placed, heq, hpushed, hfst, hsnd⟩

theorem foldl_pushNum {ns : List Nat} :
    ∀ {t : ExecTask}, 8 * ns.length ≤ t.cx.sp → t.cx.sp < 2 ^ 64 →
      ∃ placed, Pushed t (ns.foldl pushNum t) placed
        ∧ placed.map Prod.snd = ns.reverse.map StackItem.num := by
  induction ns with
  | nil =>
    intro t _ _
    exact ⟨[], .refl t, rfl⟩
  | cons n ns ih =>
    intro t hroom hsp
    rw [List.length_cons] at hroom
    have hfirst : Pushed t (t.pushNum n) _ :=
      push_pushed (.num n) (show 8 ≤ t.cx.sp by omega) hsp
    have hleft : (t.pushNum n).cx.sp + 8 = t.cx.sp := hfirst.sp_add_one
    obtain ⟨placed, hpushed, hsnd⟩ := ih (t := t.pushNum n) (by omega) (by omega)
    refine ⟨_, hfirst.trans hpushed, ?_⟩
    rw [List.map_append, hsnd, List.reverse_cons, List.map_append]
    rfl

/-! ## The strings -/

/-- Where the strings went; the environment and the arguments in the order of the pushes. -/
@[ext]
structure StackPtrs where
  envp : List Nat
  args : List Nat
  random : Nat
  platform : Nat
  execfn : Nat

def pushTexts (t : ExecTask) (libcPath : String) (args : List String) (path : String) :
    ExecTask × StackPtrs :=
  let (t, envp) := t.pushStrs (defaultEnv libcPath)
  let (t, args) := t.pushStrs args
  let (t, random) := t.pushArr (List.replicate 16 0)
  let (t, platform) := t.pushStr "riscv"
  let (t, execfn) := t.pushStr path
  (t, ⟨envp, args, random, platform, execfn⟩)

/-- What the strings take: 24 bytes are the random ones, 8 the name of the platform. -/
def textsNeed (libcPath : String) (args : List String) (path : String) : Nat :=
  textsSize (defaultEnv libcPath) + textsSize args + 24 + 8 + (StackItem.text path).size

/-- Every string is where its pointer says. -/
structure TextsPlaced (placed : List (Nat × StackItem)) (p : StackPtrs) (libcPath : String)
    (args : List String) (path : String) : Prop where
  envp : List.Forall₂ (fun ptr s => (ptr, StackItem.text s) ∈ placed) p.envp.reverse
    (defaultEnv libcPath)
  args : List.Forall₂ (fun ptr s => (ptr, StackItem.text s) ∈ placed) p.args.reverse args
  random : (p.random, .bytes (List.replicate 16 0)) ∈ placed
  platform : (p.platform, .text "riscv") ∈ placed
  execfn : (p.execfn, .text path) ∈ placed

theorem TextsPlaced.mono (h : TextsPlaced placed p libcPath args path)
    (hsub : placed ⊆ all) : TextsPlaced all p libcPath args path where
  envp := h.envp.imp (fun _ _ hmem => hsub hmem)
  args := h.args.imp (fun _ _ hmem => hsub hmem)
  random := hsub h.random
  platform := hsub h.platform
  execfn := hsub h.execfn

theorem forall₂_placed (hfst : placed.map Prod.fst = ptrs)
    (hsnd : placed.map Prod.snd = texts.map StackItem.text) (hsub : placed ⊆ all) :
    List.Forall₂ (fun ptr s => (ptr, StackItem.text s) ∈ all) ptrs texts := by
  subst hfst
  induction placed generalizing texts with
  | nil =>
    cases texts with
    | nil => exact .nil
    | cons s texts => cases hsnd
  | cons x placed ih =>
    cases texts with
    | nil => cases hsnd
    | cons s texts =>
      obtain ⟨hx, hrest⟩ := List.cons.inj hsnd
      have hmem : x ∈ all := hsub List.mem_cons_self
      refine .cons ?_ (ih hrest (List.subset_of_cons_subset hsub))
      rw [← hx]
      exact hmem

theorem bytes_of_texts (hsnd : placed.map Prod.snd = texts.map StackItem.text) :
    ∀ x ∈ placed, ∃ data, x.2 = .bytes data := by
  intro x hx
  have hmem : x.2 ∈ texts.map StackItem.text := hsnd ▸ List.mem_map_of_mem hx
  obtain ⟨s, -, hs⟩ := List.mem_map.mp hmem
  exact ⟨_, hs.symm⟩

theorem sum_size_of_texts (hsnd : placed.map Prod.snd = texts.map StackItem.text) :
    (placed.map (·.2.size)).sum = textsSize texts := by
  have hmap := congrArg (fun items => (items.map StackItem.size).sum) hsnd
  simp only [List.map_map] at hmap
  exact hmap

theorem pushTexts_pushed (hroom : textsNeed libcPath args path ≤ t.cx.sp) (hsp : t.cx.sp < 2 ^ 64) :
    ∃ t' p placed, t.pushTexts libcPath args path = (t', p) ∧ Pushed t t' placed
      ∧ TextsPlaced placed p libcPath args path ∧ (∀ x ∈ placed, ∃ data, x.2 = .bytes data)
      ∧ t'.cx.sp + textsNeed libcPath args path = t.cx.sp := by
  unfold textsNeed at hroom ⊢
  obtain ⟨t₁, envp, env, heq₁, henv, henvFst, henvSnd⟩ := pushStrs_pushed (t := t)
    (defaultEnv libcPath) (by omega) hsp
  have hleft₁ := henv.sp_add
  rw [sum_size_of_texts henvSnd] at hleft₁
  obtain ⟨t₂, ptrs, argv, heq₂, hargv, hargvFst, hargvSnd⟩ := pushStrs_pushed (t := t₁) args
    (by omega) (by omega)
  have hleft₂ := hargv.sp_add
  rw [sum_size_of_texts hargvSnd] at hleft₂
  obtain ⟨t₃, random, heq₃, hrandom⟩ := pushArr_pushed (t := t₂) (List.replicate 16 0)
    (by rw [StackItem.size_random]; omega) (by omega)
  have hleft₃ := hrandom.sp_add_one
  rw [StackItem.size_random] at hleft₃
  obtain ⟨t₄, platform, heq₄, hplatform⟩ := pushArr_pushed (t := t₃) "riscv".toUTF8.toList
    (by rw [StackItem.size_platform]; omega) (by omega)
  have hleft₄ := hplatform.sp_add_one
  rw [StackItem.size_platform] at hleft₄
  obtain ⟨t₅, execfn, heq₅, hexecfn⟩ := pushArr_pushed (t := t₄) path.toUTF8.toList
    (show (StackItem.text path).size ≤ t₄.cx.sp by omega) (by omega)
  have hleft₅ : t₅.cx.sp + (StackItem.text path).size = t₄.cx.sp := hexecfn.sp_add_one
  refine ⟨t₅, ⟨envp, ptrs, random, platform, execfn⟩, _, ?_,
    (((henv.trans hargv).trans hrandom).trans hplatform).trans hexecfn, ?_, ?_, by omega⟩
  · simp only [pushTexts, pushStr, heq₁, heq₂, heq₃, heq₄, heq₅]
  · refine ⟨forall₂_placed henvFst henvSnd ?_, forall₂_placed hargvFst hargvSnd ?_, ?_, ?_, ?_⟩
    · intro x hx
      simp [hx]
    · intro x hx
      simp [hx]
    · exact List.mem_cons_of_mem _ (List.mem_cons_of_mem _ List.mem_cons_self)
    · exact List.mem_cons_of_mem _ List.mem_cons_self
    · exact List.mem_cons_self
  · intro x hx
    simp only [List.mem_append, List.mem_singleton] at hx
    rcases hx with rfl | rfl | rfl | hx | hx
    · exact ⟨_, rfl⟩
    · exact ⟨_, rfl⟩
    · exact ⟨_, rfl⟩
    · exact bytes_of_texts hargvSnd x hx
    · exact bytes_of_texts henvSnd x hx

/-! ## The words -/

/-- The map has the pairs in the order of their keys: AT_PHDR, AT_PHENT, AT_PHNUM, AT_PAGESZ,
AT_ENTRY, AT_UID, AT_EUID, AT_GID, AT_EGID, AT_PLATFORM, AT_SECURE, AT_RANDOM, AT_EXECFN. -/
def auxv (p : StackPtrs) (base entryPoint phCount phEntrySize phAddr : Nat) : List (Nat × Nat) :=
  [(3, wadd base phAddr), (4, phEntrySize), (5, phCount), (6, pageSize),
    (9, wadd base entryPoint), (11, 0), (12, 0), (13, 0), (14, 0), (15, p.platform), (23, 0),
    (25, p.random), (31, p.execfn)]

/-- The words in the order of the pushes. -/
def startWords (p : StackPtrs) (auxv : List (Nat × Nat)) : List Nat :=
  0 :: auxv.flatMap (fun (key, v) => [v, key]) ++ 0 :: p.envp ++ 0 :: p.args ++ [p.args.length]

/-- `init_task_stack` from its first push on. -/
def setUpStack (t : ExecTask) (libcPath : String) (args : List String) (base : Nat) (path : String)
    (entryPoint phCount phEntrySize phAddr : Nat) : ExecTask :=
  let (t, p) := t.pushTexts libcPath args path
  (startWords p (auxv p base entryPoint phCount phEntrySize phAddr)).foldl pushNum t

/-- `init_task_stack` before its first push. -/
def freshStack (t : ExecTask) (alloc : Nat → MmapEnv) (base entryPoint heapBottom : Nat) :
    ExecTask :=
  { t with
    space := ((t.space.frameAlloc (alloc 0) (userStackTop - userStackInitSize) .stack
      (userStackInitSize / pageSize)).map Prod.snd).getD t.space
    heap := heapBottom
    entry := wadd base entryPoint
    cx := (TrapFrame.setSp ⟨fun _ => 0, 0⟩ userStackTop).setSepc (wadd base entryPoint) }

theorem initTaskStack_eq (t : ExecTask) (alloc : Nat → MmapEnv) (libcPath : String)
    (args : List String) (base : Nat) (path : String)
    (entryPoint phCount phEntrySize phAddr heapBottom : Nat) :
    t.initTaskStack alloc libcPath args base path entryPoint phCount phEntrySize phAddr heapBottom =
      (t.freshStack alloc base entryPoint heapBottom).setUpStack libcPath args base path entryPoint
        phCount phEntrySize phAddr := by
  simp only [setUpStack, startWords, List.foldl_append, List.foldl_cons, List.foldl_flatMap]
  rfl

/-! The program counter stays, also when there is not enough room. -/

theorem push_sepc (t : ExecTask) (size : Nat) (item : StackItem) :
    (t.push size item).cx.sepc = t.cx.sepc := rfl

theorem foldl_pushStr_sepc (texts : List String) (t : ExecTask) (acc : List Nat) :
    (texts.foldl (fun (t, ptrs) text =>
      let (t, ptr) := ExecTask.pushStr t text
      (t, ptrs ++ [ptr])) (t, acc)).1.cx.sepc = t.cx.sepc := by
  induction texts generalizing t acc with
  | nil => rfl
  | cons s texts ih => exact (ih _ _).trans (push_sepc t _ _)

theorem foldl_pushNum_sepc (ns : List Nat) (t : ExecTask) :
    (ns.foldl pushNum t).cx.sepc = t.cx.sepc := by
  induction ns generalizing t with
  | nil => rfl
  | cons n ns ih => exact (ih _).trans (push_sepc t _ _)

theorem setUpStack_sepc (t : ExecTask) (libcPath : String) (args : List String) (base : Nat)
    (path : String) (entryPoint phCount phEntrySize phAddr : Nat) :
    (t.setUpStack libcPath args base path entryPoint phCount phEntrySize phAddr).cx.sepc =
      t.cx.sepc := by
  let t₁ := (t.pushStrs (defaultEnv libcPath)).1
  let t₂ := (t₁.pushStrs args).1
  calc (t.setUpStack libcPath args base path entryPoint phCount phEntrySize phAddr).cx.sepc
      = t₂.cx.sepc := foldl_pushNum_sepc _ _
    _ = t₁.cx.sepc := foldl_pushStr_sepc args.reverse t₁ []
    _ = t.cx.sepc := foldl_pushStr_sepc (defaultEnv libcPath).reverse t []

/-! What is pushed, and where, depends on the registers only. -/

/-- Two tasks that return to user mode alike. -/
structure SameRegs (t t' : ExecTask) : Prop where
  heap : t'.heap = t.heap
  entry : t'.entry = t.entry
  cx : t'.cx = t.cx

namespace SameRegs

variable {t t' : ExecTask}

theorem push (h : SameRegs t t') (size : Nat) (item : StackItem) :
    SameRegs (t.push size item) (t'.push size item) :=
  ⟨h.heap, h.entry, by simp only [ExecTask.push, h.cx]⟩

theorem pushArr (h : SameRegs t t') (data : List UInt8) :
    SameRegs (t.pushArr data).1 (t'.pushArr data).1 ∧ (t'.pushArr data).2 = (t.pushArr data).2 := by
  have hpush := h.push (alignup (data.length + 1) 8) (.bytes data)
  exact ⟨hpush, congrArg TrapFrame.sp hpush.cx⟩

theorem foldl_pushStr (texts : List String) (h : SameRegs t t') (acc : List Nat) :
    let push := fun (x : ExecTask × List Nat) (text : String) =>
      let (t, ptr) := x.1.pushStr text
      (t, x.2 ++ [ptr])
    SameRegs (texts.foldl push (t, acc)).1 (texts.foldl push (t', acc)).1
      ∧ (texts.foldl push (t', acc)).2 = (texts.foldl push (t, acc)).2 := by
  induction texts generalizing t t' acc with
  | nil => exact ⟨h, rfl⟩
  | cons s texts ih =>
    obtain ⟨hpush, hptr⟩ := h.pushArr s.toUTF8.toList
    have hacc : acc ++ [(t'.pushStr s).2] = acc ++ [(t.pushStr s).2] :=
      congrArg (fun ptr => acc ++ [ptr]) hptr
    simp only [List.foldl_cons, hacc]
    exact ih hpush _

theorem foldl_pushNum (ns : List Nat) (h : SameRegs t t') :
    SameRegs (ns.foldl pushNum t) (ns.foldl pushNum t') := by
  induction ns generalizing t t' with
  | nil => exact h
  | cons n ns ih => exact ih (h.push 8 (.num n))

theorem pushTexts (h : SameRegs t t') (libcPath : String) (args : List String) (path : String) :
    SameRegs (t.pushTexts libcPath args path).1 (t'.pushTexts libcPath args path).1
      ∧ (t'.pushTexts libcPath args path).2 = (t.pushTexts libcPath args path).2 := by
  obtain ⟨henv, henvp⟩ := h.foldl_pushStr (defaultEnv libcPath).reverse []
  obtain ⟨hargs, hargv⟩ := henv.foldl_pushStr args.reverse []
  obtain ⟨hregs, hrandom⟩ := hargs.pushArr (List.replicate 16 0)
  obtain ⟨hregs, hplatform⟩ := hregs.pushArr "riscv".toUTF8.toList
  obtain ⟨hregs, hexecfn⟩ := hregs.pushArr path.toUTF8.toList
  exact ⟨hregs, StackPtrs.ext henvp hargv hrandom hplatform hexecfn⟩

theorem setUpStack (h : SameRegs t t') (libcPath : String) (args : List String) (base : Nat)
    (path : String) (entryPoint phCount phEntrySize phAddr : Nat) :
    SameRegs (t.setUpStack libcPath args base path entryPoint phCount phEntrySize phAddr)
      (t'.setUpStack libcPath args base path entryPoint phCount phEntrySize phAddr) := by
  obtain ⟨hregs, hptrs⟩ := h.pushTexts libcPath args path
  unfold ExecTask.setUpStack
  simp only [hptrs]
  exact hregs.foldl_pushNum _

end SameRegs

/-! ## What a C program reads -/

/-- The arguments, the environment and the auxiliary vector, as they are on the stack. -/
structure ProcStart where
  argc : Nat
  argv : List Nat
  /-- the word behind the arguments -/
  argvEnd : Nat
  envp : List Nat
  auxv : List (Nat × Nat)

/-- The environment ends at a zero word, the auxiliary vector at a zero key; `none` when they do
not come within the bound. -/
def readStart (mem : ByteMem) (fuel sp : Nat) : Option ProcStart :=
  let argc := readLE mem sp 8
  let argv := (List.range argc).map (fun i => readLE mem (sp + 8 + 8 * i) 8)
  let argvEnd := readLE mem (sp + 8 + 8 * argc) 8
  (readUntilNull mem fuel (sp + 8 + 8 * argc + 8)).bind (fun envp =>
    (readPairs mem fuel (sp + 8 + 8 * argc + 8 + 8 * envp.length + 8)).map (fun auxv =>
      ⟨argc, argv, argvEnd, envp, auxv⟩))

theorem readStart_of_words {fuel : Nat} {argv envp : List Nat} {auxv : List (Nat × Nat)}
    (h : Words mem sp (argv.length :: (argv ++ 0 :: (envp ++ 0 ::
      (auxv.flatMap (fun p => [p.1, p.2]) ++ [0]))))) (henvp : ∀ ptr ∈ envp, ptr ≠ 0)
    (hauxv : ∀ p ∈ auxv, p.1 ≠ 0) (hfuel : envp.length < fuel) (hfuel' : auxv.length < fuel) :
    readStart mem fuel sp = some ⟨argv.length, argv, 0, envp, auxv⟩ := by
  have hargc := h.head
  have hargv := h.tail
  have hend := hargv.append_right
  have henv := hend.tail
  have haux := henv.append_right.tail
  have hwords : (List.range argv.length).map (fun i => readLE mem (sp + 8 + 8 * i) 8) = argv := by
    apply List.ext_getElem
    · simp
    intro i hi hi'
    rw [List.getElem_map, List.getElem_range]
    exact hargv.append_left i _ (List.getElem?_eq_getElem hi')
  have henvNull : Words mem (sp + 8 + 8 * argv.length + 8) (envp ++ [0]) := by
    rw [show envp ++ 0 :: (auxv.flatMap (fun p => [p.1, p.2]) ++ [0]) =
      envp ++ [0] ++ (auxv.flatMap (fun p => [p.1, p.2]) ++ [0]) by simp] at henv
    exact henv.append_left
  simp only [readStart, hargc, hend.head, hwords, readUntilNull_of_words henvNull henvp hfuel,
    Option.bind_some, readPairs_of_words haux hauxv hfuel', Option.map_some]

/-! ## What is found -/

section Layout

variable {top sp : Nat} {placed : List (Nat × StackItem)} {mem : ByteMem}

variable (mem) in
theorem holds_image (h : Descends StackItem.size top placed sp) {addr : Nat} {item : StackItem}
    (hmem : (addr, item) ∈ placed) :
    Holds (storeAll StackItem.image mem placed) addr item.image := by
  intro i b hb
  obtain ⟨hi, -⟩ := List.getElem?_eq_some_iff.mp hb
  have hlen := item.length_image_le
  rw [h.storeAll_at StackItem.length_image_le hmem (by omega), hb]
  rfl

/-- The memory was zero, so a string has a zero byte behind it. -/
theorem holds_bytes (h : Descends StackItem.size top placed sp)
    (hzero : ∀ a, sp ≤ a → a < top → mem a = 0) {addr : Nat} {data : List UInt8}
    (hmem : (addr, .bytes data) ∈ placed) :
    Holds (storeAll StackItem.image mem placed) addr (data ++ [0]) := by
  have hbounds := h.bounds hmem
  have hsize := StackItem.lt_size_bytes data
  intro i b hb
  obtain ⟨hi, -⟩ := List.getElem?_eq_some_iff.mp hb
  rw [List.length_append, List.length_singleton] at hi
  rw [h.storeAll_at StackItem.length_image_le hmem (by omega)]
  show (data[i]?).getD _ = b
  rcases Nat.lt_or_ge i data.length with hlt | hge
  · rw [List.getElem?_append_left hlt] at hb
    rw [hb]
    rfl
  · rw [List.getElem?_append_right hge, show i - data.length = 0 by omega] at hb
    rw [List.getElem?_eq_none hge]
    show mem (addr + i) = b
    rw [hzero _ (by omega) (by omega)]
    exact Option.some.inj hb

theorem size_of_nums {ns : List Nat} (hnums : placed.map Prod.snd = ns.map StackItem.num) :
    ∀ x ∈ placed, x.2.size = 8 := by
  intro x hx
  have hmem : x.2 ∈ ns.map StackItem.num := hnums ▸ List.mem_map_of_mem hx
  obtain ⟨n, -, hn⟩ := List.mem_map.mp hmem
  rw [← hn]
  rfl

variable (mem) in
/-- Words pushed one after the other are read back from the last one on. -/
theorem words_of_placed {below : List (Nat × StackItem)} {mid : Nat} {ns : List Nat}
    (hbelow : Descends StackItem.size top below mid) (h : Descends StackItem.size mid placed sp)
    (hnums : placed.map Prod.snd = ns.map StackItem.num) (hlt : ∀ n ∈ ns, n < 2 ^ 64) :
    Words (storeAll StackItem.image mem (placed ++ below)) sp ns := by
  intro i n hn
  have hsnd : (placed[i]?).map Prod.snd = some (.num n) := by
    rw [← List.getElem?_map, hnums, List.getElem?_map, hn]
    rfl
  obtain ⟨⟨addr, item⟩, hi, hitem⟩ := Option.map_eq_some_iff.mp hsnd
  obtain rfl : item = .num n := hitem
  have hholds := holds_image mem (hbelow.trans h)
    (List.mem_append_left below (List.mem_of_getElem? hi))
  rw [← h.addr_of_even (size_of_nums hnums) hi, readLE_of_holds hholds]
  exact Nat.mod_eq_of_lt (hlt n (List.mem_of_getElem? hn))

end Layout

/-- A text as a C program sees it, up to its first zero byte. -/
def cstr (s : String) : List UInt8 := s.toUTF8.toList.takeWhile (· != 0)

theorem cstr_of_notMem {s : String} (h : 0 ∉ s.toUTF8.toList) : cstr s = s.toUTF8.toList := by
  apply List.takeWhile_eq_self_iff.mpr
  intro b hb
  rw [bne_iff_ne]
  rintro rfl
  exact h hb

/-- What the whole takes: with the count, the three zero words, the four variables and the thirteen
pairs there are 34 words besides the arguments. -/
def stackNeed (libcPath : String) (args : List String) (path : String) : Nat :=
  textsNeed libcPath args path + 8 * (args.length + 34)

/-- What a program finds at its stack pointer. -/
structure StackLayout (mem : ByteMem) (sp : Nat) (libcPath : String) (args : List String)
    (path : String) (base entryPoint phCount phEntrySize phAddr : Nat) (start : ProcStart)
    (p : StackPtrs) : Prop where
  read : readStart mem userStackInitSize sp = some start
  argc : start.argc = args.length
  argv : start.argv.map (readCStr mem userStackInitSize)
    = args.map (fun arg => some arg.toUTF8.toList)
  argvEnd : start.argvEnd = 0
  envp : start.envp.map (readCStr mem userStackInitSize)
    = (defaultEnv libcPath).map (fun var => some (cstr var))
  auxv : ∀ pair, pair ∈ start.auxv
    ↔ pair ∈ ExecTask.auxv p base entryPoint phCount phEntrySize phAddr
  keys : (start.auxv.map Prod.fst).Nodup
  random : Holds mem p.random (List.replicate 16 0)
  platform : readCStr mem userStackInitSize p.platform = some (cstr "riscv")
  execfn : readCStr mem userStackInitSize p.execfn = some path.toUTF8.toList

/-- The words are from `sp` to `mid`, the strings with their ends from `mid` to `top`. -/
structure TextsAbove (placed : List (Nat × StackItem)) (sp mid top : Nat) : Prop where
  words : ∀ addr n, (addr, .num n) ∈ placed → sp ≤ addr ∧ addr + 8 ≤ mid
  texts : ∀ addr data, (addr, .bytes data) ∈ placed → mid ≤ addr ∧ addr + (data.length + 1) ≤ top

theorem textsAbove_of_placed {texts : List (Nat × StackItem)}
    (htexts : Descends StackItem.size top texts mid) (hwords : Descends StackItem.size mid words sp)
    (hbytes : ∀ x ∈ texts, ∃ data, x.2 = .bytes data) (hnums : ∀ x ∈ words, ∃ n, x.2 = .num n) :
    TextsAbove (words ++ texts) sp mid top where
  words := by
    intro addr n hmem
    rcases List.mem_append.mp hmem with hword | htext
    · exact hwords.bounds hword
    · obtain ⟨data, hdata⟩ := hbytes _ htext
      cases hdata
  texts := by
    intro addr data hmem
    rcases List.mem_append.mp hmem with hword | htext
    · obtain ⟨n, hn⟩ := hnums _ hword
      cases hn
    · have hbounds := htexts.bounds htext
      have hsize := StackItem.lt_size_bytes data
      omega

/-- The words upwards, from the stack pointer. -/
theorem reverse_startWords (p : StackPtrs) (auxv : List (Nat × Nat)) :
    (startWords p auxv).reverse = p.args.reverse.length :: (p.args.reverse ++ 0 ::
      (p.envp.reverse ++ 0 :: (auxv.reverse.flatMap (fun x => [x.1, x.2]) ++ [0]))) := by
  have hpairs : (auxv.flatMap (fun x => [x.2, x.1])).reverse =
      auxv.reverse.flatMap (fun x => [x.1, x.2]) := by
    rw [List.reverse_flatMap]
    rfl
  simp [startWords, hpairs]

section Found

variable {placed : List (Nat × StackItem)} {top sp : Nat} {mem : ByteMem}
  (h : Descends StackItem.size top placed sp) (hzero : ∀ a, sp ≤ a → a < top → mem a = 0)
  (hroom : top ≤ sp + userStackInitSize)

include h hzero hroom

/-- A text is read back from its pointer. -/
theorem readCStr_of_placed {ptr : Nat} {s : String} (hmem : (ptr, .text s) ∈ placed) :
    readCStr (storeAll StackItem.image mem placed) userStackInitSize ptr = some (cstr s) := by
  have hbounds := h.bounds hmem
  have hsize : s.toUTF8.toList.length < (StackItem.text s).size := StackItem.lt_size_bytes _
  exact readCStr_of_holds (holds_bytes h hzero hmem) (by omega)

theorem map_readCStr_of_placed {ptrs : List Nat} {texts : List String}
    (hplaced : List.Forall₂ (fun ptr s => (ptr, StackItem.text s) ∈ placed) ptrs texts) :
    ptrs.map (readCStr (storeAll StackItem.image mem placed) userStackInitSize)
      = texts.map (fun s => some (cstr s)) := by
  induction hplaced with
  | nil => rfl
  | cons hmem _ ih =>
    rw [List.map_cons, List.map_cons, ih, readCStr_of_placed h hzero hroom hmem]

end Found

/-! ## The call -/

theorem length_startWords (p : StackPtrs) (base entryPoint phCount phEntrySize phAddr : Nat) :
    (startWords p (auxv p base entryPoint phCount phEntrySize phAddr)).length =
      p.args.length + p.envp.length + 30 := by
  simp only [startWords, auxv, List.flatMap_cons, List.flatMap_nil, List.length_append,
    List.length_cons, List.length_nil]
  omega

theorem mem_of_forall₂
    (hplaced : List.Forall₂ (fun ptr s => (ptr, StackItem.text s) ∈ placed) ptrs texts)
    (hptr : ptr ∈ ptrs) : ∃ item, (ptr, item) ∈ placed := by
  induction hplaced with
  | nil => cases hptr
  | cons hmem _ ih =>
    rcases List.mem_cons.mp hptr with rfl | hptr
    · exact ⟨_, hmem⟩
    · exact ih hptr

/-- The pointers are to the strings, and so are no zero words. -/
theorem TextsPlaced.ptr_bounds (h : TextsPlaced placed p libcPath args path)
    (hdesc : Descends StackItem.size top placed sp)
    (hptr : ptr ∈ p.random :: p.platform :: p.execfn :: p.envp ++ p.args) :
    sp ≤ ptr ∧ ptr ≤ top := by
  have hmem : ∃ item, (ptr, item) ∈ placed := by
    simp only [List.cons_append, List.mem_cons, List.mem_append] at hptr
    rcases hptr with rfl | rfl | rfl | hptr | hptr
    · exact ⟨_, h.random⟩
    · exact ⟨_, h.platform⟩
    · exact ⟨_, h.execfn⟩
    · exact mem_of_forall₂ h.envp (List.mem_reverse.mpr hptr)
    · exact mem_of_forall₂ h.args (List.mem_reverse.mpr hptr)
  obtain ⟨item, hitem⟩ := hmem
  have hbounds := hdesc.bounds hitem
  omega

theorem wadd_lt (a b : Nat) : wadd a b < 2 ^ 64 := Nat.mod_lt _ (by decide)

theorem auxv_lt (hcount : phCount < 2 ^ 64) (hentry : phEntrySize < 2 ^ 64)
    (hrandom : p.random < 2 ^ 64) (hplatform : p.platform < 2 ^ 64) (hexecfn : p.execfn < 2 ^ 64) :
    ∀ pair ∈ auxv p base entryPoint phCount phEntrySize phAddr,
      pair.1 < 2 ^ 64 ∧ pair.2 < 2 ^ 64 := by
  have hphdr := wadd_lt base phAddr
  have hpc := wadd_lt base entryPoint
  have hpage : pageSize < 2 ^ 64 := by decide
  simp only [auxv, List.forall_mem_cons, hphdr, hentry, hcount, hpage, hpc, hplatform, hrandom,
    hexecfn]
  simp

/-- Every word fits, so that it is read back as it was. -/
theorem startWords_lt {auxv : List (Nat × Nat)}
    (hauxv : ∀ pair ∈ auxv, pair.1 < 2 ^ 64 ∧ pair.2 < 2 ^ 64) (hargc : p.args.length < 2 ^ 64)
    (hptr : ∀ ptr ∈ p.envp ++ p.args, ptr < 2 ^ 64) {n : Nat} (hn : n ∈ startWords p auxv) :
    n < 2 ^ 64 := by
  simp only [startWords, List.mem_append, List.mem_cons, List.mem_flatMap, List.not_mem_nil,
    or_false] at hn
  rcases hn with (((rfl | ⟨pair, hpair, hn⟩) | rfl | hn) | rfl | hn) | rfl
  · decide
  · have hlt := hauxv pair hpair
    rcases hn with rfl | rfl
    · exact hlt.2
    · exact hlt.1
  · decide
  · exact hptr n (List.mem_append_left _ hn)
  · decide
  · exact hptr n (List.mem_append_right _ hn)
  · exact hargc

/-- Strings, and words below them. -/
theorem setUpStack_pushed (base entryPoint phCount phEntrySize phAddr : Nat)
    (hroom : stackNeed libcPath args path ≤ t.cx.sp) (hsp : t.cx.sp < 2 ^ 64) :
    ∃ t₁ p texts words, Pushed t t₁ texts ∧ TextsPlaced texts p libcPath args path
      ∧ (∀ x ∈ texts, ∃ data, x.2 = .bytes data)
      ∧ Pushed t₁ (t.setUpStack libcPath args base path entryPoint phCount phEntrySize phAddr) words
      ∧ words.map Prod.snd = (startWords p
        (auxv p base entryPoint phCount phEntrySize phAddr)).reverse.map StackItem.num
      ∧ t₁.cx.sp + textsNeed libcPath args path = t.cx.sp
      ∧ (t.setUpStack libcPath args base path entryPoint phCount phEntrySize phAddr).cx.sp
        + 8 * (args.length + 34) = t₁.cx.sp := by
  unfold stackNeed at hroom
  obtain ⟨t₁, p, texts, heq, htexts, hplaced, hbytes, hleft⟩ := pushTexts_pushed (t := t)
    (show textsNeed libcPath args path ≤ t.cx.sp by omega) hsp
  have hargc : p.args.reverse.length = args.length := hplaced.args.length_eq
  have henvc : p.envp.reverse.length = 4 := hplaced.envp.length_eq
  rw [List.length_reverse] at hargc henvc
  have hlength := length_startWords p base entryPoint phCount phEntrySize phAddr
  obtain ⟨words, hwords, hnums⟩ := foldl_pushNum
    (show 8 * (startWords p (auxv p base entryPoint phCount phEntrySize phAddr)).length ≤ t₁.cx.sp
      by omega) (by omega)
  -- all pushes of words as one loop
  have hset : t.setUpStack libcPath args base path entryPoint phCount phEntrySize phAddr =
      (startWords p (auxv p base entryPoint phCount phEntrySize phAddr)).foldl pushNum t₁ := by
    simp only [setUpStack, heq]
  have hcount := congrArg List.length hnums
  rw [List.length_map, List.length_map, List.length_reverse] at hcount
  have hleft' := hwords.descends.total_of_even (size_of_nums hnums)
  rw [hset]
  exact ⟨t₁, p, texts, words, htexts, hplaced, hbytes, hwords, hnums, hleft, by omega⟩

/-- Strings and words read back. -/
theorem stackLayout_of_placed {texts : List (Nat × StackItem)}
    (htexts : Descends StackItem.size top texts mid)
    (hplaced : TextsPlaced texts p libcPath args path)
    (hwords : Descends StackItem.size mid words sp) (hnums : words.map Prod.snd = (startWords p
      (auxv p base entryPoint phCount phEntrySize phAddr)).reverse.map StackItem.num)
    (hargs : ∀ arg ∈ args, 0 ∉ arg.toUTF8.toList) (hpath : 0 ∉ path.toUTF8.toList)
    (hmany : args.length < 2 ^ 64) (hcount : phCount < 2 ^ 64) (hentry : phEntrySize < 2 ^ 64)
    (hzero : ∀ a, sp ≤ a → a < top → mem a = 0) (hroom : top ≤ sp + userStackInitSize)
    (hsp : 0 < sp) (htop : top < 2 ^ 64) :
    StackLayout (storeAll StackItem.image mem (words ++ texts)) sp libcPath args path base
      entryPoint phCount phEntrySize phAddr
      ⟨args.length, p.args.reverse, 0, p.envp.reverse,
        (auxv p base entryPoint phCount phEntrySize phAddr).reverse⟩ p := by
  have hdesc := htexts.trans hwords
  have hall := hplaced.mono (List.subset_append_right words texts)
  have hptr : ∀ ptr ∈ p.random :: p.platform :: p.execfn :: p.envp ++ p.args,
      0 < ptr ∧ ptr < 2 ^ 64 := by
    intro ptr hptr
    have hbounds := hall.ptr_bounds hdesc hptr
    omega
  have hargc : p.args.reverse.length = args.length := hplaced.args.length_eq
  have henvc : p.envp.reverse.length = 4 := hplaced.envp.length_eq
  have hlt : ∀ n ∈ (startWords p
      (auxv p base entryPoint phCount phEntrySize phAddr)).reverse, n < 2 ^ 64 := by
    intro n hn
    apply startWords_lt _ _ _ (List.mem_reverse.mp hn)
    · exact auxv_lt hcount hentry (hptr _ (by simp)).2 (hptr _ (by simp)).2 (hptr _ (by simp)).2
    · rw [← List.length_reverse, hargc]
      exact hmany
    · intro ptr hmem
      exact (hptr ptr (by simp [List.mem_append.mp hmem])).2
  have hread := words_of_placed mem htexts hwords hnums hlt
  rw [reverse_startWords] at hread
  refine ⟨?_, rfl, ?_, rfl, ?_, ?_, ?_, ?_, ?_, ?_⟩
  · rw [← hargc]
    apply readStart_of_words hread
    · intro ptr hmem
      have hpos := hptr ptr (by simp [List.mem_reverse.mp hmem])
      omega
    · simp [auxv]
    · rw [henvc]
      decide
    · show 13 < userStackInitSize
      decide
  · rw [map_readCStr_of_placed hdesc hzero hroom hall.args]
    apply List.map_congr_left
    intro arg harg
    rw [cstr_of_notMem (hargs arg harg)]
  · exact map_readCStr_of_placed hdesc hzero hroom hall.envp
  · intro pair
    exact List.mem_reverse
  · rw [List.map_reverse, List.nodup_reverse]
    show [3, 4, 5, 6, 9, 11, 12, 13, 14, 15, 23, 25, 31].Nodup
    decide
  · exact holds_image mem hdesc hall.random
  · exact readCStr_of_placed hdesc hzero hroom hall.platform
  · rw [readCStr_of_placed hdesc hzero hroom hall.execfn, cstr_of_notMem hpath]

/-- Everything from an empty stack on. -/
theorem setUpStack_layout (hsp : t.cx.sp = userStackTop) (base entryPoint phAddr : Nat)
    (hargs : ∀ arg ∈ args, 0 ∉ arg.toUTF8.toList) (hpath : 0 ∉ path.toUTF8.toList)
    (hcount : phCount < 2 ^ 64) (hentry : phEntrySize < 2 ^ 64)
    (hzero : ∀ a, userStackTop - userStackInitSize ≤ a → a < userStackTop → mem a = 0)
    (hfits : stackNeed libcPath args path ≤ userStackInitSize) :
    let t' := t.setUpStack libcPath args base path entryPoint phCount phEntrySize phAddr
    ∃ placed start p, t'.pushed = placed ++ t.pushed
      ∧ StackLayout (storeAll StackItem.image mem placed) t'.cx.sp libcPath args path base
        entryPoint phCount phEntrySize phAddr start p
      ∧ TextsAbove placed t'.cx.sp (t'.cx.sp + 8 * (args.length + 34)) userStackTop := by
  have htop : userStackTop = 0x80000000 := rfl
  have hinit : userStackInitSize = 0x20000 := rfl
  obtain ⟨t₁, p, texts, words, htexts, hplaced, hbytes, hwords, hnums, hleft, hleft'⟩ :=
    setUpStack_pushed (t := t) base entryPoint phCount phEntrySize phAddr
      (show stackNeed libcPath args path ≤ t.cx.sp by omega) (by omega)
  generalize t.setUpStack libcPath args base path entryPoint phCount phEntrySize phAddr = t'
    at hwords hleft' ⊢
  unfold stackNeed at hfits
  have hzero' : ∀ a, t'.cx.sp ≤ a → a < t.cx.sp → mem a = 0 := by
    intro a ha ha'
    exact hzero a (by omega) (by omega)
  have hlayout := stackLayout_of_placed htexts.descends hplaced hwords.descends hnums hargs hpath
    (by omega) hcount hentry hzero' (by omega) (by omega) (by omega)
  refine ⟨words ++ texts, _, p, (htexts.trans hwords).log, hlayout, ?_⟩
  rw [hleft', ← hsp]
  apply textsAbove_of_placed htexts.descends hwords.descends hbytes
  intro x hx
  have hmem : x.2 ∈ List.map StackItem.num _ := hnums ▸ List.mem_map_of_mem hx
  obtain ⟨n, -, hn⟩ := List.mem_map.mp hmem
  exact ⟨n, hn.symm⟩

theorem freshStack_sp (t : ExecTask) (alloc : Nat → MmapEnv) (base entryPoint heapBottom : Nat) :
    (t.freshStack alloc base entryPoint heapBottom).cx.sp = userStackTop := rfl

/-- The words at the stack pointer, with the strings they point at. -/
theorem initTaskStack_layout (t : ExecTask) (alloc : Nat → MmapEnv) (libcPath : String)
    (args : List String) (base : Nat) (path : String)
    (entryPoint phCount phEntrySize phAddr heapBottom : Nat) (mem : ByteMem)
    (hargs : ∀ arg ∈ args, 0 ∉ arg.toUTF8.toList) (hpath : 0 ∉ path.toUTF8.toList)
    (hcount : phCount < 2 ^ 64) (hentry : phEntrySize < 2 ^ 64)
    (hzero : ∀ a, userStackTop - userStackInitSize ≤ a → a < userStackTop → mem a = 0)
    (hfits : stackNeed libcPath args path ≤ userStackInitSize) :
    let t' := t.initTaskStack alloc libcPath args base path entryPoint phCount phEntrySize phAddr
      heapBottom
    ∃ placed start p, t'.pushed = placed ++ t.pushed
      ∧ StackLayout (storeAll StackItem.image mem placed) t'.cx.sp libcPath args path base
        entryPoint phCount phEntrySize phAddr start p
      ∧ TextsAbove placed t'.cx.sp (t'.cx.sp + 8 * (args.length + 34)) userStackTop := by
  rw [initTaskStack_eq]
  exact setUpStack_layout (freshStack_sp t alloc base entryPoint heapBottom) base entryPoint phAddr
    hargs hpath hcount hentry hzero hfits

/-- The stack of `sh -c`. -/
theorem initTaskStack_layout_sh :
    let t' := onePage.initTaskStack (fun _ => .bare) "/lib" ["sh", "-c"] 0 "/bin/sh" 0x10000 3 56
      0x10040 0x12000
    stackNeed "/lib" ["sh", "-c"] "/bin/sh" ≤ userStackInitSize
      ∧ ∃ placed start p, t'.pushed = placed ++ onePage.pushed
        ∧ StackLayout (storeAll StackItem.image (fun _ => 0) placed) t'.cx.sp "/lib" ["sh", "-c"]
          "/bin/sh" 0 0x10000 3 56 0x10040 start p
        ∧ TextsAbove placed t'.cx.sp (t'.cx.sp + 8 * (["sh", "-c"].length + 34)) userStackTop :=
  ⟨by decide +kernel, initTaskStack_layout onePage (fun _ => .bare) "/lib" ["sh", "-c"] 0 "/bin/sh"
    0x10000 3 56 0x10040 0x12000 (fun _ => 0) (by decide +kernel) (by decide +kernel) (by decide)
    (by decide) (fun _ _ _ => rfl) (by decide +kernel)⟩

end ExecTask
end MonkeyOS
