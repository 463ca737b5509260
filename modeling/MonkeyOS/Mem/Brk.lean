import MonkeyOS.Mem.Fork
import MonkeyOS.Mem.Mmap

/-!
# MonkeyOS — the heap of a process (`UserTask::sbrk` in `kernel/src/tasks/task.rs`, `sys_brk`)

`sbrk` allocates the pages between the old break and the new one, a page and an area at a time,
and then sets the break. It does not look at what the allocator answers, and it takes nothing away
when the break goes down.

* `grow_areas`, `grow_pt` — what the loop over the pages adds, and what it leaves alone;
* `sysBrk_read` — the pages below both breaks keep their contents, whatever happens;
* `soundBrk_iff` — the rest holds after a call exactly if every page is granted and every page is
  new.
-/

namespace MonkeyOS

open Lib

structure HeapTask where
  space : AddrSpace
  /-- the contents of the frames -/
  mem : Nat → Nat → UInt8
  /-- the break that `exec` set -/
  bottom : Nat
  heap : Nat

namespace HeapTask

/-- Any address space, with the break at the bottom. -/
def start (space : AddrSpace) (mem : Nat → Nat → UInt8) (bottom : Nat) : HeapTask :=
  ⟨space, mem, bottom, bottom⟩

/-- One round of the loop; a page that is refused is passed over. -/
def growPage (alloc : Nat → MmapEnv) (space : AddrSpace) (i : Nat) : AddrSpace :=
  ((space.frameAlloc (alloc i) (i * pageSize) .mmap 1).map Prod.snd).getD space

/-- `curr_page..after_page`. -/
def grown (s : HeapTask) (addr : Nat) : List Nat :=
  let currPage := divCeil s.heap pageSize
  let afterPage := divCeil addr pageSize
  List.range' currPage (afterPage - currPage)

/-- `UserTask::sbrk`; `alloc i` is the allocator when it is asked for page `i`. -/
def sbrk (s : HeapTask) (alloc : Nat → MmapEnv) (addr : Nat) : Nat × HeapTask :=
  (addr, { s with space := (s.grown addr).foldl (growPage alloc) s.space, heap := addr })

def sysBrk (s : HeapTask) (alloc : Nat → MmapEnv) (addr : Nat) : Nat × HeapTask :=
  if addr = 0 then (s.heap, s) else s.sbrk alloc addr

/-- What the program reads at an address. -/
def read (s : HeapTask) (x : Nat) : UInt8 := Proc.read ⟨s.space.memset, s.space.pt⟩ s.mem x

/-- A store of the program, where the page table lets it through. -/
def store (s : HeapTask) (x : Nat) (b : UInt8) : HeapTask :=
  match s.space.pt (floor x) with
  | some pte =>
    if pte.flags.writable then
      { s with mem := fun f o => if f = pte.frame ∧ o = x % pageSize then b else s.mem f o }
    else s
  | none => s

end HeapTask

inductive BrkCall where
  | brk (alloc : Nat → MmapEnv) (addr : Nat)
  | store (x : Nat) (b : UInt8)

namespace HeapTask

def exec (s : HeapTask) : BrkCall → HeapTask
  | .brk alloc addr => (s.sysBrk alloc addr).2
  | .store x b => s.store x b

/-- A break that is not zero and not below the bottom. -/
def Allowed (s : HeapTask) : BrkCall → Prop
  | .brk _ addr => addr ≠ 0 ∧ s.bottom ≤ addr
  | .store _ _ => True

/-! ## What a call should keep -/

/-- The address is in a page of `[bottom, heap)`. -/
def InHeap (s : HeapTask) (x : Nat) : Prop :=
  s.bottom ≤ x ∧ x < divCeil s.heap pageSize * pageSize

/-- Exactly one area covers the address, and it holds exactly one tracker for its page. -/
def Once (areas : List MemArea) (x : Nat) : Prop :=
  ∃ a, areas.filter (·.contains x) = [a]
    ∧ a.mtrackers.countP (fun t => t.vaddr == floor x) = 1

def Consistent (s : HeapTask) : Prop := ∀ x, s.InHeap x → Once s.space.memset.areas x

/-- The allocator refuses a page of the call. -/
def RunsOut (s : HeapTask) (alloc : Nat → MmapEnv) (addr : Nat) : Prop :=
  ∃ i ∈ s.grown addr, (alloc i).frameAllocMuch 1 = none

/-- After a `sys_brk` the heap is consistent, the pages of the heap before and after have the
contents they had, and if memory ran out the old break is returned. -/
structure SoundBrk (s : HeapTask) (alloc : Nat → MmapEnv) (addr : Nat) : Prop where
  consistent : (s.sysBrk alloc addr).2.Consistent
  keeps : ∀ x, s.InHeap x → (s.sysBrk alloc addr).2.InHeap x →
    (s.sysBrk alloc addr).2.read x = s.read x
  refused : s.RunsOut alloc addr → (s.sysBrk alloc addr).1 = s.heap

def Sound (s : HeapTask) : BrkCall → Prop
  | .brk alloc addr => s.SoundBrk alloc addr
  | .store _ _ => True

/-- Every page the call grows over is granted, and in no area yet. -/
def Grants (s : HeapTask) : BrkCall → Prop
  | .brk alloc addr => ∀ i ∈ s.grown addr, ((alloc i).frameAllocMuch 1).isSome = true
      ∧ ∀ a ∈ s.space.memset.areas, ∀ x, x / pageSize = i → ¬ a.contains x = true
  | .store _ _ => True

/-! ## The loop over the pages -/

/-- The area of page `i`. -/
def heapArea (i frame : Nat) : MemArea :=
  ⟨.mmap, [⟨i * pageSize, frame, 0⟩], none, 0, i * pageSize, pageSize⟩

theorem contains_heapArea (i frame x : Nat) :
    (heapArea i frame).contains x = true ↔ x / pageSize = i := by
  rw [MemArea.contains_iff, Nat.div_eq_iff pageSize_pos]
  show i * pageSize ≤ x ∧ x < i * pageSize + pageSize ↔ _
  have hpos := pageSize_pos
  omega

variable {x i : Nat} {pages : List Nat}

theorem growPage_none {alloc : Nat → MmapEnv} (h : (alloc i).frameAllocMuch 1 = none)
    (space : AddrSpace) : growPage alloc space i = space := by
  unfold growPage AddrSpace.frameAlloc
  rw [if_neg (fun h => by omega)]
  unfold AddrSpace.mapFrames
  rw [h]
  rfl

theorem growPage_some {alloc : Nat → MmapEnv} {frame : Nat}
    (h : (alloc i).frameAllocMuch 1 = some frame) (space : AddrSpace) :
    growPage alloc space i = space.install (i * pageSize) (heapArea i frame) urwx := by
  have hpages : pageTrackers (i * pageSize) (contiguous frame 1) = [⟨i * pageSize, frame, 0⟩] := by
    simp [pageTrackers, contiguous]
  unfold growPage AddrSpace.frameAlloc
  rw [if_neg (fun h => by omega)]
  simp [AddrSpace.mapFrames, h, hpages, heapArea, MemType.allocFlags]

/-- The areas of the pages that were granted. -/
def granted (alloc : Nat → MmapEnv) (pages : List Nat) : List MemArea :=
  pages.filterMap (fun i => ((alloc i).frameAllocMuch 1).map (heapArea i))

theorem grow_areas (alloc : Nat → MmapEnv) (pages : List Nat) (space : AddrSpace) :
    (pages.foldl (growPage alloc) space).memset.areas
      = space.memset.areas ++ granted alloc pages := by
  unfold granted
  induction pages generalizing space with
  | nil => exact (List.append_nil _).symm
  | cons i pages ih =>
    rw [List.foldl_cons, ih]
    cases h : (alloc i).frameAllocMuch 1 with
    | none => rw [growPage_none h, List.filterMap_cons_none (by rw [h]; rfl)]
    | some frame =>
      rw [growPage_some h, List.filterMap_cons_some (by rw [h]; rfl)]
      exact List.append_assoc _ _ _

/-- The entry of a page that the loop does not come by. -/
theorem grow_pt (alloc : Nat → MmapEnv) {v : Nat} (hv : ∀ i ∈ pages, i * pageSize ≠ v)
    (space : AddrSpace) :
    (pages.foldl (growPage alloc) space).pt v = space.pt v := by
  induction pages generalizing space with
  | nil => rfl
  | cons i pages ih =>
    rw [List.foldl_cons, ih (fun j hj => hv j (List.mem_cons_of_mem i hj))]
    cases h : (alloc i).frameAllocMuch 1 with
    | none => rw [growPage_none h]
    | some frame =>
      rw [growPage_some h]
      show (space.mapArea (i * pageSize) (heapArea i frame) urwx) v = space.pt v
      unfold AddrSpace.mapArea
      split
      · apply PageTable.mapTrackers_of_not_mem
        intro t ht
        rw [List.mem_singleton.mp (List.mem_filter.mp ht).1]
        exact hv i List.mem_cons_self
      · rfl

/-- The new areas that cover an address: the one of its page, if that was granted. -/
theorem filter_granted (alloc : Nat → MmapEnv) (hnodup : pages.Nodup) (x : Nat) :
    (granted alloc pages).filter (·.contains x)
      = if x / pageSize ∈ pages then
          (((alloc (x / pageSize)).frameAllocMuch 1).map (heapArea (x / pageSize))).toList
        else [] := by
  unfold granted
  induction pages with
  | nil => rfl
  | cons i pages ih =>
    obtain ⟨hi, hrest⟩ := List.nodup_cons.mp hnodup
    rw [List.filterMap_cons]
    by_cases hx : x / pageSize = i
    · -- no later page is this one
      have hout : x / pageSize ∉ pages := by
        rw [hx]
        exact hi
      have hnone := ih hrest
      rw [if_neg hout] at hnone
      rw [if_pos (hx ▸ List.mem_cons_self), hx]
      cases (alloc i).frameAllocMuch 1 with
      | none => exact hnone
      | some frame =>
        rw [Option.map_some]
        dsimp only
        rw [List.filter_cons, if_pos ((contains_heapArea i frame x).mpr hx), hnone]
        rfl
    · have hmem : x / pageSize ∈ i :: pages ↔ x / pageSize ∈ pages := by
        rw [List.mem_cons]
        exact or_iff_right hx
      simp only [hmem, ← ih hrest]
      cases (alloc i).frameAllocMuch 1 with
      | none => rfl
      | some frame =>
        rw [Option.map_some]
        dsimp only
        rw [List.filter_cons, if_neg (fun h => hx ((contains_heapArea i frame x).mp h))]

/-! ## One call -/

variable {s : HeapTask} {alloc : Nat → MmapEnv} {addr : Nat}

theorem mem_grown :
    i ∈ s.grown addr ↔ divCeil s.heap pageSize ≤ i ∧ i < divCeil addr pageSize := by
  show i ∈ List.range' _ _ ↔ _
  rw [List.mem_range'_1]
  omega

theorem nodup_grown : (s.grown addr).Nodup := List.nodup_range'

theorem inHeap_iff :
    s.InHeap x ↔ s.bottom ≤ x ∧ x / pageSize < divCeil s.heap pageSize := by
  unfold InHeap
  rw [Nat.div_lt_iff_lt_mul pageSize_pos]

/-- A query grows over no page. -/
theorem grown_zero : s.grown 0 = [] := by
  apply List.eq_nil_iff_forall_not_mem.mpr
  intro i hi
  exact Nat.not_lt_zero i (mem_grown.mp hi).2

/-- **Contents.** The pages of the heap before and after a call are not remapped. -/
theorem sysBrk_read (hx : s.InHeap x) : (s.sysBrk alloc addr).2.read x = s.read x := by
  unfold sysBrk
  split
  · rfl
  have hpt : ((s.grown addr).foldl (growPage alloc) s.space).pt (floor x)
      = s.space.pt (floor x) := by
    apply grow_pt
    intro i hi heq
    have hpage : i = x / pageSize := Nat.eq_of_mul_eq_mul_right pageSize_pos heq
    have hlow := (mem_grown.mp hi).1
    have hhigh := (inHeap_iff.mp hx).2
    omega
  show Proc.read _ s.mem x = Proc.read _ s.mem x
  unfold Proc.read
  dsimp only [sbrk]
  rw [hpt]

/-- The areas over an address after a call. -/
theorem filter_sbrk (x : Nat) :
    (s.sbrk alloc addr).2.space.memset.areas.filter (·.contains x)
      = s.space.memset.areas.filter (·.contains x)
        ++ if x / pageSize ∈ s.grown addr then
            (((alloc (x / pageSize)).frameAllocMuch 1).map (heapArea (x / pageSize))).toList
          else [] := by
  show ((s.grown addr).foldl (growPage alloc) s.space).memset.areas.filter _ = _
  rw [grow_areas, List.filter_append, filter_granted alloc nodup_grown]

/-- New pages, all granted, make the larger heap consistent. -/
theorem Consistent.sbrk (hc : s.Consistent) (hg : s.Grants (.brk alloc addr)) :
    (s.sbrk alloc addr).2.Consistent := by
  intro x hx
  obtain ⟨hbottom, hpage⟩ := inHeap_iff.mp hx
  unfold Once
  rw [filter_sbrk]
  by_cases hgrown : x / pageSize ∈ s.grown addr
  · rw [if_pos hgrown]
    obtain ⟨hsome, hnew⟩ := hg _ hgrown
    obtain ⟨frame, hframe⟩ := Option.isSome_iff_exists.mp hsome
    have hold : s.space.memset.areas.filter (·.contains x) = [] := by
      rw [List.filter_eq_nil_iff]
      intro a ha
      exact hnew a ha x rfl
    refine ⟨heapArea (x / pageSize) frame, ?_, ?_⟩
    · rw [hold, hframe]
      rfl
    · show List.countP _ [(⟨floor x, frame, 0⟩ : MapTrack)] = 1
      rw [List.countP_singleton, if_pos (beq_self_eq_true (floor x))]
  · rw [if_neg hgrown, List.append_nil]
    apply hc
    apply inHeap_iff.mpr
    refine ⟨hbottom, ?_⟩
    -- below the new break and not grown over: below the old one
    have hpage' : x / pageSize < divCeil addr pageSize := hpage
    rw [mem_grown] at hgrown
    omega

/-- Above the bottom, pages grown over are pages of the heap. -/
theorem inHeap_of_grown (habove : s.bottom ≤ s.heap) (hx : x / pageSize ∈ s.grown addr) :
    (s.sbrk alloc addr).2.InHeap x := by
  obtain ⟨hlow, hhigh⟩ := mem_grown.mp hx
  apply inHeap_iff.mpr
  refine ⟨?_, hhigh⟩
  have hceil := le_mul_divCeil s.heap pageSize_pos
  have hmul : pageSize * divCeil s.heap pageSize ≤ pageSize * (x / pageSize) :=
    Nat.mul_le_mul_left _ hlow
  have hdiv := Nat.mul_div_le x pageSize
  show s.bottom ≤ x
  omega

theorem sysBrk_zero : s.sysBrk alloc 0 = (s.heap, s) := if_pos rfl

theorem sysBrk_of_ne (haddr : addr ≠ 0) : s.sysBrk alloc addr = s.sbrk alloc addr := if_neg haddr

/-- A call that has moved the break up and is sound was refused nothing. -/
theorem SoundBrk.granted (hsound : s.SoundBrk alloc addr) (haddr : addr ≠ 0)
    (hi : i ∈ s.grown addr) : ∃ frame, (alloc i).frameAllocMuch 1 = some frame := by
  apply Option.ne_none_iff_exists'.mp
  intro hnone
  have hret := hsound.refused ⟨i, hi, hnone⟩
  rw [sysBrk_of_ne haddr] at hret
  have hsame : addr = s.heap := hret
  have hrange := mem_grown.mp hi
  rw [hsame] at hrange
  omega

/-- And no page it has grown over was in an area, which would be the second one now. -/
theorem SoundBrk.new (hsound : s.SoundBrk alloc addr) (haddr : addr ≠ 0)
    (habove : s.bottom ≤ s.heap) (hx : x / pageSize ∈ s.grown addr) {a : MemArea}
    (ha : a ∈ s.space.memset.areas) : ¬ a.contains x = true := by
  intro hcontains
  obtain ⟨frame, hframe⟩ := hsound.granted haddr hx
  have hconsistent := hsound.consistent
  rw [sysBrk_of_ne haddr] at hconsistent
  obtain ⟨b, hb, -⟩ := hconsistent x (inHeap_of_grown habove hx)
  rw [filter_sbrk, if_pos hx, hframe] at hb
  have hlen := congrArg List.length hb
  rw [List.length_append, List.length_singleton] at hlen
  have hpos : 0 < (s.space.memset.areas.filter (·.contains x)).length :=
    List.length_pos_of_mem (List.mem_filter.mpr ⟨ha, hcontains⟩)
  have hone : (Option.map (heapArea (x / pageSize)) (some frame)).toList.length = 1 := rfl
  omega

/-- **One call.** -/
theorem soundBrk_iff (habove : s.bottom ≤ s.heap) (hc : s.Consistent) :
    s.SoundBrk alloc addr ↔ s.Grants (.brk alloc addr) := by
  by_cases haddr : addr = 0
  · subst haddr
    refine iff_of_true ⟨?_, fun x hx _ => sysBrk_read hx, ?_⟩ ?_
    · rw [sysBrk_zero]
      exact hc
    · intro _
      rw [sysBrk_zero]
    · intro i hi
      rw [grown_zero] at hi
      cases hi
  · constructor
    · intro hsound i hi
      refine ⟨Option.isSome_iff_exists.mpr (hsound.granted haddr hi), fun a ha x hx => ?_⟩
      subst hx
      exact hsound.new haddr habove hi ha
    · intro hg
      refine ⟨?_, fun x hx _ => sysBrk_read hx, ?_⟩
      · rw [sysBrk_of_ne haddr]
        exact hc.sbrk hg
      intro hout
      obtain ⟨i, hi, hnone⟩ := hout
      have hsome := (hg i hi).1
      rw [hnone] at hsome
      cases hsome

theorem store_space (s : HeapTask) (x : Nat) (b : UInt8) :
    (s.store x b).space = s.space ∧ (s.store x b).bottom = s.bottom
      ∧ (s.store x b).heap = s.heap := by
  unfold store
  split
  · split
    · exact ⟨rfl, rfl, rfl⟩
    · exact ⟨rfl, rfl, rfl⟩
  · exact ⟨rfl, rfl, rfl⟩

end HeapTask

/-- A break that is asked for at or above the bottom, or a store. -/
def BrkStep (s : HeapTask) (call : BrkCall) (t : HeapTask) : Prop :=
  s.Allowed call ∧ t = s.exec call

/-- **The heap of a process.** For every address space with a page-aligned bottom, over every
sequence of breaks and stores, every call is sound exactly if every call that moves the break up is
granted all its pages and grows over no area. -/
theorem brk_sound_iff (space : AddrSpace) (mem : Nat → Nat → UInt8) {bottom : Nat}
    (halign : bottom % pageSize = 0) (calls : List BrkCall) :
    Throughout BrkStep HeapTask.Sound (.start space mem bottom) calls
      ↔ Throughout BrkStep HeapTask.Grants (.start space mem bottom) calls := by
  apply throughout_iff (I := fun s => s.bottom ≤ s.heap ∧ s.Consistent)
  · intro s call hs
    cases call with
    | brk alloc addr => exact HeapTask.soundBrk_iff hs.1 hs.2
    | store x b => exact Iff.rfl
  · intro s call t hs hg hstep
    rw [hstep.2]
    cases call with
    | brk alloc addr =>
      obtain ⟨hne, hle⟩ := hstep.1
      show (s.sysBrk alloc addr).2.bottom ≤ (s.sysBrk alloc addr).2.heap
        ∧ (s.sysBrk alloc addr).2.Consistent
      rw [HeapTask.sysBrk_of_ne hne]
      exact ⟨hle, hs.2.sbrk hg⟩
    | store x b =>
      obtain ⟨hspace, hbottom, hheap⟩ := s.store_space x b
      show (s.store x b).bottom ≤ (s.store x b).heap ∧ (s.store x b).Consistent
      unfold HeapTask.Consistent HeapTask.InHeap
      rw [hspace, hbottom, hheap]
      exact hs
  · refine ⟨Nat.le_refl bottom, fun x hx => ?_⟩
    -- no address is in a heap of no page
    have hceil := divCeil_mul_cancel halign
    have hlow : bottom ≤ x := hx.1
    have hhigh : x < divCeil bottom pageSize * pageSize := hx.2
    omega

/-- An allocator that answers with the given frame. -/
def MmapEnv.giving (frame : Nat) : MmapEnv :=
  ⟨fun _ => none, fun _ => some frame, fun _ => none, [], none⟩

/-- A process with no area, and its break at `0x11000`. -/
def HeapTask.fresh : HeapTask := .start .empty (fun _ _ => 0) 0x11000

/-- A page, a store into it, another page, and back down. -/
theorem brk_sound_iff_two_pages :
    0x11000 % pageSize = 0
      ∧ Throughout BrkStep HeapTask.Sound HeapTask.fresh
        [.brk (fun i => .giving (i * 0x1000)) 0x12000, .store 0x11008 7,
          .brk (fun i => .giving (i * 0x1000)) 0x13000,
          .brk (fun i => .giving (i * 0x1000)) 0x12000] := by
  refine ⟨rfl, (brk_sound_iff .empty (fun _ _ => 0) rfl _).mpr ?_⟩
  refine throughout_cons.mpr ⟨fun i _ => ⟨rfl, fun a ha => nomatch ha⟩, fun t ht => ?_⟩
  refine throughout_cons.mpr ⟨trivial, fun u hu => ?_⟩
  have hareas : u.space.memset.areas = [HeapTask.heapArea 0x11 0x11000] := by
    rw [hu.2, ht.2]
    decide +kernel
  have hheap : u.heap = 0x12000 := by
    rw [hu.2, ht.2]
    rfl
  refine throughout_cons.mpr ⟨fun i hi => ⟨rfl, fun a ha x hx hcontains => ?_⟩, fun v hv => ?_⟩
  · -- the one area is the page below
    rw [hareas] at ha
    rw [List.mem_singleton.mp ha, HeapTask.contains_heapArea] at hcontains
    have hlow := (HeapTask.mem_grown.mp hi).1
    rw [hheap] at hlow
    have hceil : divCeil 0x12000 pageSize = 0x12 := rfl
    omega
  · have hheap' : v.heap = 0x13000 := by
      rw [hv.2]
      rfl
    refine throughout_cons.mpr ⟨fun i hi => ?_, fun w _ bs c cs x h => by simp at h⟩
    have hrange := HeapTask.mem_grown.mp hi
    rw [hheap'] at hrange
    have hceil : divCeil 0x13000 pageSize = 0x13 := rfl
    have hceil' : divCeil 0x12000 pageSize = 0x12 := rfl
    omega

/-- Up, down and up again: the page has two areas. And a break that finds no memory: the new break
is returned, and the heap has a page that no area covers. -/
theorem brk_regrow_duplicates :
    (∃ t, Run BrkStep HeapTask.fresh
        [.brk (fun _ => .giving 0x80000000) 0x12000, .brk (fun _ => .giving 0x80001000) 0x11000,
          .brk (fun _ => .giving 0x80001000) 0x12000] t
      ∧ t.InHeap 0x11000
      ∧ (t.space.memset.areas.filter (fun a => a.contains 0x11000)).length = 2)
    ∧ HeapTask.fresh.RunsOut (fun _ => .bare) 0x12000
    ∧ (HeapTask.fresh.sysBrk (fun _ => .bare) 0x12000).1 ≠ HeapTask.fresh.heap
    ∧ ∃ t, Run BrkStep HeapTask.fresh [.brk (fun _ => .bare) 0x12000] t
      ∧ t.InHeap 0x11000 ∧ t.space.memset.areas = [] :=
  ⟨⟨_, .cons ⟨⟨by decide, by decide⟩, rfl⟩ (.cons ⟨⟨by decide, by decide⟩, rfl⟩
      (.cons ⟨⟨by decide, by decide⟩, rfl⟩ (.nil _))),
      ⟨by decide, by decide⟩, by decide⟩,
    ⟨0x11, by decide, rfl⟩, by decide,
    ⟨_, .cons ⟨⟨by decide, by decide⟩, rfl⟩ (.nil _), ⟨by decide, by decide⟩, rfl⟩⟩

end MonkeyOS
