import MonkeyOS.Lib.Align
import MonkeyOS.Lib.First
import MonkeyOS.Lib.Range
import MonkeyOS.Lib.Run

/-!
# MonkeyOS — the large-block pool (`crates/runtime/src/heap.rs`)

`HybridAllocator` sends every request above 64 KiB to `LargeAllocator`, which keeps a list
of records `(offset, size, is_free)` over a 128 MiB pool. Frees are lazy (the record is only
marked), compaction drops the marked records, and near exhaustion `emergency_reset` applies
one of three policies.

* `findFreeBlock_fits` — the gap search over the used ranges finds room;
* `alloc_cases` / `dealloc_cases` — everything a call can do to the records that are in use,
  as long as the last policy does not fire;
* `largeAllocator_run_sound` — the blocks the callers hold never overlap, over whole runs.

The last policy of `emergency_reset` truncates the record list to its first half, blocks in use
or not. The run theorem therefore asks that no request meets it;
`largeAllocator_hands_out_twice` is a run that does.

Offsets and sizes are natural numbers. A `Layout` bounds size and alignment together by
`isize::MAX`, and every offset stays below the pool size, so none of the sums wraps.
-/

namespace MonkeyOS

open Lib

def largeAllocThreshold : Nat := 64 * 1024

def largePoolSize : Nat := 128 * 1024 * 1024

/-- `core::alloc::Layout`: a power-of-two alignment, and a size that rounded up to it stays
within `isize::MAX`. -/
structure Layout where
  size : Nat
  align : Nat
  align_pow : ∃ k, align = 2 ^ k
  size_le : size + (align - 1) ≤ 2 ^ 63 - 1
  deriving DecidableEq

/-- An entry `(offset, size, is_free)` of `allocations`. -/
structure Record where
  offset : Nat
  size : Nat
  isFree : Bool
  deriving DecidableEq

def Record.range (r : Record) : Nat × Nat := (r.offset, r.offset + r.size)

structure LargeAllocator where
  allocations : List Record
  deriving DecidableEq

/-! ## The functions of `LargeAllocator` -/

/-- The loop of `find_free_block` over the sorted used ranges. -/
def gapSearch (size align : Nat) : List (Nat × Nat) → Nat → Option Nat
  | [], currentPos =>
    -- the space behind the last range
    let alignedPos := alignMask currentPos align
    if alignedPos + size ≤ largePoolSize then some alignedPos else none
  | (rangeStart, rangeEnd) :: rest, currentPos =>
    let alignedPos := alignMask currentPos align
    if alignedPos + size ≤ rangeStart then some alignedPos
    else gapSearch size align rest rangeEnd

/-- The loops of `dealloc`: mark the first record that meets `p`. -/
def markFirst (p : Record → Bool) (rs : List Record) : Option (List Record) :=
  updateFirst p (fun r => { r with isFree := true }) rs

namespace LargeAllocator

def new : LargeAllocator := ⟨[]⟩

/-- The records with `!is_free`. -/
def used (a : LargeAllocator) : List Record := a.allocations.filter (fun r => !r.isFree)

def getEndOffset (a : LargeAllocator) : Nat :=
  (a.used.map (fun r => r.offset + r.size)).max?.getD 0

/-- `get_allocation_stats`: how many records are free, how many in use. -/
def getAllocationStats (a : LargeAllocator) : Nat × Nat :=
  let freeCount := a.allocations.countP (·.isFree)
  (freeCount, a.allocations.length - freeCount)

def findFreeBlock (a : LargeAllocator) (size align : Nat) : Option Nat :=
  gapSearch size align ((a.used.map Record.range).insertionSort ByStart) 0

/-- `compact_memory`: drop the marked records; the flag says whether there were any. -/
def compactMemory (a : LargeAllocator) : Bool × LargeAllocator :=
  (decide (a.allocations.length > a.used.length), ⟨a.used⟩)

/-- The `retain` of the second policy of `emergency_reset`. -/
def retainLarge (a : LargeAllocator) : LargeAllocator :=
  ⟨a.allocations.filter (fun r => r.isFree || decide (r.size ≥ 64 * 1024))⟩

def emergencyReset (a : LargeAllocator) : Bool × LargeAllocator :=
  if a.getAllocationStats.1 * 3 ≥ a.getAllocationStats.2 then
    (true, ⟨a.used⟩)
  else
    let oldLen := a.allocations.length
    -- the `retain` stays in effect when it removed nothing and the next policy is tried
    let b := if oldLen > 800 then a.retainLarge else a
    if oldLen > 800 ∧ b.allocations.length < oldLen then (true, b)
    else if b.allocations.length > 500 then
      (true, ⟨b.allocations.take (b.allocations.length / 2)⟩)
    else (false, b)

def push (a : LargeAllocator) (offset size : Nat) : LargeAllocator :=
  ⟨a.allocations ++ [⟨offset, size, false⟩]⟩

/-- The first step of `alloc`: the reset, when less than a tenth of the pool is left. -/
def beforeAlloc (a : LargeAllocator) : LargeAllocator :=
  if largePoolSize - a.getEndOffset < largePoolSize / 10 ∧ a.allocations.length > 100 then
    a.emergencyReset.2
  else a

/-- The last resort of `alloc`: behind the last used range. -/
def allocAtEnd (a : LargeAllocator) (size align : Nat) : Option Nat × LargeAllocator :=
  let alignedOffset := alignMask a.getEndOffset align
  if alignedOffset + size ≤ largePoolSize then (some alignedOffset, a.push alignedOffset size)
  else (none, a)

/-- `alloc`, with the offset in the pool for the pointer. -/
def alloc (a : LargeAllocator) (size align : Nat) : Option Nat × LargeAllocator :=
  let a := a.beforeAlloc
  match a.findFreeBlock size align with
  | some offset => (some offset, a.push offset size)
  | none =>
    let (compacted, a) := a.compactMemory
    match (if compacted then a.findFreeBlock size align else none) with
    | some offset => (some offset, a.push offset size)
    | none => a.allocAtEnd size align

/-- The compaction `dealloc` triggers after an exact match. -/
def afterDealloc (a : LargeAllocator) : LargeAllocator :=
  let (freeCount, usedCount) := a.getAllocationStats
  if freeCount ≥ 50 ∨ (freeCount > 0 ∧ freeCount * 4 ≥ usedCount) then a.compactMemory.2 else a

/-- `dealloc`, with the offset in the pool for the pointer. -/
def dealloc (a : LargeAllocator) (offset size : Nat) : LargeAllocator :=
  match markFirst (fun r => r.offset == offset && r.size == size && !r.isFree) a.allocations with
  | some rs => afterDealloc ⟨rs⟩
  | none =>
    -- no exact match: the first used record that contains the address
    match markFirst (fun r => !r.isFree && decide (offset ≥ r.offset)
        && decide (offset < r.offset + r.size)) a.allocations with
    | some rs => ⟨rs⟩
    | none => a

/-! ## Room for a block

What the search promises, given that the used ranges are apart and inside the pool: the
offset is aligned and `[offset, offset + size)` is apart from every used range. -/

structure WF (a : LargeAllocator) : Prop where
  apart : (a.used.map Record.range).Pairwise Apart
  large : ∀ r ∈ a.used, largeAllocThreshold < r.size
  inPool : ∀ r ∈ a.used, r.offset + r.size ≤ largePoolSize

structure Fits (a : LargeAllocator) (l : Layout) (offset : Nat) : Prop where
  aligned : l.align ∣ offset
  inPool : offset + l.size ≤ largePoolSize
  apart : ∀ r ∈ a.used, Apart (offset, offset + l.size) r.range

end LargeAllocator

variable {align k n : Nat} {s : HeapState}

/-- Rounding up a position of the pool does not wrap, and ends at the next multiple. -/
theorem alignMask_pool {pos : Nat} (halign : align = 2 ^ k) (hk : k < 64)
    (hpos : pos ≤ largePoolSize) :
    align ∣ alignMask pos align ∧ pos ≤ alignMask pos align
      ∧ ∀ n, align ∣ n → pos ≤ n → alignMask pos align ≤ n := by
  have hhalf : align ≤ 2 ^ 63 := by
    rw [halign]
    exact Nat.pow_le_pow_right (by decide) (by omega)
  have hlt : pos + align - 1 < 2 ^ 64 := by
    unfold largePoolSize at hpos
    omega
  exact ⟨dvd_alignMask halign hlt hhalf, le_alignMask halign hlt hhalf,
    fun n hdvd hle => alignMask_le halign hlt hhalf hdvd hle⟩

theorem Layout.align_lt (l : Layout) : ∃ k, l.align = 2 ^ k ∧ k < 64 := by
  obtain ⟨k, hk⟩ := l.align_pow
  have hsize := l.size_le
  refine ⟨k, hk, ?_⟩
  by_contra hge
  have hpow : 2 ^ 64 ≤ 2 ^ k := Nat.pow_le_pow_right (by decide) (Nat.le_of_not_lt hge)
  omega

theorem gapSearch_fits {size : Nat} (halign : align = 2 ^ k) (hk : k < 64)
    {ranges : List (Nat × Nat)} {currentPos offset : Nat}
    (hordered : ranges.Pairwise (fun a b => a.2 ≤ b.1))
    (hranges : ∀ r ∈ ranges, r.1 < r.2 ∧ r.2 ≤ largePoolSize) (hcur : currentPos ≤ largePoolSize)
    (hahead : ∀ r ∈ ranges, currentPos ≤ r.1)
    (h : gapSearch size align ranges currentPos = some offset) :
    align ∣ offset ∧ currentPos ≤ offset ∧ offset + size ≤ largePoolSize
      ∧ ∀ r ∈ ranges, Apart (offset, offset + size) r := by
  -- along the loop: everything from here on lies ahead of `currentPos`
  induction ranges generalizing currentPos with
  | nil =>
    obtain ⟨hdvd, hle, -⟩ := alignMask_pool halign hk hcur
    simp only [gapSearch] at h
    split at h
    · cases h
      exact ⟨hdvd, hle, ‹_›, by simp⟩
    · cases h
  | cons r rest ih =>
    obtain ⟨hdvd, hle, -⟩ := alignMask_pool halign hk hcur
    obtain ⟨hnext, hrest⟩ := List.pairwise_cons.mp hordered
    obtain ⟨hlt, hpool⟩ := hranges r List.mem_cons_self
    simp only [gapSearch] at h
    split at h
    · -- the gap before `r` is wide enough, and the rest lies behind `r`
      rename_i hgap
      cases h
      refine ⟨hdvd, hle, by omega, fun q hq => Or.inl ?_⟩
      rcases List.mem_cons.mp hq with rfl | hq
      · exact hgap
      · have hbehind := hnext q hq
        show _ ≤ q.1
        omega
    · obtain ⟨hdvd', hle', hpool', hapart⟩ :=
        ih hrest (fun q hq => hranges q (List.mem_cons_of_mem _ hq)) hpool hnext h
      have hhead := hahead r List.mem_cons_self
      refine ⟨hdvd', by omega, hpool', fun q hq => ?_⟩
      rcases List.mem_cons.mp hq with rfl | hq
      · exact Or.inr hle'
      · exact hapart q hq

namespace LargeAllocator

variable {a : LargeAllocator}

theorem WF.range_bounds (hwf : a.WF) :
    ∀ p ∈ a.used.map Record.range, p.1 < p.2 ∧ p.2 ≤ largePoolSize := by
  intro p hp
  obtain ⟨r, hr, rfl⟩ := List.mem_map.mp hp
  have hlarge := hwf.large r hr
  exact ⟨by show r.offset < r.offset + r.size; omega, hwf.inPool r hr⟩

variable {l : Layout} {b : LargeAllocator} {offset : Nat}

theorem findFreeBlock_fits (hwf : a.WF)
    (h : a.findFreeBlock l.size l.align = some offset) : a.Fits l offset := by
  have hmem : ∀ p, p ∈ (a.used.map Record.range).insertionSort ByStart
      ↔ p ∈ a.used.map Record.range := fun p => (List.perm_insertionSort ByStart _).mem_iff
  obtain ⟨k, halign, hk⟩ := l.align_lt
  obtain ⟨hdvd, -, hpool, hapart⟩ := gapSearch_fits halign hk
    (ordered_insertionSort hwf.apart (fun p hp => (hwf.range_bounds p hp).1))
    (fun p hp => hwf.range_bounds p ((hmem p).mp hp)) (Nat.zero_le _)
    (fun p _ => Nat.zero_le p.1) h
  exact ⟨hdvd, hpool, fun r hr => hapart _ ((hmem _).mpr (List.mem_map_of_mem hr))⟩

theorem le_getEndOffset {r : Record} (hr : r ∈ a.used) : r.offset + r.size ≤ a.getEndOffset := by
  unfold getEndOffset
  have hmem : r.offset + r.size ∈ a.used.map (fun r => r.offset + r.size) :=
    List.mem_map_of_mem (f := fun r : Record => r.offset + r.size) hr
  cases hmax : (a.used.map (fun r => r.offset + r.size)).max? with
  | none =>
    rw [List.max?_eq_none_iff.mp hmax] at hmem
    cases hmem
  | some m => exact (List.max?_eq_some_iff.mp hmax).2 _ hmem

theorem getEndOffset_le (hpool : ∀ r ∈ a.used, r.offset + r.size ≤ largePoolSize) :
    a.getEndOffset ≤ largePoolSize := by
  unfold getEndOffset
  cases hmax : (a.used.map (fun r => r.offset + r.size)).max? with
  | none => exact Nat.zero_le _
  | some m =>
    obtain ⟨r, hr, rfl⟩ := List.mem_map.mp (List.max?_eq_some_iff.mp hmax).1
    exact hpool r hr

theorem allocAtEnd_cases (hwf : a.WF) (l : Layout) :
    a.allocAtEnd l.size l.align = (none, a)
      ∨ ∃ offset, a.Fits l offset
        ∧ a.allocAtEnd l.size l.align = (some offset, a.push offset l.size) := by
  obtain ⟨k, halign, hk⟩ := l.align_lt
  obtain ⟨hdvd, hle, -⟩ := alignMask_pool halign hk (getEndOffset_le hwf.inPool)
  by_cases hroom : alignMask a.getEndOffset l.align + l.size ≤ largePoolSize
  · refine Or.inr ⟨_, ⟨hdvd, hroom, fun r hr => Or.inr ?_⟩, if_pos hroom⟩
    exact Nat.le_trans (le_getEndOffset hr) hle
  · exact Or.inl (if_neg hroom)

/-! ## What `alloc` does to the records in use

Compaction and the first two policies of `emergency_reset` keep every used record: the first
drops marked records only, and no record is as small as the second asks for. The third keeps
the first half of the list, whatever is in the other half. -/

theorem WF.congr (hused : b.used = a.used) (hwf : a.WF) : b.WF :=
  ⟨hused ▸ hwf.apart, hused ▸ hwf.large, hused ▸ hwf.inPool⟩

theorem Fits.congr (hused : b.used = a.used) (hfits : b.Fits l offset) : a.Fits l offset :=
  ⟨hfits.aligned, hfits.inPool, hused ▸ hfits.apart⟩

@[simp] theorem used_used (a : LargeAllocator) : used ⟨a.used⟩ = a.used := by
  simp [used]

@[simp] theorem used_push (a : LargeAllocator) (offset size : Nat) :
    (a.push offset size).used = a.used ++ [⟨offset, size, false⟩] := by
  simp [used, push]

theorem WF.retainLarge_eq (hwf : a.WF) : a.retainLarge = a := by
  show LargeAllocator.mk _ = a
  congr 1
  rw [List.filter_eq_self]
  intro r hr
  cases hfree : r.isFree with
  | true => rfl
  | false =>
    have hlarge := hwf.large r (List.mem_filter.mpr ⟨hr, by simp [hfree]⟩)
    unfold largeAllocThreshold at hlarge
    simp
    omega

/-- A request in this state reaches the third policy of `emergency_reset`. -/
structure Truncates (a : LargeAllocator) : Prop where
  exhausted : largePoolSize - a.getEndOffset < largePoolSize / 10
  mostlyUsed : a.getAllocationStats.1 * 3 < a.getAllocationStats.2
  many : a.allocations.length > 500

theorem beforeAlloc_used (hwf : a.WF) (hkeep : ¬ a.Truncates) : a.beforeAlloc.used = a.used := by
  unfold beforeAlloc
  split
  · rename_i hnear
    unfold emergencyReset
    split
    · exact used_used a
    rename_i hmostly
    have hfew : ¬ a.allocations.length > 500 := fun hmany => hkeep ⟨hnear.1, by omega, hmany⟩
    simp [hwf.retainLarge_eq, hfew]
  · rfl

theorem alloc_cases (hwf : a.WF) (hkeep : ¬ a.Truncates) (l : Layout) :
    ∃ b : LargeAllocator, b.used = a.used ∧
      (a.alloc l.size l.align = (none, b)
        ∨ ∃ offset, a.Fits l offset ∧ a.alloc l.size l.align = (some offset, b.push offset l.size)) := by
  have hbefore := beforeAlloc_used hwf hkeep
  have hcompact : (LargeAllocator.mk a.beforeAlloc.used).used = a.used := by
    rw [used_used, hbefore]
  cases hfind : a.beforeAlloc.findFreeBlock l.size l.align with
  | some offset =>
    refine ⟨_, hbefore, Or.inr ⟨offset, ?_, ?_⟩⟩
    · exact (findFreeBlock_fits (hwf.congr hbefore) hfind).congr hbefore
    · simp only [alloc, hfind]
  | none =>
    refine ⟨_, hcompact, ?_⟩
    simp only [alloc, hfind, compactMemory]
    split
    · -- found after the compaction
      rename_i offset hagain
      obtain ⟨-, hagain⟩ := Option.ite_none_right_eq_some.mp hagain
      exact Or.inr ⟨offset, (findFreeBlock_fits (hwf.congr hcompact) hagain).congr hcompact, rfl⟩
    · rcases allocAtEnd_cases (hwf.congr hcompact) l with hnone | ⟨offset, hfits, hsome⟩
      · exact Or.inl hnone
      · exact Or.inr ⟨offset, hfits.congr hcompact, hsome⟩

/-! ## What `dealloc` does to the records in use -/

theorem afterDealloc_used (a : LargeAllocator) : a.afterDealloc.used = a.used := by
  show (if _ then a.compactMemory.2 else a).used = a.used
  split
  · exact used_used a
  · rfl

/-- Returning a block that has a used record takes one such record, with the block's offset
and size, out of the used ones. -/
theorem dealloc_cases {q : Record} (hq : q ∈ a.used) :
    ∃ pre r post, a.used = pre ++ r :: post ∧ r.range = q.range
      ∧ (a.dealloc q.offset q.size).used = pre ++ post := by
  obtain ⟨hmem, hlive⟩ := List.mem_filter.mp hq
  unfold dealloc
  split
  · rename_i rs hmark
    obtain ⟨pre, r, post, hsplit, hr, -, rfl⟩ := updateFirst_eq_some hmark
    simp only [Bool.and_eq_true, beq_iff_eq] at hr
    obtain ⟨⟨hoffset, hsize⟩, hfree⟩ := hr
    refine ⟨pre.filter (fun r => !r.isFree), r, post.filter (fun r => !r.isFree), ?_, ?_, ?_⟩
    · simp [used, hsplit, hfree]
    · simp [Record.range, hoffset, hsize]
    · rw [afterDealloc_used]
      simp [used]
  · -- `q` itself is an exact match
    rename_i hmark
    exact absurd hmark (updateFirst_ne_none hmem (by simpa using hlive))

end LargeAllocator

/-! ## Runs: the pool and the blocks its callers hold -/

structure Block where
  offset : Nat
  layout : Layout
  deriving DecidableEq

def Block.range (b : Block) : Nat × Nat := (b.offset, b.offset + b.layout.size)

structure HeapState where
  pool : LargeAllocator
  live : List Block
  deriving DecidableEq

def HeapState.init : HeapState := ⟨.new, []⟩

inductive HeapCall where
  | alloc (l : Layout)
  | dealloc (b : Block)
  deriving DecidableEq

/-- The state after a call. A refused request may have compacted the records; the block then
comes from the buddy allocator and is none of the pool's. -/
def HeapState.call (s : HeapState) : HeapCall → HeapState
  | .alloc l =>
    match s.pool.alloc l.size l.align with
    | (some offset, pool) => ⟨pool, s.live ++ [⟨offset, l⟩]⟩
    | (none, pool) => ⟨pool, s.live⟩
  | .dealloc b => ⟨s.pool.dealloc b.offset b.layout.size, s.live.erase b⟩

/-- `HybridAllocator` routes requests above the threshold here, and callers return only what
they hold. -/
def HeapCall.Allowed (s : HeapState) : HeapCall → Prop
  | .alloc l => largeAllocThreshold < l.size
  | .dealloc b => b ∈ s.live

def HeapStep (s : HeapState) (c : HeapCall) (t : HeapState) : Prop :=
  c.Allowed s ∧ t = s.call c

/-- The call does not reach the truncation of the record list. -/
def HeapCall.Spares (s : HeapState) : HeapCall → Prop
  | .alloc _ => ¬ s.pool.Truncates
  | .dealloc _ => True

/-- The blocks the callers hold are pairwise disjoint, inside the pool and aligned. -/
structure HeapState.Sound (s : HeapState) : Prop where
  disjoint : s.live.Pairwise (fun b c => Apart b.range c.range)
  inPool : ∀ b ∈ s.live, b.offset + b.layout.size ≤ largePoolSize
  aligned : ∀ b ∈ s.live, b.layout.align ∣ b.offset

/-- The records in use are the blocks the callers hold. -/
structure HeapState.Inv (s : HeapState) : Prop where
  perm : (s.live.map Block.range).Perm (s.pool.used.map Record.range)
  wf : s.pool.WF
  aligned : ∀ b ∈ s.live, b.layout.align ∣ b.offset

theorem HeapState.Inv.sound (hinv : s.Inv) : s.Sound := by
  refine ⟨?_, ?_, hinv.aligned⟩
  · rw [← List.pairwise_map]
    exact hinv.perm.symm.pairwise hinv.wf.apart Apart.symm
  intro b hb
  have hmem : b.range ∈ s.pool.used.map Record.range :=
    hinv.perm.mem_iff.mp (List.mem_map_of_mem hb)
  exact (hinv.wf.range_bounds _ hmem).2

theorem HeapState.inv_init : HeapState.init.Inv :=
  ⟨.nil, ⟨.nil, by simp [init, LargeAllocator.new, LargeAllocator.used],
    by simp [init, LargeAllocator.new, LargeAllocator.used]⟩, by simp [init]⟩

theorem HeapState.Inv.alloc (hinv : s.Inv) {l : Layout} (hlarge : largeAllocThreshold < l.size)
    (hkeep : ¬ s.pool.Truncates) :
    (s.call (.alloc l)).Inv := by
  obtain ⟨b, hused, hnone | ⟨offset, hfits, hsome⟩⟩ := LargeAllocator.alloc_cases hinv.wf hkeep l
  · simp only [call, hnone]
    exact ⟨by rw [hused]; exact hinv.perm, hinv.wf.congr hused, hinv.aligned⟩
  · simp only [call, hsome]
    have hpush : (b.push offset l.size).used = s.pool.used ++ [⟨offset, l.size, false⟩] := by
      rw [LargeAllocator.used_push, hused]
    refine ⟨?_, ⟨?_, ?_, ?_⟩, ?_⟩
    · rw [hpush, List.map_append, List.map_append]
      exact hinv.perm.append_right _
    · rw [hpush, List.map_append, List.pairwise_append]
      refine ⟨hinv.wf.apart, List.pairwise_singleton _ _, ?_⟩
      intro p hp q hq
      obtain ⟨r, hr, rfl⟩ := List.mem_map.mp hp
      rw [List.map_singleton, List.mem_singleton] at hq
      exact hq ▸ (hfits.apart r hr).symm
    · rw [hpush]
      exact List.forall_mem_append.mpr ⟨hinv.wf.large, by simpa using hlarge⟩
    · rw [hpush]
      exact List.forall_mem_append.mpr ⟨hinv.wf.inPool, by simpa using hfits.inPool⟩
    · exact List.forall_mem_append.mpr ⟨hinv.aligned, by simpa using hfits.aligned⟩

theorem HeapState.Inv.dealloc (hinv : s.Inv) {b : Block} (hb : b ∈ s.live) :
    (s.call (.dealloc b)).Inv := by
  -- the block's record, and what is left without it
  obtain ⟨q, hq, hrange⟩ := List.mem_map.mp (hinv.perm.mem_iff.mp (List.mem_map_of_mem hb))
  obtain ⟨hoffset, hend⟩ := Prod.mk.inj hrange
  have hsize : q.size = b.layout.size := by omega
  obtain ⟨pre, r, post, hsplit, hr, hused⟩ := LargeAllocator.dealloc_cases hq
  rw [hoffset, hsize] at hused
  have hsub : (pre ++ post).Sublist s.pool.used := by
    rw [hsplit]
    exact (List.sublist_cons_self r post).append_left pre
  have hperm : (b.range :: (s.live.erase b).map Block.range).Perm
      (b.range :: (pre ++ post).map Record.range) := by
    refine ((List.perm_cons_erase hb).map Block.range).symm.trans (hinv.perm.trans ?_)
    rw [hsplit, ← hrange, ← hr]
    exact List.perm_middle.map Record.range
  show HeapState.Inv ⟨s.pool.dealloc b.offset b.layout.size, s.live.erase b⟩
  refine ⟨?_, ⟨?_, ?_, ?_⟩, ?_⟩ <;> simp only [hused]
  · exact hperm.cons_inv
  · exact hinv.wf.apart.sublist (hsub.map _)
  · exact fun r hr => hinv.wf.large r (hsub.subset hr)
  · exact fun r hr => hinv.wf.inPool r (hsub.subset hr)
  · intro c hc
    exact hinv.aligned c (List.mem_of_mem_erase hc)

theorem HeapStep.inv {t : HeapState} {c : HeapCall} (hinv : s.Inv) (hstep : HeapStep s c t)
    (hspares : c.Spares s) : t.Inv := by
  obtain ⟨hallowed, rfl⟩ := hstep
  cases c with
  | alloc l => exact hinv.alloc hallowed hspares
  | dealloc b => exact hinv.dealloc hallowed

/-- **Live blocks never overlap.** In every run in which no request meets the truncation of
the record list, the blocks returned and not yet freed are pairwise disjoint, inside the pool
and aligned as requested. -/
theorem largeAllocator_run_sound {calls : List HeapCall} {s : HeapState}
    (hrun : Run (fun s c t => HeapStep s c t ∧ c.Spares s) HeapState.init calls s) : s.Sound :=
  (hrun.invariant (fun _ _ _ hinv hstep => hstep.1.inv hinv hstep.2) HeapState.inv_init).sound

/-- A block of 100 KiB and one of 80 KiB aligned to a page; the first is returned and its place
taken again. -/
theorem largeAllocator_run_sound_reuse :
    ∃ s : HeapState,
      Run (fun s c t => HeapStep s c t ∧ c.Spares s) HeapState.init
        [.alloc ⟨102400, 8, ⟨3, rfl⟩, by decide⟩, .alloc ⟨81920, 4096, ⟨12, rfl⟩, by decide⟩,
          .dealloc ⟨0, ⟨102400, 8, ⟨3, rfl⟩, by decide⟩⟩,
          .alloc ⟨81920, 4096, ⟨12, rfl⟩, by decide⟩] s
      ∧ s.live.map Block.range = [(102400, 184320), (0, 81920)] ∧ s.Sound := by
  have hspares : ∀ a : LargeAllocator, a.allocations.length ≤ 500 → ¬ a.Truncates :=
    fun a hfew h => absurd h.many (by omega)
  have hrun : Run (fun s c t => HeapStep s c t ∧ c.Spares s) HeapState.init
      [.alloc ⟨102400, 8, ⟨3, rfl⟩, by decide⟩, .alloc ⟨81920, 4096, ⟨12, rfl⟩, by decide⟩,
        .dealloc ⟨0, ⟨102400, 8, ⟨3, rfl⟩, by decide⟩⟩,
        .alloc ⟨81920, 4096, ⟨12, rfl⟩, by decide⟩] _ :=
    .cons ⟨⟨by show _ < _; decide, rfl⟩, hspares _ (by decide +kernel)⟩
      (.cons ⟨⟨by show _ < _; decide, rfl⟩, hspares _ (by decide +kernel)⟩
        (.cons ⟨⟨by show _ ∈ _; decide +kernel, rfl⟩, trivial⟩
          (.cons ⟨⟨by show _ < _; decide, rfl⟩, hspares _ (by decide +kernel)⟩ (.nil _))))
  exact ⟨_, hrun, by decide +kernel, largeAllocator_run_sound hrun⟩

/-! ## The run that fills the pool

Blocks of 256 KiB, one behind the other and none returned. With 501 of them less than a
tenth of the pool is left, so the next request truncates the records to the first 250 and
finds room where the block number 250 still lives. -/

/-- A quarter of a MiB, without alignment. -/
def quarterMiB : Layout := ⟨256 * 1024, 1, ⟨0, rfl⟩, by decide⟩

/-- The records after `n` such requests. -/
def LargeAllocator.filled (n : Nat) : LargeAllocator :=
  ⟨(List.range n).map (fun i => ⟨i * quarterMiB.size, quarterMiB.size, false⟩)⟩

def HeapState.filled (n : Nat) : HeapState :=
  ⟨.filled n, (List.range n).map (fun i => ⟨i * quarterMiB.size, quarterMiB⟩)⟩

namespace LargeAllocator

theorem length_filled (n : Nat) : (filled n).allocations.length = n := by
  simp [filled]

theorem used_filled (n : Nat) : (filled n).used = (filled n).allocations := by
  simp [used, filled]

theorem push_filled (n : Nat) :
    (filled n).push (n * quarterMiB.size) quarterMiB.size = filled (n + 1) := by
  simp [push, filled, List.range_succ]

theorem getAllocationStats_filled (n : Nat) : (filled n).getAllocationStats = (0, n) := by
  have hfree : (filled n).allocations.countP (·.isFree) = 0 := by
    simp [filled]
  simp only [getAllocationStats, hfree, length_filled, Nat.sub_zero]

theorem mem_used_filled {i n : Nat} (hi : i < n) :
    (⟨i * quarterMiB.size, quarterMiB.size, false⟩ : Record) ∈ (filled n).used := by
  rw [used_filled]
  exact List.mem_map.mpr ⟨i, List.mem_range.mpr hi, rfl⟩

theorem alignMask_quarterMiB {k : Nat} (hk : k ≤ 512) :
    alignMask (k * quarterMiB.size) quarterMiB.align = k * quarterMiB.size := by
  have hmask : alignMask (k * quarterMiB.size) 1 = (k * quarterMiB.size + 1 - 1) / 1 * 1 :=
    alignMask_eq (k := 0) rfl (by simp only [quarterMiB]; omega) (by decide)
  exact hmask.trans (by omega)

/-- The search runs through `m` adjacent ranges and stops behind the last. -/
theorem gapSearch_adjacent (k m : Nat) (hroom : k + m < 512) :
    gapSearch quarterMiB.size quarterMiB.align
        ((List.range' k m).map (fun i => (i * quarterMiB.size, (i + 1) * quarterMiB.size)))
        (k * quarterMiB.size) = some ((k + m) * quarterMiB.size) := by
  induction m generalizing k with
  | zero =>
    simp only [List.range'_zero, List.map_nil, gapSearch, Nat.add_zero,
      alignMask_quarterMiB (k := k) (by omega)]
    exact if_pos (by simp only [quarterMiB, largePoolSize]; omega)
  | succ m ih =>
    simp only [List.range'_succ, List.map_cons, gapSearch,
      alignMask_quarterMiB (k := k) (by omega)]
    rw [if_neg (by simp only [quarterMiB]; omega), ih (k + 1) (by omega)]
    congr 2
    omega

theorem findFreeBlock_filled {n : Nat} (hroom : n < 512) :
    (filled n).findFreeBlock quarterMiB.size quarterMiB.align = some (n * quarterMiB.size) := by
  have hranges : (filled n).used.map Record.range
      = (List.range' 0 n).map (fun i => (i * quarterMiB.size, (i + 1) * quarterMiB.size)) := by
    rw [used_filled, filled, List.map_map, List.range_eq_range']
    apply List.map_congr_left
    intro i _
    simp [Record.range, Nat.succ_mul]
  have hsorted : ((List.range' 0 n).map
      (fun i => (i * quarterMiB.size, (i + 1) * quarterMiB.size))).Pairwise ByStart := by
    rw [List.pairwise_map]
    refine (List.pairwise_lt_range' (s := 0) (n := n)).imp ?_
    intro i j hij
    exact Nat.mul_le_mul_right _ (Nat.le_of_lt hij)
  have hsearch := gapSearch_adjacent 0 n (by omega)
  unfold findFreeBlock
  rw [hranges, hsorted.insertionSort_eq]
  simpa using hsearch

theorem alloc_of_findFreeBlock {a b : LargeAllocator} {size align offset : Nat}
    (hbefore : a.beforeAlloc = b) (hfind : b.findFreeBlock size align = some offset) :
    a.alloc size align = (some offset, b.push offset size) := by
  simp only [alloc, hbefore, hfind]

/-- Up to 500 records the reset finds nothing to do. -/
theorem beforeAlloc_filled {n : Nat} (hn : n ≤ 500) : (filled n).beforeAlloc = filled n := by
  have hused : LargeAllocator.mk (filled n).used = filled n := by rw [used_filled]
  unfold beforeAlloc emergencyReset
  rw [getAllocationStats_filled, length_filled, hused]
  split
  · split
    · rfl
    · have h800 : ¬ n > 800 := by omega
      have h500 : ¬ n > 500 := by omega
      simp [h800, h500, length_filled]
  · rfl

theorem filled_truncates : (filled 501).Truncates := by
  refine ⟨?_, by rw [getAllocationStats_filled]; decide, by rw [length_filled]; decide⟩
  have hend := le_getEndOffset (mem_used_filled (i := 500) (n := 501) (by decide))
  simp only [quarterMiB] at hend
  unfold largePoolSize
  omega

theorem beforeAlloc_filled_truncated : (filled 501).beforeAlloc = filled 250 := by
  have hnear := filled_truncates.exhausted
  have htake : (filled 501).allocations.take 250 = (filled 250).allocations := by
    simp only [filled, ← List.map_take]
    rw [List.take_range]
    rfl
  unfold beforeAlloc
  rw [if_pos ⟨hnear, by rw [length_filled]; decide⟩]
  unfold emergencyReset
  rw [getAllocationStats_filled, length_filled]
  simp [length_filled, htake]

end LargeAllocator

theorem HeapState.mem_live_filled {i : Nat} (hi : i < n) :
    (⟨i * quarterMiB.size, quarterMiB⟩ : Block) ∈ (HeapState.filled n).live :=
  List.mem_map.mpr ⟨i, List.mem_range.mpr hi, rfl⟩

theorem heapRun_filled (hn : n ≤ 501) :
    Run HeapStep HeapState.init (List.replicate n (.alloc quarterMiB)) (.filled n) := by
  induction n with
  | zero => exact .nil _
  | succ n ih =>
    rw [List.replicate_succ']
    refine (ih (by omega)).snoc ⟨by show _ < _; decide, ?_⟩
    have halloc := LargeAllocator.alloc_of_findFreeBlock
      (LargeAllocator.beforeAlloc_filled (by omega))
      (LargeAllocator.findFreeBlock_filled (n := n) (by omega))
    rw [LargeAllocator.push_filled] at halloc
    simp only [HeapState.call, HeapState.filled, halloc, List.range_succ, List.map_append,
      List.map_cons, List.map_nil]

/-- The request after 501 blocks returns the offset of the block number 250. -/
theorem largeAllocator_hands_out_twice :
    ¬ ∀ (calls : List HeapCall) (s : HeapState), Run HeapStep HeapState.init calls s → s.Sound := by
  intro hsound
  have halloc := LargeAllocator.alloc_of_findFreeBlock LargeAllocator.beforeAlloc_filled_truncated
    (LargeAllocator.findFreeBlock_filled (n := 250) (by decide))
  have hstep : HeapStep (.filled 501) (.alloc quarterMiB)
      ⟨(LargeAllocator.filled 250).push (250 * quarterMiB.size) quarterMiB.size,
        (HeapState.filled 501).live ++ [⟨250 * quarterMiB.size, quarterMiB⟩]⟩ := by
    refine ⟨by show _ < _; decide, ?_⟩
    simp only [HeapState.call, HeapState.filled, halloc]
  have hdisj := (hsound _ _ ((heapRun_filled (n := 501) (by decide)).snoc hstep)).disjoint
  rw [List.pairwise_append] at hdisj
  have hmem := HeapState.mem_live_filled (i := 250) (n := 501) (by decide)
  exact absurd (hdisj.2.2 _ hmem _ List.mem_cons_self) (by decide)

end MonkeyOS
