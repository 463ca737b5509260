import MonkeyOS.Runtime.Heap

/-!
# MonkeyOS — the gap search of the large pool is complete

`find_free_block` sorts the ranges in use and looks for the first gap that takes an aligned block.
`MonkeyOS/Runtime/Heap.lean` shows that what it finds is room. Here: it finds the least offset that
has room, and fails only if there is none. Room depends on which ranges are in use and on nothing
else, so neither the order of the records nor the freed ones among them matter, and the two
fallbacks of `alloc` are never of use.

* `gapSearch_le` — the walk along the sorted ranges does not step over an offset that has room;
* `LargeAllocator.findFreeBlock_isLeast` — the search, as the least element of a set;
* `LargeAllocator.findFreeBlock_congr` — two allocators with the same ranges in use;
* `largeAllocator_gap_search` — all of it, with the fallbacks.

The ranges in use must not be empty. With a record of size zero the walk moves back to the start of
the range behind it (`gap_search_empty_range`); `alloc` is only asked for more than 64 KiB.
-/

namespace MonkeyOS

open Lib

/-- An aligned offset with room is never passed: either the gap before the next range is taken first,
or the offset lies behind that range. -/
theorem gapSearch_le {size align k : Nat} (halign : align = 2 ^ k) (hk : k < 64)
    {ranges : List (Nat × Nat)} {currentPos offset : Nat}
    (hranges : ∀ r ∈ ranges, r.2 ≤ largePoolSize) (hcur : currentPos ≤ largePoolSize)
    (hle : currentPos ≤ offset) (hdvd : align ∣ offset) (hpool : offset + size ≤ largePoolSize)
    (hapart : ∀ r ∈ ranges, Apart (offset, offset + size) r) :
    ∃ found, gapSearch size align ranges currentPos = some found ∧ found ≤ offset := by
  induction ranges generalizing currentPos with
  | nil =>
    obtain ⟨-, -, hnext⟩ := alignMask_pool halign hk hcur
    have hfound := hnext offset hdvd hle
    refine ⟨_, if_pos ?_, hfound⟩
    omega
  | cons r rest ih =>
    obtain ⟨-, -, hnext⟩ := alignMask_pool halign hk hcur
    have hfound := hnext offset hdvd hle
    have hend := hranges r List.mem_cons_self
    unfold gapSearch
    by_cases hgap : alignMask currentPos align + size ≤ r.1
    · exact ⟨_, if_pos hgap, hfound⟩
    -- the gap is too small for the rounded position, so it is for `offset`
    have hbehind : r.2 ≤ offset := by
      rcases hapart r List.mem_cons_self with hbefore | hbehind
      · have hbefore : offset + size ≤ r.1 := hbefore
        omega
      · exact hbehind
    obtain ⟨found, hsearch, hless⟩ := ih (fun q hq => hranges q (List.mem_cons_of_mem _ hq)) hend
      hbehind (fun q hq => hapart q (List.mem_cons_of_mem _ hq))
    exact ⟨found, (if_neg hgap).trans hsearch, hless⟩

namespace LargeAllocator

/-- The records in use: no empty range, no two that share an address, none beyond the pool. -/
structure Live (a : LargeAllocator) : Prop where
  nonempty : ∀ r ∈ a.used, 0 < r.size
  disjoint : (a.used.map Record.range).Pairwise Excludes
  inPool : ∀ r ∈ a.used, r.offset + r.size ≤ largePoolSize

/-- A block of `size` bytes at this offset is aligned, inside the pool and meets no range in use. -/
structure Room (a : LargeAllocator) (size align offset : Nat) : Prop where
  aligned : align ∣ offset
  inPool : offset + size ≤ largePoolSize
  free : ∀ r ∈ a.used, Excludes (offset, offset + size) r.range

variable {a b : LargeAllocator} {size k : Nat}

theorem Live.bounds (h : a.Live) :
    ∀ p ∈ a.used.map Record.range, p.1 < p.2 ∧ p.2 ≤ largePoolSize := by
  intro p hp
  obtain ⟨r, hr, rfl⟩ := List.mem_map.mp hp
  have hpos := h.nonempty r hr
  exact ⟨by show r.offset < r.offset + r.size; omega, h.inPool r hr⟩

/-- The sorted ranges follow each other. -/
theorem Live.ordered (h : a.Live) :
    ((a.used.map Record.range).insertionSort ByStart).Pairwise (fun p q => p.2 ≤ q.1) := by
  apply ordered_insertionSort _ (fun p hp => (h.bounds p hp).1)
  refine h.disjoint.imp_of_mem (fun {p q} hp hq hpq => ?_)
  exact (excludes_iff_apart (h.bounds p hp).1 (h.bounds q hq).1).mp hpq

theorem mem_sorted {p : Nat × Nat} : p ∈ (a.used.map Record.range).insertionSort ByStart
    ↔ p ∈ a.used.map Record.range :=
  (List.perm_insertionSort ByStart _).mem_iff

/-- Room, in terms of the ranges that the search walks over. -/
theorem Live.room_iff (h : a.Live) (hsize : 1 ≤ size) {align offset : Nat} :
    a.Room size align offset ↔ align ∣ offset ∧ offset + size ≤ largePoolSize
      ∧ ∀ p ∈ (a.used.map Record.range).insertionSort ByStart, Apart (offset, offset + size) p := by
  have hapart : (∀ r ∈ a.used, Excludes (offset, offset + size) r.range)
      ↔ ∀ p ∈ (a.used.map Record.range).insertionSort ByStart, Apart (offset, offset + size) p := by
    have heach : ∀ p ∈ a.used.map Record.range,
        (Excludes (offset, offset + size) p ↔ Apart (offset, offset + size) p) := fun p hp =>
      excludes_iff_apart (show offset < offset + size by omega) (h.bounds p hp).1
    constructor
    · intro hfree p hp
      rw [mem_sorted] at hp
      obtain ⟨r, hr, rfl⟩ := List.mem_map.mp hp
      exact (heach _ hp).mp (hfree r hr)
    · intro happart r hr
      have hp := List.mem_map_of_mem (f := Record.range) hr
      exact (heach _ hp).mpr (happart _ (mem_sorted.mpr hp))
  rw [← hapart]
  exact ⟨fun hroom => ⟨hroom.aligned, hroom.inPool, hroom.free⟩,
    fun ⟨haligned, hpool, hfree⟩ => ⟨haligned, hpool, hfree⟩⟩

/-! ## The search -/

theorem findFreeBlock_room (h : a.Live) (hsize : 1 ≤ size) (hk : k < 64) {offset : Nat}
    (hfind : a.findFreeBlock size (2 ^ k) = some offset) : a.Room size (2 ^ k) offset := by
  obtain ⟨hdvd, -, hpool, hapart⟩ := gapSearch_fits rfl hk h.ordered
    (fun p hp => h.bounds p (mem_sorted.mp hp)) (Nat.zero_le _) (fun p _ => Nat.zero_le p.1) hfind
  exact (h.room_iff hsize).mpr ⟨hdvd, hpool, hapart⟩

theorem findFreeBlock_le (h : a.Live) (hsize : 1 ≤ size) (hk : k < 64) {offset : Nat}
    (hroom : a.Room size (2 ^ k) offset) :
    ∃ found, a.findFreeBlock size (2 ^ k) = some found ∧ found ≤ offset := by
  obtain ⟨hdvd, hpool, hapart⟩ := (h.room_iff hsize).mp hroom
  exact gapSearch_le rfl hk (fun p hp => (h.bounds p (mem_sorted.mp hp)).2) (Nat.zero_le _)
    (Nat.zero_le _) hdvd hpool hapart

theorem findFreeBlock_isLeast (h : a.Live) (hsize : 1 ≤ size) (hk : k < 64) (offset : Nat) :
    a.findFreeBlock size (2 ^ k) = some offset
      ↔ IsLeast {o | a.Room size (2 ^ k) o} offset := by
  constructor
  · intro hfind
    refine ⟨findFreeBlock_room h hsize hk hfind, fun o hroom => ?_⟩
    obtain ⟨found, hfound, hle⟩ := findFreeBlock_le h hsize hk hroom
    rw [hfind] at hfound
    cases hfound
    exact hle
  · intro hleast
    obtain ⟨found, hfound, hle⟩ := findFreeBlock_le h hsize hk hleast.1
    have hge := hleast.2 (findFreeBlock_room h hsize hk hfound)
    rw [hfound, Nat.le_antisymm hle hge]

theorem findFreeBlock_eq_none (h : a.Live) (hsize : 1 ≤ size) (hk : k < 64) :
    a.findFreeBlock size (2 ^ k) = none ↔ ∀ o, ¬ a.Room size (2 ^ k) o := by
  constructor
  · intro hnone o hroom
    obtain ⟨found, hfound, -⟩ := findFreeBlock_le h hsize hk hroom
    rw [hnone] at hfound
    cases hfound
  · intro hfull
    apply Option.eq_none_iff_forall_not_mem.mpr
    intro o ho
    exact hfull o (findFreeBlock_room h hsize hk ho)

/-! ## What the search depends on -/

theorem Live.congr (hused : b.used.Perm a.used) (h : a.Live) : b.Live := by
  refine ⟨fun r hr => h.nonempty r (hused.mem_iff.mp hr), ?_,
    fun r hr => h.inPool r (hused.mem_iff.mp hr)⟩
  exact (hused.map Record.range).symm.pairwise h.disjoint
    (fun {p q} (hpq : Excludes p q) v hq hp => hpq v hp hq)

theorem Room.congr (hused : b.used.Perm a.used) {align offset : Nat}
    (h : a.Room size align offset) : b.Room size align offset :=
  ⟨h.aligned, h.inPool, fun r hr => h.free r (hused.mem_iff.mp hr)⟩

theorem findFreeBlock_congr (h : a.Live) (hused : b.used.Perm a.used) (hsize : 1 ≤ size)
    (hk : k < 64) : b.findFreeBlock size (2 ^ k) = a.findFreeBlock size (2 ^ k) := by
  have hrooms : {o | b.Room size (2 ^ k) o} = {o | a.Room size (2 ^ k) o} := by
    ext o
    exact ⟨Room.congr hused.symm, Room.congr hused⟩
  apply Option.ext
  intro o
  rw [findFreeBlock_isLeast (h.congr hused) hsize hk, findFreeBlock_isLeast h hsize hk, hrooms]

/-! ## The fallbacks -/

/-- Whatever `alloc` does before it searches, it only drops records. -/
theorem beforeAlloc_sublist (a : LargeAllocator) :
    a.beforeAlloc.allocations.Sublist a.allocations := by
  have hretain : (if a.allocations.length > 800 then a.retainLarge else a).allocations.Sublist
      a.allocations := by
    split
    · exact List.filter_sublist
    · exact List.Sublist.refl _
  unfold beforeAlloc emergencyReset
  dsimp only
  generalize (if a.allocations.length > 800 then a.retainLarge else a) = b at hretain ⊢
  split
  · split
    · exact List.filter_sublist
    · split
      · exact hretain
      · split
        · exact (List.take_sublist _ _).trans hretain
        · exact hretain
  · exact List.Sublist.refl _

theorem Live.beforeAlloc (h : a.Live) : a.beforeAlloc.Live := by
  have hsub : a.beforeAlloc.used.Sublist a.used := a.beforeAlloc_sublist.filter _
  exact ⟨fun r hr => h.nonempty r (hsub.subset hr), h.disjoint.sublist (hsub.map _),
    fun r hr => h.inPool r (hsub.subset hr)⟩

/-- Behind the last range there is room, if the pool is long enough. -/
theorem allocAtEnd_room (h : a.Live) (hk : k < 64) {offset : Nat}
    (hend : (a.allocAtEnd size (2 ^ k)).1 = some offset) : a.Room size (2 ^ k) offset := by
  have hpool : a.getEndOffset ≤ largePoolSize := getEndOffset_le h.inPool
  obtain ⟨hdvd, hle, -⟩ := alignMask_pool (k := k) rfl hk hpool
  unfold allocAtEnd at hend
  dsimp only at hend
  split at hend
  · rename_i hroom
    cases hend
    refine ⟨hdvd, hroom, fun r hr v hv hrv => ?_⟩
    have hr := le_getEndOffset hr
    unfold RangeMem at hv
    have hlt : v < r.offset + r.size := hrv.2
    omega
  · cases hend

theorem fallbacks_fail (h : a.Live) (hsize : 1 ≤ size) (hk : k < 64)
    (hnone : a.findFreeBlock size (2 ^ k) = none) :
    a.compactMemory.2.findFreeBlock size (2 ^ k) = none
      ∧ (a.compactMemory.2.allocAtEnd size (2 ^ k)).1 = none := by
  have hused : a.compactMemory.2.used.Perm a.used := by
    show (LargeAllocator.mk a.used).used.Perm a.used
    rw [used_used]
  refine ⟨(findFreeBlock_congr h hused hsize hk).trans hnone, ?_⟩
  apply Option.eq_none_iff_forall_not_mem.mpr
  intro o ho
  have hroom := (allocAtEnd_room (h.congr hused) hk ho).congr hused.symm
  exact (findFreeBlock_eq_none h hsize hk).mp hnone o hroom

end LargeAllocator

/-- **The gap search is complete.** For every list of records whose ranges in use are non-empty,
pairwise disjoint and inside the pool: the search returns the least offset that has room and fails
only if there is none; a permutation of the records, or the removal of freed ones, does not change
it; and once the search of `alloc` has failed, neither fallback finds anything. -/
theorem largeAllocator_gap_search {a : LargeAllocator} (hlive : a.Live) {size k : Nat}
    (hsize : 1 ≤ size) (hk : k < 64) :
    (∀ o, a.findFreeBlock size (2 ^ k) = some o ↔ IsLeast {o | a.Room size (2 ^ k) o} o)
    ∧ (a.findFreeBlock size (2 ^ k) = none ↔ ∀ o, ¬ a.Room size (2 ^ k) o)
    ∧ (∀ b : LargeAllocator, b.allocations.Perm a.allocations →
        b.findFreeBlock size (2 ^ k) = a.findFreeBlock size (2 ^ k))
    ∧ (∀ b : LargeAllocator, b.allocations.Sublist a.allocations → b.used = a.used →
        b.findFreeBlock size (2 ^ k) = a.findFreeBlock size (2 ^ k))
    ∧ (a.beforeAlloc.findFreeBlock size (2 ^ k) = none →
        a.beforeAlloc.compactMemory.2.findFreeBlock size (2 ^ k) = none
        ∧ (a.beforeAlloc.compactMemory.2.allocAtEnd size (2 ^ k)).1 = none
        ∧ (a.alloc size (2 ^ k)).1 = none) := by
  refine ⟨LargeAllocator.findFreeBlock_isLeast hlive hsize hk,
    LargeAllocator.findFreeBlock_eq_none hlive hsize hk, fun b hperm => ?_, fun b _ hused => ?_,
    fun hnone => ?_⟩
  · exact LargeAllocator.findFreeBlock_congr hlive (hperm.filter _) hsize hk
  · exact LargeAllocator.findFreeBlock_congr hlive (by rw [hused]) hsize hk
  · obtain ⟨hagain, hend⟩ := LargeAllocator.fallbacks_fail hlive.beforeAlloc hsize hk hnone
    refine ⟨hagain, hend, ?_⟩
    unfold LargeAllocator.alloc
    dsimp only
    rw [hnone]
    dsimp only
    rw [hagain, ite_self]
    exact hend

/-- A request for 200 bytes aligned to 64 goes between two blocks, and one for the whole pool nowhere. -/
theorem largeAllocator_gap_search_between :
    let a : LargeAllocator := ⟨[⟨512, 100, false⟩, ⟨0, 50, true⟩, ⟨0, 200, false⟩]⟩
    a.Live ∧ a.findFreeBlock 200 (2 ^ 6) = some 256
      ∧ IsLeast {o | a.Room 200 (2 ^ 6) o} 256
      ∧ (a.alloc largePoolSize (2 ^ 0)).1 = none := by
  intro a
  have hlive : a.Live := by
    refine ⟨by decide, ?_, by decide⟩
    show [(512, 612), (0, 200)].Pairwise Excludes
    rw [List.pairwise_pair]
    intro v h1 h2
    unfold RangeMem at h1 h2
    dsimp only at h1 h2
    omega
  have hfind : a.findFreeBlock 200 (2 ^ 6) = some 256 := by decide +kernel
  refine ⟨hlive, hfind, ?_, ?_⟩
  · exact ((largeAllocator_gap_search hlive (by decide) (by decide)).1 256).mp hfind
  have hsize : 1 ≤ largePoolSize := by decide
  obtain ⟨-, -, -, -, hfallbacks⟩ := largeAllocator_gap_search hlive hsize (k := 0) (by decide)
  exact (hfallbacks (by decide +kernel)).2.2

/-- A record of size zero at the start of another range, and behind it in the list: the walk ends at
the empty range and offers the bytes of the other one. With the two records in the other order it
does not. -/
theorem gap_search_empty_range :
    let a : LargeAllocator := ⟨[⟨0, 100, false⟩, ⟨0, 0, false⟩]⟩
    let b : LargeAllocator := ⟨[⟨0, 0, false⟩, ⟨0, 100, false⟩]⟩
    (a.used.map Record.range).Pairwise Excludes
      ∧ (a.used.map Record.range).Pairwise Apart
      ∧ b.allocations.Perm a.allocations
      ∧ a.findFreeBlock 8 1 = some 0 ∧ ¬ a.Room 8 1 0
      ∧ b.findFreeBlock 8 1 = some 100 := by
  refine ⟨?_, by decide, List.Perm.swap _ _ _, by decide +kernel, fun hroom => ?_,
    by decide +kernel⟩
  · show [(0, 100), (0, 0)].Pairwise Excludes
    rw [List.pairwise_pair]
    intro v _ h
    exact absurd h.2 (Nat.not_lt_zero v)
  · have hfree := hroom.free ⟨0, 100, false⟩ (by decide)
    exact hfree 0 ⟨by decide, by decide⟩ ⟨by decide, by decide⟩

end MonkeyOS
