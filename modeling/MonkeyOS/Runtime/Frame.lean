import MonkeyOS.Lib.BitArray
import MonkeyOS.Lib.Run
import MonkeyOS.Basic

/-!
# MonkeyOS — the physical frame allocator (`crates/runtime/src/frame.rs`)

`FrameRegionMap` keeps one bit per frame of a memory region, packed in `usize` words, with
the bits past the end of the region preset to one. Single frames are found word by word
(`alloc`), runs of frames by a sliding window over absolute bit positions (`alloc_much`),
and freeing and counting index the same words a third and a fourth way.

The development says once what a successful allocation does to a region
(`FrameRegionMap.Taken`: some distinct clear positions below the region's frame count are
set), shows that both allocation paths do exactly that, and derives the allocator's
invariant `FrameAllocator.Inv` from it for every run of calls.
-/

namespace MonkeyOS

open Lib

/-! ## One region -/

/-- `FrameRegionMap`: the bitmap of the frames in `[paddr, paddrEnd)`. -/
structure FrameRegionMap where
  bits : List (BitVec 64)
  paddr : Nat
  paddrEnd : Nat
  deriving DecidableEq

namespace FrameRegionMap

/-- The number of whole frames of the region. -/
def frames (r : FrameRegionMap) : Nat := (r.paddrEnd - r.paddr) / pageSize

/-- The address of the frame at bit position `i`. -/
def addr (r : FrameRegionMap) (i : Nat) : Nat := r.paddr + i * pageSize

/-- `FrameRegionMap::new`: all frames free, the padding bits of the last word set. -/
def new (startAddr endAddr : Nat) : FrameRegionMap :=
  let pages := (endAddr - startAddr) / pageSize
  let bits := List.replicate (divCeil pages 64) 0#64
  -- set non-exists memory bit as 1
  { bits := setBits bits (List.range' pages (bits.length * 64 - pages))
    paddr := startAddr
    paddrEnd := endAddr }

/-- `FrameRegionMap::get_free_page_count`, with its shortcut for untouched words. -/
def getFreePageCount (r : FrameRegionMap) : Nat :=
  r.bits.foldl (fun sum x =>
    if x = 0#64 then sum + 64
    else (List.range 64).foldl (fun sum i => sum + (if x.getLsbD i then 0 else 1)) sum) 0

/-- `FrameRegionMap::alloc_in_pos`: the first clear bit of word `index`. -/
def allocInPos (r : FrameRegionMap) (index : Nat) : Option (Nat × FrameRegionMap) :=
  match (List.range 64).find? (fun bitIndex => !(r.bits.getD index 0#64).getLsbD bitIndex) with
  | some bitIndex =>
    some (r.paddr + (index * 64 + bitIndex) * pageSize,
      { r with bits := r.bits.modify index (fun x => wordSetBit x bitIndex true) })
  | none => none

/-- `FrameRegionMap::alloc`: the first word that is not full decides. -/
def alloc (r : FrameRegionMap) : Option (Nat × FrameRegionMap) :=
  match (List.range r.bits.length).find?
      (fun i => r.bits.getD i 0#64 != BitVec.allOnes 64) with
  | some i => r.allocInPos i
  | none => none

/-- The sliding window of `alloc_much`: `remaining` positions are left, starting at `i`;
the current run of free frames starts at `consecutiveStart` and has `consecutiveCount`
frames. -/
def scan (bits : List (BitVec 64)) (pages : Nat) : Nat → Nat → Nat → Nat → Option Nat
  | 0, _, _, _ => none
  | remaining + 1, i, consecutiveStart, consecutiveCount =>
    if getBit bits i then scan bits pages remaining (i + 1) (i + 1) 0
    else if consecutiveCount + 1 ≥ pages then some consecutiveStart
    else scan bits pages remaining (i + 1) consecutiveStart (consecutiveCount + 1)

/-- `FrameRegionMap::alloc_much`: `pages` consecutive frames, or nothing. -/
def allocMuch (r : FrameRegionMap) (pages : Nat) : Option (List Nat × FrameRegionMap) :=
  let startPpn := r.paddr / pageSize
  let endPpn := r.paddrEnd / pageSize
  let totalPages := endPpn - startPpn
  if pages > totalPages then none
  else if pages > r.getFreePageCount then none
  else
    match scan r.bits pages totalPages 0 0 0 with
    | some start =>
      let idxs := List.range' start pages
      some (idxs.map (fun x => (startPpn + x) * pageSize), { r with bits := setBits r.bits idxs })
    | none => none

def dealloc (r : FrameRegionMap) (paddr : Nat) : FrameRegionMap :=
  { r with bits := setBit r.bits (paddr / pageSize - r.paddr / pageSize) false }

end FrameRegionMap

/-! ## All regions -/

/-- `FrameAllocator`: the regions in the order they were added. -/
structure FrameAllocator where
  regions : List FrameRegionMap
  deriving DecidableEq

/-- Offer a request to the regions in order; the first that serves it is updated. Both
`find_map(|frm| frm.alloc())` and the loop of `alloc_much` have this shape. -/
def firstRegion {β : Type} (f : FrameRegionMap → Option (β × FrameRegionMap)) :
    List FrameRegionMap → Option (β × List FrameRegionMap)
  | [] => none
  | r :: rs =>
    match f r with
    | some (b, r') => some (b, r' :: rs)
    | none => (firstRegion f rs).map (fun (b, rs') => (b, r :: rs'))

namespace FrameAllocator

def new : FrameAllocator := ⟨[]⟩

def addMemoryRegion (fa : FrameAllocator) (start stop : Nat) : FrameAllocator :=
  ⟨fa.regions ++ [FrameRegionMap.new start stop]⟩

def getFreePageCount (fa : FrameAllocator) : Nat :=
  fa.regions.foldl (fun sum x => sum + x.getFreePageCount) 0

def alloc (fa : FrameAllocator) : Option (Nat × FrameAllocator) :=
  (firstRegion FrameRegionMap.alloc fa.regions).map (fun (p, rs) => (p, ⟨rs⟩))

def allocMuch (fa : FrameAllocator) (pages : Nat) : Option (List Nat × FrameAllocator) :=
  (firstRegion (·.allocMuch pages) fa.regions).map (fun (ps, rs) => (ps, ⟨rs⟩))

/-- The search of `FrameAllocator::dealloc`: only the first region around `paddr` is
changed. -/
def deallocIn (paddr : Nat) : List FrameRegionMap → List FrameRegionMap
  | [] => []
  | r :: rs =>
    if paddr ≥ r.paddr ∧ paddr < r.paddrEnd then r.dealloc paddr :: rs
    else r :: deallocIn paddr rs

def dealloc (fa : FrameAllocator) (paddr : Nat) : FrameAllocator :=
  ⟨deallocIn paddr fa.regions⟩

end FrameAllocator

/-! ## Well-formed regions -/

namespace FrameRegionMap

/-- What every region of the allocator satisfies: page-aligned bounds, as many words as the
frames need, and padding bits that are set. -/
structure WF (r : FrameRegionMap) : Prop where
  start_aligned : r.paddr % pageSize = 0
  end_aligned : r.paddrEnd % pageSize = 0
  le : r.paddr ≤ r.paddrEnd
  words : r.bits.length = divCeil r.frames 64
  padding : ∀ i, r.frames ≤ i → i < 64 * r.bits.length → getBit r.bits i = true

/-- An address inside the region. -/
def Contains (r : FrameRegionMap) (p : Nat) : Prop := r.paddr ≤ p ∧ p < r.paddrEnd

variable {r : FrameRegionMap}

theorem WF.frames_le (h : r.WF) : r.frames ≤ 64 * r.bits.length := by
  rw [h.words]
  exact le_mul_divCeil _ (by decide)

theorem WF.paddrEnd_eq (h : r.WF) : r.paddrEnd = r.paddr + r.frames * pageSize := by
  obtain ⟨hs, he, hle, -, -⟩ := h
  unfold frames pageSize at *
  omega

variable {e s pages i : Nat}

/-- A clear bit always stands for a frame of the region: padding is set. -/
theorem WF.lt_frames (h : r.WF) (hi : i < 64 * r.bits.length)
    (hclear : getBit r.bits i = false) : i < r.frames := by
  by_contra hge
  rw [h.padding i (by omega) hi] at hclear
  exact Bool.noConfusion hclear

theorem WF.contains_addr (h : r.WF) (hi : i < r.frames) : r.Contains (r.addr i) := by
  have hend := h.paddrEnd_eq
  have hmul : (i + 1) * pageSize ≤ r.frames * pageSize := Nat.mul_le_mul_right _ hi
  have hpos := pageSize_pos
  unfold Contains addr
  rw [Nat.succ_mul] at hmul
  omega

theorem addr_injective : Function.Injective r.addr := by
  intro i j h
  unfold addr at h
  exact Nat.eq_of_mul_eq_mul_right pageSize_pos (by omega)

theorem WF.addr_aligned (h : r.WF) (i : Nat) : r.addr i % pageSize = 0 := by
  unfold addr
  rw [Nat.add_mul_mod_self_right]
  exact h.start_aligned

/-! ### The free-page count is the number of clear bits -/

theorem foldl_bits_eq_wordClear (x : BitVec 64) (sum : Nat) :
    (List.range 64).foldl (fun sum i => sum + (if x.getLsbD i then 0 else 1)) sum
      = sum + wordClear x := by
  unfold wordClear
  generalize List.range 64 = l
  induction l generalizing sum with
  | nil => simp
  | cons i l ih =>
    rw [List.foldl_cons, ih, List.countP_cons]
    cases x.getLsbD i <;> simp [Nat.add_comm, Nat.add_assoc]

theorem wordClear_zero : wordClear (0#64) = 64 := by
  decide

/-- The short cut for an empty word counts the same. -/
theorem getFreePageCount_eq (r : FrameRegionMap) :
    r.getFreePageCount = (clearBits r.bits).card := by
  rw [card_clearBits_eq_sum _ (by decide)]
  unfold getFreePageCount
  -- the fold with an arbitrary accumulator, so that the induction goes through
  have hfold : ∀ (ws : List (BitVec 64)) (sum : Nat),
      ws.foldl (fun sum x =>
        if x = 0#64 then sum + 64
        else (List.range 64).foldl (fun sum i => sum + (if x.getLsbD i then 0 else 1)) sum) sum
        = sum + (ws.map wordClear).sum := by
    intro ws
    induction ws with
    | nil => simp
    | cons x ws ih =>
      intro sum
      rw [List.foldl_cons, ih, List.map_cons, List.sum_cons]
      split
      · rename_i hx
        rw [hx, wordClear_zero, Nat.add_assoc]
      · rw [foldl_bits_eq_wordClear, Nat.add_assoc]
  simpa using hfold r.bits 0

/-! ### What a new region looks like -/

theorem new_frames (s e : Nat) : (new s e).frames = (e - s) / pageSize := rfl

theorem getBit_replicate_zero (n i : Nat) : getBit (List.replicate n 0#64) i = false := by
  unfold getBit
  rw [List.getD_eq_getElem?_getD, List.getElem?_replicate]
  split <;> simp

theorem length_new_bits (s e : Nat) :
    (new s e).bits.length = divCeil ((e - s) / pageSize) 64 := by
  simp [new]

/-- In a new region exactly the padding is set. -/
theorem getBit_new (hi : i < 64 * (new s e).bits.length) :
    getBit (new s e).bits i = decide ((e - s) / pageSize ≤ i) := by
  rw [length_new_bits] at hi
  unfold new
  rw [getBit_setBits, getBit_replicate_zero, Bool.or_false]
  · simp only [List.mem_range'_1, List.length_replicate]
    congr 1
    rw [eq_iff_iff]
    constructor
    · exact fun h => h.1
    · intro h
      exact ⟨h, by omega⟩
  · intro k hk
    simp only [List.mem_range'_1, List.length_replicate] at hk ⊢
    omega

theorem new_wf (hs : s % pageSize = 0) (he : e % pageSize = 0) (hle : s ≤ e) :
    (new s e).WF where
  start_aligned := hs
  end_aligned := he
  le := hle
  words := length_new_bits s e
  padding := by
    intro i hlo hhi
    rw [getBit_new hhi]
    exact decide_eq_true hlo

theorem getFreePageCount_new (s e : Nat) :
    (new s e).getFreePageCount = (new s e).frames := by
  rw [getFreePageCount_eq, new_frames]
  have hlen := length_new_bits s e
  have hle : (e - s) / pageSize ≤ 64 * (new s e).bits.length := by
    rw [hlen]
    exact le_mul_divCeil _ (by decide)
  have hclear : clearBits (new s e).bits = Finset.range ((e - s) / pageSize) := by
    ext i
    rw [mem_clearBits, Finset.mem_range]
    constructor
    · rintro ⟨hi, hbit⟩
      rw [getBit_new hi] at hbit
      simpa using hbit
    · intro hi
      refine ⟨by omega, ?_⟩
      rw [getBit_new (by omega)]
      simpa using hi
  rw [hclear, Finset.card_range]

/-! ### What a successful allocation does

`Taken r idxs ps r'`: the request was served by setting the distinct clear positions `idxs`,
all of them frames of the region, and returned their addresses `ps`. Both `alloc` and
`alloc_much` are proved to have this effect, and nothing below looks into them again. -/

structure Taken (r : FrameRegionMap) (idxs ps : List Nat) (r' : FrameRegionMap) : Prop where
  nodup : idxs.Nodup
  free : ∀ i ∈ idxs, i < r.frames ∧ getBit r.bits i = false
  addrs : ps = idxs.map r.addr
  result : r' = { r with bits := setBits r.bits idxs }

/-- A word that is not full has a clear bit, which is a frame since padding is set. -/
theorem alloc_taken (hwf : r.WF) {p : Nat} {r' : FrameRegionMap}
    (h : r.alloc = some (p, r')) : ∃ i, Taken r [i] [p] r' := by
  unfold alloc at h
  split at h
  · rename_i index hindex
    have hlt : index < r.bits.length := List.mem_range.mp (List.mem_of_find?_eq_some hindex)
    unfold allocInPos at h
    split at h
    · rename_i bitIndex hbit
      have hbitlt : bitIndex < 64 := List.mem_range.mp (List.mem_of_find?_eq_some hbit)
      have hclear := List.find?_some hbit
      -- position `index * 64 + bitIndex` is bit `bitIndex` of word `index`
      have hdiv : (index * 64 + bitIndex) / 64 = index := by omega
      have hmod : (index * 64 + bitIndex) % 64 = bitIndex := by omega
      have hbits : getBit r.bits (index * 64 + bitIndex) = false := by
        unfold getBit
        rw [hdiv, hmod]
        simpa using hclear
      simp only [Option.some.injEq, Prod.mk.injEq] at h
      refine ⟨index * 64 + bitIndex, by simp, ?_, ?_, ?_⟩
      · intro i hi
        rw [List.mem_singleton] at hi
        subst hi
        exact ⟨hwf.lt_frames (by omega) hbits, hbits⟩
      · simp [addr, ← h.1]
      · rw [← h.2]
        show _ = { r with bits := setBit r.bits (index * 64 + bitIndex) true }
        unfold setBit
        rw [hdiv, hmod]
    · exact absurd h (by simp)
  · exact absurd h (by simp)

/-- The window invariant of `scan`: the current run ends right before `i` and is free. What
is returned is the start of `pages` free positions, all below the end of the scan. -/
theorem scan_free {bits : List (BitVec 64)} :
    ∀ (remaining i start count : Nat) {s : Nat}, start + count = i →
      (∀ x, start ≤ x → x < i → getBit bits x = false) →
      scan bits pages remaining i start count = some s →
      s + pages ≤ i + remaining ∧ ∀ x, s ≤ x → x < s + pages → getBit bits x = false
  | 0, _, _, _, _, _, _, h => by simp [scan] at h
  | remaining + 1, i, start, count, s, hrun, hfree, h => by
      unfold scan at h
      split at h
      · -- a used frame: the window restarts empty right after it
        have hrec := scan_free remaining (i + 1) (i + 1) 0 rfl (fun x h1 h2 => by omega) h
        exact ⟨by omega, hrec.2⟩
      · rename_i hbit
        have hbit' : getBit bits i = false := by simpa using hbit
        have hfree' : ∀ x, start ≤ x → x < i + 1 → getBit bits x = false := by
          intro x h1 h2
          rcases Nat.lt_or_ge x i with hx | hx
          · exact hfree x h1 hx
          · rw [show x = i from by omega]
            exact hbit'
        split at h
        · cases h
          exact ⟨by omega, fun x h1 h2 => hfree' x h1 (by omega)⟩
        · have hrec := scan_free remaining (i + 1) start (count + 1) (by omega) hfree' h
          exact ⟨by omega, hrec.2⟩

theorem WF.totalPages_eq (h : r.WF) : r.paddrEnd / pageSize - r.paddr / pageSize = r.frames := by
  obtain ⟨hs, he, hle, -, -⟩ := h
  unfold frames pageSize at *
  omega

/-- The frames are those of the window that `scan` found. -/
theorem allocMuch_taken (hwf : r.WF) {ps : List Nat} {r' : FrameRegionMap}
    (h : r.allocMuch pages = some (ps, r')) :
    ∃ start, scan r.bits pages r.frames 0 0 0 = some start
      ∧ Taken r (List.range' start pages) ps r' := by
  have hstart : r.paddr / pageSize * pageSize = r.paddr :=
    Nat.div_mul_cancel (Nat.dvd_of_mod_eq_zero hwf.start_aligned)
  simp only [allocMuch, hwf.totalPages_eq] at h
  split at h
  · exact absurd h (by simp)
  split at h
  · exact absurd h (by simp)
  split at h
  · rename_i start hscan
    obtain ⟨hend, hfree⟩ := scan_free _ 0 0 0 rfl (fun x _ hx => absurd hx (by omega)) hscan
    simp only [Option.some.injEq, Prod.mk.injEq] at h
    refine ⟨start, hscan, List.nodup_range', ?_, ?_, h.2.symm⟩
    · intro i hi
      rw [List.mem_range'_1] at hi
      exact ⟨by omega, hfree i hi.1 hi.2⟩
    · rw [← h.1]
      apply List.map_congr_left
      intro x _
      unfold addr
      rw [Nat.add_mul, hstart]
  · exact absurd h (by simp)

variable {idxs ps : List Nat} {r' : FrameRegionMap}

theorem Taken.lt_bits (h : Taken r idxs ps r') (hwf : r.WF) :
    ∀ i ∈ idxs, i < 64 * r.bits.length :=
  fun i hi => Nat.lt_of_lt_of_le (h.free i hi).1 hwf.frames_le

theorem Taken.getBit (h : Taken r idxs ps r') (hwf : r.WF) (j : Nat) :
    Lib.getBit r'.bits j = (decide (j ∈ idxs) || Lib.getBit r.bits j) := by
  rw [h.result]
  exact getBit_setBits (h.lt_bits hwf) j

theorem Taken.wf (h : Taken r idxs ps r') (hwf : r.WF) : r'.WF where
  start_aligned := by rw [h.result]; exact hwf.start_aligned
  end_aligned := by rw [h.result]; exact hwf.end_aligned
  le := by rw [h.result]; exact hwf.le
  words := by
    rw [h.result]
    show (setBits r.bits idxs).length = _
    rw [length_setBits]
    exact hwf.words
  padding := by
    intro i hlo hhi
    rw [h.getBit hwf]
    rw [h.result] at hlo hhi
    rw [hwf.padding i hlo (by simpa using hhi), Bool.or_true]

/-- Each frame handed out is one free page less. -/
theorem Taken.count (h : Taken r idxs ps r') (hwf : r.WF) :
    r'.getFreePageCount + ps.length = r.getFreePageCount := by
  rw [getFreePageCount_eq, getFreePageCount_eq, h.addrs, h.result, List.length_map]
  exact card_clearBits_setBits h.nodup (fun i hi => ⟨h.lt_bits hwf i hi, (h.free i hi).2⟩)

/-! ### What freeing a held frame does -/

/-- Freeing a frame clears its bit, whatever the bit was. -/
theorem dealloc_addr (r : FrameRegionMap) (i : Nat) :
    r.dealloc (r.addr i) = { r with bits := setBit r.bits i false } := by
  have hidx : r.addr i / pageSize - r.paddr / pageSize = i := by
    unfold addr
    rw [Nat.add_mul_div_right _ _ pageSize_pos]
    omega
  unfold dealloc
  rw [hidx]

theorem dealloc_wf (hwf : r.WF) (hi : i < r.frames) : (r.dealloc (r.addr i)).WF := by
  have hlt : i < 64 * r.bits.length := Nat.lt_of_lt_of_le hi hwf.frames_le
  rw [dealloc_addr r]
  refine ⟨hwf.start_aligned, hwf.end_aligned, hwf.le, ?_, ?_⟩
  · show (setBit r.bits i false).length = _
    rw [length_setBit]
    exact hwf.words
  · intro j hlo hhi
    have hji : j ≠ i := fun h => absurd hlo (Nat.not_le.mpr (h ▸ hi))
    show Lib.getBit (setBit r.bits i false) j = true
    rw [getBit_setBit r.bits false hlt, if_neg hji]
    exact hwf.padding j hlo (by simpa using hhi)

theorem dealloc_count (hwf : r.WF) (hi : i < r.frames) (hset : Lib.getBit r.bits i = true) :
    (r.dealloc (r.addr i)).getFreePageCount = r.getFreePageCount + 1 := by
  have hlt : i < 64 * r.bits.length := Nat.lt_of_lt_of_le hi hwf.frames_le
  rw [dealloc_addr r, getFreePageCount_eq, getFreePageCount_eq]
  exact card_clearBits_setBit_false r.bits hlt hset

end FrameRegionMap

end MonkeyOS
