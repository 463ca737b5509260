import MonkeyOS.Basic
import Mathlib.Data.List.Pairwise

/-!
# MonkeyOS — memory areas (`kernel/src/tasks/memset.rs`)

A `MemSet` is the list of a process's areas. An area covers `[start, start + len)` and holds a
tracker for each resident page: the page's address and the frame behind it.

`MemSet::sub_area` takes a range out of every area. `MemArea::sub` has four shapes for it:

* the range lies strictly inside the area (`MemArea.Splits`): the area is cut in two;
* the area lies inside the range: it goes;
* the range covers its end, or its start: it is trimmed.

The last three drop and unmap exactly the pages of the range (`sub_of_not_splits`). The first
does neither: the pages behind the range are dropped before they can be moved to the new
area, and those of the range stay (`sub_of_splits`). `subArea_keeps_iff` says for which ranges
`sub_area` nevertheless loses no other page.

A page table is the partial map it represents, and a file is named by a number; the writes to
files are recorded in the order they are made. Addresses are natural numbers: `start + len` does not
wrap as long as no area ends at 2^64, and what becomes of one that does is in `subAreaUsize`.
-/

namespace MonkeyOS

inductive MemType where
  | codeSection
  | stack
  | mmap
  | shared
  | shareFile
  deriving DecidableEq

/-- `MapTrack`; an `Arc<FrameTracker>` is the frame it holds. -/
structure MapTrack where
  vaddr : Nat
  tracker : Nat
  rwx : Nat
  deriving DecidableEq

structure MemArea where
  mtype : MemType
  mtrackers : List MapTrack
  file : Option Nat
  offset : Nat
  start : Nat
  len : Nat
  deriving DecidableEq

structure MemSet where
  areas : List MemArea
  deriving DecidableEq

/-- What `sub_area` does besides changing areas and page table. -/
inductive MemEvent where
  /-- a whole page written to the file at the offset -/
  | writePage (file offset frame : Nat)
  deriving DecidableEq

/-! ## Page tables -/

/-- `MappingFlags` of a user page. -/
structure MappingFlags where
  readable : Bool
  writable : Bool
  executable : Bool
  deriving DecidableEq

structure PTE where
  frame : Nat
  flags : MappingFlags
  deriving DecidableEq

def PageTable := Nat → Option PTE

namespace PageTable

def empty : PageTable := fun _ => none

def mapPage (pt : PageTable) (v frame : Nat) (flags : MappingFlags) : PageTable :=
  fun u => if u = v then some ⟨frame, flags⟩ else pt u

def unmapPage (pt : PageTable) (v : Nat) : PageTable := fun u => if u = v then none else pt u

def unmapPages (pt : PageTable) (vs : List Nat) : PageTable := vs.foldl unmapPage pt

theorem unmapPages_apply (pt : PageTable) (vs : List Nat) (v : Nat) :
    pt.unmapPages vs v = if v ∈ vs then none else pt v := by
  induction vs generalizing pt with
  | nil => simp [unmapPages]
  | cons u vs ih =>
    show (pt.unmapPage u).unmapPages vs v = _
    rw [ih]
    unfold unmapPage
    by_cases hv : v = u
    · simp [hv]
    · simp [hv]

end PageTable

/-! ## `MemArea` -/

/-- `(lo..hi).contains(&v)`. -/
def inRange (lo hi v : Nat) : Bool := decide (lo ≤ v) && decide (v < hi)

@[simp] theorem inRange_iff {lo hi v : Nat} : inRange lo hi v = true ↔ lo ≤ v ∧ v < hi := by
  simp [inRange]

namespace MemArea

def stop (a : MemArea) : Nat := a.start + a.len

/-- `overlapping`, where this is `self.start + self.len`. -/
def overlappingTo (a : MemArea) (stop s e : Nat) : Bool :=
  !((decide (s ≤ a.start) && decide (e ≤ a.start)) || (decide (s ≥ stop) && decide (e ≥ stop)))

def overlapping (a : MemArea) (s e : Nat) : Bool := a.overlappingTo a.stop s e

def contains (a : MemArea) (addr : Nat) : Bool := inRange a.start a.stop addr

/-- `write_page`, for an area with a file; the subtraction is on `usize`. -/
def writePage (a : MemArea) (file : Nat) (t : MapTrack) : MemEvent :=
  .writePage file ((t.vaddr + a.offset + 2 ^ 64 - a.start) % 2 ^ 64) t.tracker

/-- The write-back every branch of `sub` makes before it drops trackers. -/
def writeBack (a : MemArea) (s e : Nat) : List MemEvent :=
  match a.file with
  | some file => (a.mtrackers.filter (fun t => inRange s e t.vaddr)).map (a.writePage file)
  | none => []

/-- The area after `sub`, what was split off it, the pages it unmapped, the pages it wrote. -/
structure SubResult where
  area : MemArea
  split : Option MemArea
  unmapped : List Nat
  written : List MemEvent
  deriving DecidableEq

/-- `sub`, where this is what `overlapping` says and this is `self.start + self.len`. -/
def subTo (a : MemArea) (overlaps : Bool) (stop s e : Nat) : SubResult :=
  if !overlaps then ⟨a, none, [], []⟩
  else if inRange a.start stop s && inRange a.start stop e then
    let shrunk := { a with len := s - a.start }
    let kept := a.mtrackers.filter (fun t => !inRange e stop t.vaddr)
    { area := { shrunk with mtrackers := kept.filter (fun t => !inRange e stop t.vaddr) }
      split := some
        { mtype := a.mtype
          mtrackers := kept.filter (fun t => inRange e stop t.vaddr)
          file := a.file
          start := e
          offset := e - a.start
          len := stop - e }
      unmapped := []
      written := shrunk.writeBack s e }
  else if inRange s e a.start && inRange s e stop then
    let gone := { a with len := 0 }
    { area := { gone with mtrackers := [] }
      split := none
      unmapped := a.mtrackers.map (·.vaddr)
      written := gone.writeBack s e }
  else
    let trimmed :=
      if inRange a.start stop s then { a with len := s - a.start }
      else if inRange s e a.start then { a with len := stop - e, start := e }
      else a
    { area := { trimmed with
        mtrackers := a.mtrackers.filter (fun t => inRange trimmed.start trimmed.stop t.vaddr) }
      split := none
      unmapped := (a.mtrackers.filter
        (fun t => !inRange trimmed.start trimmed.stop t.vaddr)).map (·.vaddr)
      written := trimmed.writeBack s e }

def sub (a : MemArea) (s e : Nat) : SubResult := a.subTo (a.overlapping s e) a.stop s e

end MemArea

namespace MemSet

def overlapping (m : MemSet) (s e : Nat) : Bool := m.areas.any (·.overlapping s e)

/-- The areas with something left, then the split-off ones. -/
def ofResults (results : List MemArea.SubResult) : MemSet :=
  ⟨(results.map (·.area)).filter (·.len != 0)
    ++ results.filterMap (·.split)⟩

def subArea (m : MemSet) (s e : Nat) : MemSet := ofResults (m.areas.map (·.sub s e))

/-- The page table after `sub_area`. -/
def subAreaPt (m : MemSet) (s e : Nat) (pt : PageTable) : PageTable :=
  pt.unmapPages (m.areas.flatMap (fun a => (a.sub s e).unmapped))

end MemSet

/-! ## What `sub` does to one area -/

namespace MemArea

variable {a : MemArea} {s e : Nat}

variable {v : Nat} {b : MemArea}

theorem contains_iff : a.contains v = true ↔ a.start ≤ v ∧ v < a.stop := by
  simp [contains]

def Disjoint (a b : MemArea) : Prop := ∀ v, ¬ (a.contains v = true ∧ b.contains v = true)

instance : Std.Symm MemArea.Disjoint := ⟨fun _ _ h v hv => h v hv.symm⟩

def Aligned (a : MemArea) : Prop := a.start % pageSize = 0 ∧ a.len % pageSize = 0

/-- Every tracker lies inside its area. -/
def Inside (a : MemArea) : Prop := ∀ t ∈ a.mtrackers, a.contains t.vaddr = true

theorem overlapping_iff :
    a.overlapping s e = true
      ↔ ¬ (s ≤ a.start ∧ e ≤ a.start) ∧ ¬ (s ≥ a.stop ∧ e ≥ a.stop) := by
  simp only [overlapping, overlappingTo, Bool.not_eq_true', Bool.or_eq_false_iff, Bool.and_eq_false_iff,
    decide_eq_false_iff_not]
  omega

/-- The range starts and ends inside the area, with something of the area behind it. -/
structure Splits (a : MemArea) (s e : Nat) : Prop where
  overlapping : a.overlapping s e = true
  start : inRange a.start a.stop s = true
  stop : inRange a.start a.stop e = true

theorem not_both_of_not_splits (hover : a.overlapping s e = true) (h : ¬ a.Splits s e) :
    ¬ (inRange a.start a.stop s && inRange a.start a.stop e) = true := by
  intro hboth
  rw [Bool.and_eq_true] at hboth
  exact h ⟨hover, hboth.1, hboth.2⟩

/-- The split: the trackers behind the range are in neither half, those of the range stay,
and no page is unmapped. -/
theorem sub_of_splits (h : a.Splits s e) :
    (a.sub s e).area = { a with
        len := s - a.start
        mtrackers := a.mtrackers.filter (fun t => !inRange e a.stop t.vaddr) }
      ∧ (a.sub s e).split = some ⟨a.mtype, [], a.file, e - a.start, e, a.stop - e⟩
      ∧ (a.sub s e).unmapped = [] := by
  have hnone : a.mtrackers.filter
      (fun t => inRange e a.stop t.vaddr && !inRange e a.stop t.vaddr) = [] := by
    simp
  simp only [sub, subTo, h.overlapping, h.start, h.stop, Bool.not_true, Bool.false_eq_true, if_false,
    Bool.and_self, if_true, List.filter_filter, hnone, and_self]

/-- What is left of `a` without the pages of `[s, e)`. -/
structure Without (a : MemArea) (s e : Nat) (r : SubResult) : Prop where
  split : r.split = none
  mtype : r.area.mtype = a.mtype
  file : r.area.file = a.file
  contains : ∀ v, r.area.contains v = true ↔ a.contains v = true ∧ ¬ (s ≤ v ∧ v < e)
  aligned : s % pageSize = 0 → e % pageSize = 0 → a.Aligned → r.area.Aligned
  mtrackers : r.area.mtrackers = a.mtrackers.filter (fun t => !inRange s e t.vaddr)
  unmapped : r.unmapped
    = (a.mtrackers.filter (fun t => inRange s e t.vaddr)).map (·.vaddr)

/-- The last branch of `sub`: `b` is `a` with new bounds, which leave out the range. -/
theorem Inside.without_of_bounds (hin : a.Inside) {written : List MemEvent}
    (hmtype : b.mtype = a.mtype) (hfile : b.file = a.file)
    (haligned : s % pageSize = 0 → e % pageSize = 0 → a.Aligned → b.Aligned)
    (hbounds : ∀ v, inRange b.start b.stop v = true
      ↔ a.contains v = true ∧ ¬ (s ≤ v ∧ v < e)) :
    a.Without s e
      { area := { b with
          mtrackers := a.mtrackers.filter (fun t => inRange b.start b.stop t.vaddr) }
        split := none
        unmapped := (a.mtrackers.filter
          (fun t => !inRange b.start b.stop t.vaddr)).map (·.vaddr)
        written := written } := by
  -- inside `a` the new bounds and the range are complements of each other
  have hcompl : ∀ t ∈ a.mtrackers, inRange b.start b.stop t.vaddr = !inRange s e t.vaddr := by
    intro t ht
    rw [Bool.eq_iff_iff, hbounds, Bool.not_eq_true', ← Bool.not_eq_true, inRange_iff]
    exact and_iff_right (hin t ht)
  refine ⟨rfl, hmtype, hfile, hbounds, haligned, List.filter_congr hcompl, ?_⟩
  show (a.mtrackers.filter _).map _ = _
  rw [List.filter_congr (fun t ht => by rw [hcompl t ht, Bool.not_not])]

/-- The bounds the last branch of `sub` chooses. -/
theorem trim_bounds (hse : s ≤ e) (hover : a.overlapping s e = true) (h : ¬ a.Splits s e)
    (hswallow : ¬ (inRange s e a.start && inRange s e a.stop) = true)
    (hb : b = if inRange a.start a.stop s then { a with len := s - a.start }
      else if inRange s e a.start then { a with len := a.stop - e, start := e }
      else a) (v : Nat) :
    inRange b.start b.stop v = true ↔ a.contains v = true ∧ ¬ (s ≤ v ∧ v < e) := by
  have hsplit := not_both_of_not_splits hover h
  rw [overlapping_iff] at hover
  simp only [Bool.and_eq_true, inRange_iff, stop] at hsplit hswallow hover
  rw [contains_iff, inRange_iff]
  split at hb
  · rename_i hs
    rw [inRange_iff] at hs
    subst hb
    simp only [stop] at hs ⊢
    omega
  · rename_i hs
    rw [inRange_iff] at hs
    simp only [stop] at hs
    split at hb
    · rename_i hstart
      rw [inRange_iff] at hstart
      subst hb
      simp only [stop]
      omega
    · -- not reached: an overlapping range starts in the area or before it
      rename_i hstart
      rw [inRange_iff] at hstart
      omega

theorem sub_of_missed (hin : a.Inside) (h : ¬ a.overlapping s e = true) :
    a.Without s e (a.sub s e) := by
  have hout : ∀ v, a.contains v = true → ¬ (s ≤ v ∧ v < e) := by
    intro v hv
    rw [contains_iff] at hv
    rw [overlapping_iff] at h
    omega
  have hsub : a.sub s e = ⟨a, none, [], []⟩ := by
    unfold sub subTo
    rw [if_pos (by simpa using h)]
  have hnone : ∀ t ∈ a.mtrackers, inRange s e t.vaddr = false := by
    intro t ht
    rw [← Bool.not_eq_true, inRange_iff]
    exact hout _ (hin t ht)
  rw [hsub]
  refine ⟨rfl, rfl, rfl, fun v => ⟨fun hv => ⟨hv, hout v hv⟩, And.left⟩,
    fun _ _ halign => halign, ?_, ?_⟩
  · exact (List.filter_eq_self.mpr (fun t ht => by simp [hnone t ht])).symm
  · rw [List.filter_eq_nil_iff.mpr (fun t ht => by simp [hnone t ht])]
    rfl

theorem sub_of_swallowed (hin : a.Inside) (hover : a.overlapping s e = true)
    (h : ¬ a.Splits s e) (hswallow : (inRange s e a.start && inRange s e a.stop) = true) :
    a.Without s e (a.sub s e) := by
  have hsub : a.sub s e = ⟨{ a with len := 0, mtrackers := [] }, none,
      a.mtrackers.map (·.vaddr), ({ a with len := 0 } : MemArea).writeBack s e⟩ := by
    unfold sub subTo
    rw [if_neg (by simp [hover]), if_neg (not_both_of_not_splits hover h), if_pos hswallow]
  simp only [Bool.and_eq_true, inRange_iff, stop] at hswallow
  have hall : ∀ t ∈ a.mtrackers, inRange s e t.vaddr = true := by
    intro t ht
    have ht := contains_iff.mp (hin t ht)
    rw [stop] at ht
    rw [inRange_iff]
    omega
  rw [hsub]
  refine ⟨rfl, rfl, rfl, ?_, fun _ _ halign => ⟨halign.1, rfl⟩, ?_, ?_⟩
  · intro v
    simp only [contains_iff, stop]
    omega
  · refine (List.filter_eq_nil_iff.mpr ?_).symm
    intro t ht
    simp [hall t ht]
  · rw [List.filter_eq_self.mpr hall]

theorem sub_of_trimmed (hin : a.Inside) (hse : s ≤ e) (hover : a.overlapping s e = true)
    (h : ¬ a.Splits s e) (hswallow : ¬ (inRange s e a.start && inRange s e a.stop) = true) :
    a.Without s e (a.sub s e) := by
  unfold sub subTo
  rw [if_neg (by simp [hover]), if_neg (not_both_of_not_splits hover h), if_neg hswallow]
  refine hin.without_of_bounds ?_ ?_ ?_ (trim_bounds hse hover h hswallow rfl)
  · split
    · rfl
    · split <;> rfl
  · split
    · rfl
    · split <;> rfl
  · intro hs he halign
    unfold Aligned pageSize at *
    split
    · simp only
      omega
    split
    · simp only [stop]
      omega
    · exact halign

theorem sub_of_not_splits (hin : a.Inside) (hse : s ≤ e) (h : ¬ a.Splits s e) :
    a.Without s e (a.sub s e) := by
  by_cases hover : a.overlapping s e = true
  · by_cases hswallow : (inRange s e a.start && inRange s e a.stop) = true
    · exact sub_of_swallowed hin hover h hswallow
    · exact sub_of_trimmed hin hse hover h hswallow
  · exact sub_of_missed hin hover

/-! ## The pieces of an area

`Piece a s e b`: the area `b` is what `sub_area` keeps of `a`, or what it splits off. Whatever
becomes of the trackers, the pieces of `a` cover `a` without the range, once. -/

def Piece (a : MemArea) (s e : Nat) (b : MemArea) : Prop :=
  (a.sub s e).area = b ∧ b.len ≠ 0 ∨ (a.sub s e).split = some b

theorem contains_len_ne_zero (h : a.contains v = true) : a.len ≠ 0 := by
  rw [contains_iff, stop] at h
  omega

/-- The two halves of a split. -/
theorem Splits.piece_iff (h : a.Splits s e) :
    a.Piece s e b
      ↔ { a with
          len := s - a.start
          mtrackers := a.mtrackers.filter (fun t => !inRange e a.stop t.vaddr) } = b ∧ b.len ≠ 0
        ∨ ⟨a.mtype, [], a.file, e - a.start, e, a.stop - e⟩ = b := by
  obtain ⟨harea, hsplit, -⟩ := sub_of_splits h
  unfold Piece
  rw [harea, hsplit, Option.some.injEq]

theorem Without.piece_iff (h : a.Without s e (a.sub s e)) :
    a.Piece s e b ↔ (a.sub s e).area = b ∧ b.len ≠ 0 := by
  unfold Piece
  rw [h.split]
  simp

theorem Piece.covers (hin : a.Inside) (hse : s ≤ e) (hb : a.Piece s e b)
    (hv : b.contains v = true) : a.contains v = true ∧ ¬ (s ≤ v ∧ v < e) := by
  by_cases h : a.Splits s e
  · have hs := inRange_iff.mp h.start
    have he := inRange_iff.mp h.stop
    rcases h.piece_iff.mp hb with ⟨rfl, -⟩ | rfl
    · simp only [contains_iff, stop] at hv hs he ⊢
      omega
    · simp only [contains_iff, stop] at hv hs he ⊢
      omega
  · have hwithout := sub_of_not_splits hin hse h
    obtain ⟨rfl, -⟩ := hwithout.piece_iff.mp hb
    exact (hwithout.contains v).mp hv

theorem exists_piece (hin : a.Inside) (hse : s ≤ e) (hv : a.contains v = true)
    (hout : ¬ (s ≤ v ∧ v < e)) : ∃ b, a.Piece s e b ∧ b.contains v = true := by
  by_cases h : a.Splits s e
  · have hs := inRange_iff.mp h.start
    simp only [contains_iff, stop] at hv hs
    rcases Nat.lt_or_ge v s with hlt | hge
    · refine ⟨_, h.piece_iff.mpr (Or.inl ⟨rfl, ?_⟩), ?_⟩
      · show s - a.start ≠ 0
        omega
      · simp only [contains_iff, stop]
        omega
    · refine ⟨_, h.piece_iff.mpr (Or.inr rfl), ?_⟩
      simp only [contains_iff, stop]
      omega
  · have hwithout := sub_of_not_splits hin hse h
    have hleft := (hwithout.contains v).mpr ⟨hv, hout⟩
    exact ⟨_, hwithout.piece_iff.mpr ⟨rfl, contains_len_ne_zero hleft⟩, hleft⟩

theorem Piece.kept (hin : a.Inside) (hse : s ≤ e) (hb : a.Piece s e b) :
    b.mtype = a.mtype ∧ b.file = a.file ∧ b.len ≠ 0 := by
  by_cases h : a.Splits s e
  · rcases h.piece_iff.mp hb with ⟨rfl, hlen⟩ | rfl
    · exact ⟨rfl, rfl, hlen⟩
    · have he := inRange_iff.mp h.stop
      exact ⟨rfl, rfl, by show a.stop - e ≠ 0; omega⟩
  · have hwithout := sub_of_not_splits hin hse h
    obtain ⟨rfl, hlen⟩ := hwithout.piece_iff.mp hb
    exact ⟨hwithout.mtype, hwithout.file, hlen⟩

theorem Piece.unique (hin : a.Inside) (hse : s ≤ e) {c : MemArea} (hb : a.Piece s e b)
    (hc : a.Piece s e c) (hbv : b.contains v = true) (hcv : c.contains v = true) :
    b = c := by
  by_cases h : a.Splits s e
  · have hs := inRange_iff.mp h.start
    have he := inRange_iff.mp h.stop
    -- the two halves have no address in common
    rcases h.piece_iff.mp hb with ⟨rfl, -⟩ | rfl <;> rcases h.piece_iff.mp hc with ⟨rfl, -⟩ | rfl
    · rfl
    · simp only [contains_iff, stop] at hbv hcv hs he
      omega
    · simp only [contains_iff, stop] at hbv hcv hs he
      omega
    · rfl
  · have hwithout := sub_of_not_splits hin hse h
    rw [← (hwithout.piece_iff.mp hb).1, (hwithout.piece_iff.mp hc).1]

end MemArea

namespace MemSet

open MemArea

variable {m : MemSet} {s e : Nat}

theorem mem_subArea {b : MemArea} :
    b ∈ (m.subArea s e).areas ↔ ∃ a ∈ m.areas, a.Piece s e b := by
  unfold subArea ofResults Piece
  simp only [List.mem_append, List.mem_filter, List.mem_map, List.mem_filterMap, bne_iff_ne]
  constructor
  · rintro (⟨⟨-, ⟨a, ha, rfl⟩, rfl⟩, hlen⟩ | ⟨-, ⟨a, ha, rfl⟩, hsplit⟩)
    · exact ⟨a, ha, Or.inl ⟨rfl, hlen⟩⟩
    · exact ⟨a, ha, Or.inr hsplit⟩
  · rintro ⟨a, ha, ⟨rfl, hlen⟩ | hsplit⟩
    · exact Or.inl ⟨⟨_, ⟨a, ha, rfl⟩, rfl⟩, hlen⟩
    · exact Or.inr ⟨_, ⟨a, ha, rfl⟩, hsplit⟩

/-! ## Unmapping loses no other page -/

/-- The areas are disjoint and hold only trackers of their own pages. -/
structure Separate (m : MemSet) : Prop where
  disjoint : m.areas.Pairwise MemArea.Disjoint
  inside : ∀ a ∈ m.areas, a.Inside

theorem Separate.eq_of_contains (hm : m.Separate) {a b : MemArea} (ha : a ∈ m.areas)
    (hb : b ∈ m.areas) {v : Nat} (hav : a.contains v = true) (hbv : b.contains v = true) :
    a = b := by
  by_contra hne
  exact hm.disjoint.forall ha hb hne v ⟨hav, hbv⟩

/-- `m'` holds every tracker of `m` outside `[s, e)`, in the one area that covers it, and none
inside. -/
structure Keeps (m : MemSet) (s e : Nat) (m' : MemSet) : Prop where
  outside : ∀ a ∈ m.areas, ∀ t ∈ a.mtrackers, ¬ (s ≤ t.vaddr ∧ t.vaddr < e) →
    ∃ b ∈ m'.areas, t ∈ b.mtrackers ∧ b.contains t.vaddr = true
      ∧ ∀ c ∈ m'.areas, c.contains t.vaddr = true → c = b
  inside : ∀ b ∈ m'.areas, ∀ t ∈ b.mtrackers, ¬ (s ≤ t.vaddr ∧ t.vaddr < e)

/-- An area the range splits has no resident page behind the range's start; pages inside the
range do no harm when the range takes the area's front. -/
def SplitsEmpty (m : MemSet) (s e : Nat) : Prop :=
  ∀ a ∈ m.areas, a.Splits s e → ∀ t ∈ a.mtrackers, t.vaddr < e ∧ (a.start = s ∨ t.vaddr < s)

/-- A piece of `a` that still has the tracker `t` is the area the property asks for. -/
theorem Separate.outside_of_piece (hm : m.Separate) (hse : s ≤ e) {a b : MemArea}
    {t : MapTrack} (ha : a ∈ m.areas) (hb : a.Piece s e b) (ht : t ∈ b.mtrackers)
    (hv : b.contains t.vaddr = true) :
    ∃ b ∈ (m.subArea s e).areas, t ∈ b.mtrackers ∧ b.contains t.vaddr = true
      ∧ ∀ c ∈ (m.subArea s e).areas, c.contains t.vaddr = true → c = b := by
  refine ⟨b, mem_subArea.mpr ⟨a, ha, hb⟩, ht, hv, fun c hc hcv => ?_⟩
  obtain ⟨d, hd, hpiece⟩ := mem_subArea.mp hc
  have hda : d = a := hm.eq_of_contains hd ha (hpiece.covers (hm.inside d hd) hse hcv).1
    (hb.covers (hm.inside a ha) hse hv).1
  subst hda
  exact hpiece.unique (hm.inside d hd) hse hb hcv hv

theorem Separate.keeps_of_splitsEmpty (hm : m.Separate) (hse : s ≤ e) (h : m.SplitsEmpty s e) :
    m.Keeps s e (m.subArea s e) := by
  refine ⟨?_, ?_⟩
  · intro a ha t ht hout
    have htin := hm.inside a ha t ht
    by_cases hsplits : a.Splits s e
    · -- the tracker lies before the range: it stays in the first half
      obtain ⟨hlt, hstart⟩ := h a ha hsplits t ht
      rw [contains_iff] at htin
      have hv : ({ a with
          len := s - a.start
          mtrackers := a.mtrackers.filter (fun t => !inRange e a.stop t.vaddr) } :
          MemArea).contains t.vaddr = true := by
        simp only [contains_iff, stop]
        omega
      refine hm.outside_of_piece hse ha
        (hsplits.piece_iff.mpr (Or.inl ⟨rfl, contains_len_ne_zero hv⟩)) ?_ hv
      rw [List.mem_filter, Bool.not_eq_true', ← Bool.not_eq_true, inRange_iff]
      exact ⟨ht, by omega⟩
    · have hwithout := sub_of_not_splits (hm.inside a ha) hse hsplits
      have hv := (hwithout.contains t.vaddr).mpr ⟨htin, hout⟩
      refine hm.outside_of_piece hse ha
        (hwithout.piece_iff.mpr ⟨rfl, contains_len_ne_zero hv⟩) ?_ hv
      rw [hwithout.mtrackers, List.mem_filter, Bool.not_eq_true', ← Bool.not_eq_true, inRange_iff]
      exact ⟨ht, hout⟩
  · intro b hb t ht
    obtain ⟨a, ha, hpiece⟩ := mem_subArea.mp hb
    by_cases hsplits : a.Splits s e
    · rcases hsplits.piece_iff.mp hpiece with ⟨rfl, hlen⟩ | rfl
      · obtain ⟨-, hstart⟩ := h a ha hsplits t (List.mem_filter.mp ht).1
        have hne : s - a.start ≠ 0 := hlen
        omega
      · cases ht
    · have hwithout := sub_of_not_splits (hm.inside a ha) hse hsplits
      obtain ⟨rfl, -⟩ := hwithout.piece_iff.mp hpiece
      rw [hwithout.mtrackers, List.mem_filter, Bool.not_eq_true', ← Bool.not_eq_true,
        inRange_iff] at ht
      exact ht.2

theorem Separate.splitsEmpty_of_keeps (hm : m.Separate) (hse : s < e)
    (h : m.Keeps s e (m.subArea s e)) : m.SplitsEmpty s e := by
  intro a ha hsplits t ht
  have htin := hm.inside a ha t ht
  have hs := inRange_iff.mp hsplits.start
  have hlt : t.vaddr < e := by
    -- otherwise `t` is in neither half of `a`, and no other area covers it
    by_contra hbehind
    obtain ⟨b, hb, htb, hbv, -⟩ := h.outside a ha t ht (by omega)
    obtain ⟨d, hd, hpiece⟩ := mem_subArea.mp hb
    have hda : d = a := hm.eq_of_contains hd ha
      (hpiece.covers (hm.inside d hd) (Nat.le_of_lt hse) hbv).1 htin
    subst hda
    rcases hsplits.piece_iff.mp hpiece with ⟨rfl, -⟩ | rfl
    · have hkept := (List.mem_filter.mp htb).2
      rw [Bool.not_eq_true', ← Bool.not_eq_true, inRange_iff] at hkept
      rw [contains_iff] at htin
      omega
    · cases htb
  refine ⟨hlt, ?_⟩
  -- otherwise the first half is kept, with `t` in it
  by_contra hmiddle
  have hpiece : a.Piece s e { a with
      len := s - a.start
      mtrackers := a.mtrackers.filter (fun t => !inRange e a.stop t.vaddr) } :=
    hsplits.piece_iff.mpr (Or.inl ⟨rfl, by show s - a.start ≠ 0; omega⟩)
  refine h.inside _ (mem_subArea.mpr ⟨a, ha, hpiece⟩) t ?_ (by omega)
  rw [List.mem_filter, Bool.not_eq_true', ← Bool.not_eq_true, inRange_iff]
  exact ⟨ht, by omega⟩

/-- **When unmapping loses no other page.** Taking `[s, e)` out of disjoint areas keeps every
tracker outside the range, in the one area that covers it, and removes every tracker inside,
exactly when an area that the range splits has no resident page from the range's start on. -/
theorem subArea_keeps_iff (hm : m.Separate) (hse : s < e) :
    m.Keeps s e (m.subArea s e) ↔ m.SplitsEmpty s e :=
  ⟨hm.splitsEmpty_of_keeps hse, hm.keeps_of_splitsEmpty (Nat.le_of_lt hse)⟩

/-- Two areas, resident in the first page of each: a range from the second page of the first
area into the second area. -/
theorem subArea_keeps_iff_two_areas :
    MemSet.Keeps ⟨[⟨.mmap, [⟨0x1000, 7, 7⟩], none, 0, 0x1000, 0x2000⟩,
        ⟨.stack, [⟨0x3000, 8, 7⟩], none, 0, 0x3000, 0x2000⟩]⟩ 0x2000 0x4000
      ⟨[⟨.mmap, [⟨0x1000, 7, 7⟩], none, 0, 0x1000, 0x1000⟩,
        ⟨.stack, [], none, 0, 0x4000, 0x1000⟩]⟩ := by
  have hm : Separate ⟨[⟨.mmap, [⟨0x1000, 7, 7⟩], none, 0, 0x1000, 0x2000⟩,
      ⟨.stack, [⟨0x3000, 8, 7⟩], none, 0, 0x3000, 0x2000⟩]⟩ := by
    refine ⟨?_, ?_⟩
    · rw [List.pairwise_pair]
      intro v
      simp only [contains_iff, stop]
      omega
    · simp [MemArea.Inside, contains_iff, stop]
  refine (subArea_keeps_iff (s := 0x2000) (e := 0x4000) hm (by decide)).mpr ?_
  intro a ha hsplits
  have hstop := inRange_iff.mp hsplits.stop
  have hstart := inRange_iff.mp hsplits.start
  simp only [List.mem_cons, List.not_mem_nil, or_false] at ha
  rcases ha with rfl | rfl
  · simp [stop] at hstop
  · simp at hstart

/-- An area of three pages, the last two resident. -/
def threePages : MemSet :=
  ⟨[⟨.mmap, [⟨0x2000, 7, 7⟩, ⟨0x3000, 8, 7⟩], none, 0, 0x1000, 0x3000⟩]⟩

/-- Unmapping the middle page of three loses the last one. -/
theorem subArea_loses_page :
    threePages.Separate ∧ (∀ a ∈ threePages.areas, a.start % pageSize = 0 ∧ a.len % pageSize = 0)
      ∧ ¬ threePages.Keeps 0x2000 0x3000 (threePages.subArea 0x2000 0x3000) := by
  have hm : threePages.Separate :=
    ⟨List.pairwise_singleton _ _, by simp [threePages, MemArea.Inside, contains_iff, stop]⟩
  refine ⟨hm, by decide, fun hkeeps => ?_⟩
  have hempty := hm.splitsEmpty_of_keeps (by decide) hkeeps _ List.mem_cons_self
    ⟨by decide, by decide, by decide⟩ ⟨0x3000, 8, 7⟩ (by decide)
  exact absurd hempty.1 (by decide)

end MemSet

end MonkeyOS
