import Mathlib.Data.List.Sort

/-!
# MonkeyOS — half-open ranges

A range `[start, stop)` is the pair `(start, stop)`. Disjointness of non-empty ranges is
`Apart`; ranges that are pairwise apart, once sorted by their start, follow each other
(`ordered_insertionSort`), which is what a first-fit gap search walks over.

As sets of addresses, ranges that may be empty *exclude* each other when no address is in both.
`Within` and `Carved` say what is left of a list of ranges after some of it, or all of a hole, was
taken out; `Within.append` and `Carved.append_iff` are the two ways such a list meets another one.
-/

namespace MonkeyOS.Lib

/-- One of the two ranges ends before the other starts. -/
def Apart (a b : Nat × Nat) : Prop := a.2 ≤ b.1 ∨ b.2 ≤ a.1

instance : DecidableRel Apart := fun a b => inferInstanceAs (Decidable (a.2 ≤ b.1 ∨ b.2 ≤ a.1))

theorem Apart.symm {a b : Nat × Nat} (h : Apart a b) : Apart b a := Or.symm h

/-- The order of `sort_by_key(|(start, _)| *start)`. -/
def ByStart (a b : Nat × Nat) : Prop := a.1 ≤ b.1

instance : DecidableRel ByStart := fun a b => inferInstanceAs (Decidable (a.1 ≤ b.1))

instance : Std.Total ByStart := ⟨fun a b => Nat.le_total a.1 b.1⟩

instance : IsTrans (Nat × Nat) ByStart := ⟨fun _ _ _ => Nat.le_trans⟩

/-- Sorted by start, each of the non-empty ranges ends before the next one starts. -/
theorem ordered_insertionSort {rs : List (Nat × Nat)} (hapart : rs.Pairwise Apart)
    (hne : ∀ r ∈ rs, r.1 < r.2) : (rs.insertionSort ByStart).Pairwise (fun a b => a.2 ≤ b.1) := by
  have hperm := List.perm_insertionSort ByStart rs
  have hsorted := List.pairwise_insertionSort ByStart rs
  have hboth := hsorted.and (hperm.symm.pairwise hapart Apart.symm)
  refine hboth.imp_of_mem ?_
  rintro a b - hb ⟨hle, hab | hba⟩
  · exact hab
  · -- `b` starts no earlier than `a`, so it cannot end before `a` starts
    have hlt := hne b (hperm.mem_iff.mp hb)
    unfold ByStart at hle
    omega

/-! ## Ranges as sets of addresses -/

def RangeMem (r : Nat × Nat) (v : Nat) : Prop := r.1 ≤ v ∧ v < r.2

def Excludes (a b : Nat × Nat) : Prop := ∀ v, RangeMem a v → ¬ RangeMem b v

/-- Ranges that are not empty exclude each other when they are apart, and only then. -/
theorem excludes_iff_apart {a b : Nat × Nat} (ha : a.1 < a.2) (hb : b.1 < b.2) :
    Excludes a b ↔ Apart a b := by
  unfold Excludes RangeMem Apart
  constructor
  · intro h
    by_contra hmeet
    -- the later of the two starts is in both
    exact h (max a.1 b.1) (by omega) (by omega)
  · intro h v hav hbv
    omega

variable {rs rs' rs'' gs : List (Nat × Nat)} {hole : Nat × Nat}

/-- The ranges `rs'` exclude each other, and cover nothing that `rs` does not. -/
structure Within (rs rs' : List (Nat × Nat)) : Prop where
  pairwise : rs'.Pairwise Excludes
  covers : ∀ r' ∈ rs', ∀ v, RangeMem r' v → ∃ r ∈ rs, RangeMem r v

/-- And they cover nothing of the hole. -/
structure Carved (hole : Nat × Nat) (rs rs' : List (Nat × Nat)) : Prop extends Within rs rs' where
  outside : ∀ r' ∈ rs', Excludes r' hole

theorem Within.refl (h : rs.Pairwise Excludes) : Within rs rs :=
  ⟨h, fun r hr _ hv => ⟨r, hr, hv⟩⟩

theorem Carved.refl (h : rs.Pairwise Excludes) (hout : ∀ r ∈ rs, Excludes r hole) :
    Carved hole rs rs :=
  ⟨.refl h, hout⟩

theorem Within.excludes (h : Within rs rs') {g : Nat × Nat} (hg : ∀ r ∈ rs, Excludes r g) :
    ∀ r' ∈ rs', Excludes r' g := by
  intro r' hr' v hv
  obtain ⟨r, hr, hrv⟩ := h.covers r' hr' v hv
  exact hg r hr v hrv

/-- A hole filled and carved out again. -/
theorem Carved.trans_fill (h : Carved hole rs rs') (h' : Carved hole (rs' ++ [hole]) rs'') :
    Carved hole rs rs'' := by
  refine ⟨⟨h'.pairwise, fun r'' hr'' v hv => ?_⟩, h'.outside⟩
  obtain ⟨r', hr', hr'v⟩ := h'.covers r'' hr'' v hv
  rcases List.mem_append.mp hr' with hold | hnew
  · exact h.covers r' hold v hr'v
  · rw [List.mem_singleton.mp hnew] at hr'v
    exact absurd hr'v (h'.outside r'' hr'' v hv)

/-- What lies within excludes what the whole excluded. -/
theorem Within.append (h : Within rs rs') (hall : (rs ++ gs).Pairwise Excludes) :
    (rs' ++ gs).Pairwise Excludes := by
  obtain ⟨-, hgs, hbetween⟩ := List.pairwise_append.mp hall
  apply List.pairwise_append.mpr
  exact ⟨h.pairwise, hgs,
    fun r' hr' g hg => h.excludes (fun r hr => hbetween r hr g hg) r' hr'⟩

theorem pairwise_concat_iff {r : Nat × Nat} (h : rs.Pairwise Excludes) :
    (rs ++ [r]).Pairwise Excludes ↔ ∀ a ∈ rs, Excludes a r := by
  rw [List.pairwise_append]
  constructor
  · intro hall a ha
    exact hall.2.2 a ha r List.mem_cons_self
  · intro hout
    refine ⟨h, List.pairwise_singleton _ _, fun a ha b hb => ?_⟩
    rw [List.mem_singleton.mp hb]
    exact hout a ha

/-- The hole, filled again, excludes the others exactly if it did before. -/
theorem Carved.append_iff (h : Carved hole rs rs') (hall : (rs ++ gs).Pairwise Excludes) :
    ((rs' ++ [hole]) ++ gs).Pairwise Excludes ↔ ∀ g ∈ gs, Excludes hole g := by
  have hrest := List.pairwise_append.mp (h.toWithin.append hall)
  rw [List.pairwise_append]
  constructor
  · intro hfilled g hg
    exact hfilled.2.2 hole List.mem_append_cons_self g hg
  · intro hhole
    refine ⟨(pairwise_concat_iff h.pairwise).mpr h.outside, hrest.2.1, fun r hr g hg => ?_⟩
    rcases List.mem_append.mp hr with hold | hnew
    · exact hrest.2.2 r hold g hg
    · rw [List.mem_singleton.mp hnew]
      exact hhole g hg

end MonkeyOS.Lib
