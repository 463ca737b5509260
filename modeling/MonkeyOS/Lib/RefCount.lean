import Mathlib.Algebra.GroupWithZero.Nat
import Mathlib.Data.List.Basic

/-!
# MonkeyOS — reference counts over a family of holders

`refCount key holders k` counts, over all lists of `holders`, the items whose key is `k`: what a
reference-counted pointer counts when every item is a clone of it.

* `refCount_set`, `refCount_concat` — the count after one holder changed, or one more is there;
* `refCount_pos` — an item is counted;
* `refCount_unique` — a count of one leaves room for one item of one holder.
-/

namespace MonkeyOS.Lib

variable {τ κ : Type*} [BEq κ] {key : τ → κ} {holders : List (List τ)} {k : κ}

def refCount (key : τ → κ) (holders : List (List τ)) (k : κ) : Nat :=
  (holders.map (List.countP (fun t => key t == k))).sum

theorem refCount_cons (l : List τ) :
    refCount key (l :: holders) k = l.countP (fun t => key t == k) + refCount key holders k := by
  unfold refCount
  rw [List.map_cons, List.sum_cons]

theorem refCount_concat (l : List τ) :
    refCount key (holders ++ [l]) k
      = refCount key holders k + l.countP (fun t => key t == k) := by
  unfold refCount
  rw [List.map_append, List.sum_append, List.map_singleton, List.sum_singleton]

theorem refCount_set (key : τ → κ) (k : κ) {i : Nat} {l : List τ} (h : holders[i]? = some l)
    (l' : List τ) :
    refCount key (holders.set i l') k + l.countP (fun t => key t == k)
      = refCount key holders k + l'.countP (fun t => key t == k) := by
  induction holders generalizing i with
  | nil => cases h
  | cons x holders ih =>
    cases i with
    | zero =>
      cases h
      rw [List.set_cons_zero, refCount_cons, refCount_cons]
      omega
    | succ i =>
      have hrest := ih h
      rw [List.set_cons_succ, refCount_cons, refCount_cons]
      omega

/-- One holder's share of the count. -/
theorem countP_le_refCount {i : Nat} {l : List τ} (h : holders[i]? = some l) :
    l.countP (fun t => key t == k) ≤ refCount key holders k := by
  have hset := refCount_set key k h []
  rw [List.countP_nil] at hset
  omega

section Lawful

variable [LawfulBEq κ]

theorem refCount_pos (key : τ → κ) {i : Nat} {l : List τ} {t : τ} (h : holders[i]? = some l)
    (ht : t ∈ l) :
    0 < refCount key holders (key t) :=
  Nat.lt_of_lt_of_le (List.countP_pos_iff.mpr ⟨t, ht, beq_self_eq_true (key t)⟩) (countP_le_refCount h)

/-- Two items of one list that meet a test that counts one at most are the same. -/
theorem eq_of_countP_le_one {p : τ → Bool} {l : List τ} {t u : τ} (hcount : l.countP p ≤ 1)
    (ht : t ∈ l) (hpt : p t = true) (hu : u ∈ l) (hpu : p u = true) : t = u := by
  rw [List.countP_eq_length_filter] at hcount
  have htf : t ∈ l.filter p := List.mem_filter.mpr ⟨ht, hpt⟩
  have huf : u ∈ l.filter p := List.mem_filter.mpr ⟨hu, hpu⟩
  match hl : l.filter p with
  | [] =>
    rw [hl] at htf
    cases htf
  | [v] =>
    rw [hl] at htf huf
    rw [List.mem_singleton.mp htf, List.mem_singleton.mp huf]
  | _ :: _ :: _ =>
    rw [hl] at hcount
    simp at hcount

theorem refCount_unique {i j : Nat} {l m : List τ} {t u : τ} (hi : holders[i]? = some l)
    (ht : t ∈ l) (hj : holders[j]? = some m) (hu : u ∈ m) (hkey : key u = key t)
    (hcount : refCount key holders (key t) ≤ 1) : i = j ∧ t = u := by
  by_cases hij : i = j
  · subst hij
    rw [hi] at hj
    cases hj
    refine ⟨rfl, eq_of_countP_le_one (Nat.le_trans (countP_le_refCount hi) hcount) ht
      (beq_self_eq_true (key t)) hu ?_⟩
    rw [hkey]
    exact beq_self_eq_true (key t)
  · -- without the first holder the second one's item is still counted
    exfalso
    have hset := refCount_set key (key t) hi []
    have hfirst : 0 < l.countP (fun v => key v == key t) :=
      List.countP_pos_iff.mpr ⟨t, ht, beq_self_eq_true (key t)⟩
    have hj' : (holders.set i [])[j]? = some m := by
      rw [List.getElem?_set_ne hij]
      exact hj
    have hsecond := refCount_pos key hj' hu
    rw [hkey] at hsecond
    rw [List.countP_nil] at hset
    omega

end Lawful

end MonkeyOS.Lib
