import Mathlib.Data.List.Basic
import Mathlib.Data.List.MinMax

/-!
# MonkeyOS — the first element that meets a test

`updateFirst p f l` is the loop `for x in &mut l { if p(x) { f(x); break } }`: the list with its
first `p` changed by `f`, and `none` when there is no such element. One equation describes
it (`updateFirst_eq_some`): everything around that element is untouched. What a search finds
afterwards is `find?_updateFirst_self` and `find?_updateFirst_of_ne`. What stands in front of the
first occurrence of an element is determined by the list (`append_cons_left_unique`).

`FirstAt p l i a` is what a search by position finds: `a` stands at place `i`, meets `p`, and nothing in
front of it does. `position` finds the first match (`firstAt_of_findIdx?`), and `min_by_key` over
the numbered matches the first of the least (`firstAt_of_argmin`).
-/

namespace MonkeyOS.Lib

variable {α : Type*} {p : α → Bool} {f : α → α} {l l' : List α} {a : α}

def updateFirst (p : α → Bool) (f : α → α) : List α → Option (List α)
  | [] => none
  | a :: l => if p a then some (f a :: l) else (updateFirst p f l).map (a :: ·)

theorem updateFirst_eq_some (h : updateFirst p f l = some l') :
    ∃ pre a post, l = pre ++ a :: post ∧ p a = true ∧ l.find? p = some a
      ∧ l' = pre ++ f a :: post := by
  induction l generalizing l' with
  | nil => cases h
  | cons b l ih =>
    unfold updateFirst at h
    split at h
    · rename_i hb
      cases h
      exact ⟨[], b, l, rfl, hb, by simp [hb], rfl⟩
    · rename_i hb
      obtain ⟨rest, hrest, rfl⟩ := Option.map_eq_some_iff.mp h
      obtain ⟨pre, a, post, rfl, ha, hfind, rfl⟩ := ih hrest
      exact ⟨b :: pre, a, post, rfl, ha, by rw [List.find?_cons_of_neg hb, hfind], rfl⟩

theorem updateFirst_ne_none (ha : a ∈ l) (hp : p a = true) : updateFirst p f l ≠ none := by
  induction l with
  | nil => cases ha
  | cons b l ih =>
    unfold updateFirst
    split
    · simp
    rename_i hb
    rcases List.mem_cons.mp ha with rfl | ha
    · exact absurd hp hb
    · simpa using ih ha

/-- The element `find?` finds is the one that is changed. -/
theorem updateFirst_of_find? (h : l.find? p = some a) :
    ∃ pre post, l = pre ++ a :: post ∧ p a = true
      ∧ updateFirst p f l = some (pre ++ f a :: post) := by
  cases hup : updateFirst p f l with
  | none =>
    exact absurd hup (updateFirst_ne_none (List.mem_of_find?_eq_some h) (List.find?_some h))
  | some l' =>
    obtain ⟨pre, b, post, hl, hb, hfind, rfl⟩ := updateFirst_eq_some hup
    rw [h] at hfind
    cases hfind
    exact ⟨pre, post, hl, hb, rfl⟩

/-- A search that neither sees the changed element before nor after finds what it found. -/
theorem find?_updateFirst_of_ne {q : α → Bool} (hq : ∀ a, p a = true → q a = false ∧ q (f a) = false)
    (h : updateFirst p f l = some l') : l'.find? q = l.find? q := by
  induction l generalizing l' with
  | nil => cases h
  | cons b l ih =>
    unfold updateFirst at h
    split at h
    · rename_i hb
      cases h
      rw [List.find?_cons_of_neg (by rw [(hq b hb).2]; exact Bool.false_ne_true),
        List.find?_cons_of_neg (by rw [(hq b hb).1]; exact Bool.false_ne_true)]
    · obtain ⟨rest, hrest, rfl⟩ := Option.map_eq_some_iff.mp h
      rw [List.find?_cons, List.find?_cons, ih hrest]

/-- The same search finds the changed element, if the change keeps the test. -/
theorem find?_updateFirst_self (hpf : ∀ a, p a = true → p (f a) = true)
    (h : updateFirst p f l = some l') : l'.find? p = (l.find? p).map f := by
  induction l generalizing l' with
  | nil => cases h
  | cons b l ih =>
    unfold updateFirst at h
    split at h
    · rename_i hb
      cases h
      rw [List.find?_cons_of_pos (hpf b hb), List.find?_cons_of_pos hb]
      rfl
    · rename_i hb
      obtain ⟨rest, hrest, rfl⟩ := Option.map_eq_some_iff.mp h
      rw [List.find?_cons_of_neg hb, List.find?_cons_of_neg hb, ih hrest]

theorem append_cons_left_unique {r r' : List α} (h : a ∉ l) (h' : a ∉ l')
    (heq : l ++ a :: r = l' ++ a :: r') : l = l' := by
  rcases List.append_eq_append_iff.mp heq with ⟨d, rfl, hd⟩ | ⟨d, rfl, hd⟩
  · cases d with
    | nil => exact (List.append_nil l).symm
    | cons b d =>
      cases hd
      exact absurd (by simp) h'
  · cases d with
    | nil => exact List.append_nil l'
    | cons b d =>
      cases hd
      exact absurd (by simp) h

/-! ## Searching by position -/

/-- `a` stands at place `i` and is the first element that meets `p`. -/
def FirstAt (p : α → Prop) (l : List α) (i : Nat) (a : α) : Prop :=
  ∃ pre post, l = pre ++ a :: post ∧ pre.length = i ∧ p a ∧ ∀ b ∈ pre, ¬ p b

theorem firstAt_of_getElem {p : α → Prop} {i : Nat} (hi : l[i]? = some a) (ha : p a)
    (hfront : ∀ j b, j < i → l[j]? = some b → ¬ p b) : FirstAt p l i a := by
  obtain ⟨hlt, hget⟩ := List.getElem?_eq_some_iff.mp hi
  refine ⟨l.take i, l.drop (i + 1), ?_, List.length_take_of_le (Nat.le_of_lt hlt), ha, ?_⟩
  · rw [← hget, List.getElem_cons_drop, List.take_append_drop]
  intro b hb
  obtain ⟨j, hj⟩ := List.mem_iff_getElem?.mp hb
  rw [List.getElem?_take] at hj
  split at hj
  · exact hfront j b ‹_› hj
  · cases hj

theorem firstAt_of_findIdx? {i : Nat} (h : l.findIdx? p = some i) :
    ∃ a, FirstAt (fun b => p b = true) l i a := by
  obtain ⟨hlt, ha, hfront⟩ := List.findIdx?_eq_some_iff_getElem.mp h
  refine ⟨l[i], firstAt_of_getElem (List.getElem?_eq_getElem hlt) ha ?_⟩
  intro j b hj hb
  obtain ⟨hjlt, rfl⟩ := List.getElem?_eq_some_iff.mp hb
  exact hfront j hj

/-- The numbers that `enumerate` gives grow. -/
theorem pairwise_zipIdx (l : List α) : l.zipIdx.Pairwise (fun x y => x.2 < y.2) := by
  have hrange : (l.zipIdx.map Prod.snd).Pairwise (· < ·) := by
    rw [List.zipIdx_map_snd]
    exact List.pairwise_lt_range'
  exact List.pairwise_map.mp hrange

/-- What stands in front of the least by a key has a greater key. -/
theorem argmin_split {κ : Type*} [LinearOrder κ] {key : α → κ} (h : l.argmin key = some a) :
    ∃ pre post, l = pre ++ a :: post ∧ ∀ b ∈ pre, key a < key b := by
  classical
  obtain ⟨pre, post, hl, hpre⟩ :=
    List.eq_append_cons_of_mem (List.argmin_mem (Option.mem_def.mpr h))
  refine ⟨pre, post, hl, fun b hb => lt_of_not_ge fun hle => ?_⟩
  have hidx := List.index_of_argmin (Option.mem_def.mpr h) (by rw [hl]; simp [hb]) hle
  rw [hl, List.idxOf_append_of_notMem hpre, List.idxOf_append_of_mem hb, List.idxOf_cons_self] at hidx
  have := List.idxOf_lt_length_of_mem hb
  omega

/-- The least by a key among the numbered elements that meet `q`: no element that meets `q` has a
smaller key, and it is the first with its key. -/
theorem firstAt_of_argmin {κ : Type*} [LinearOrder κ] (key : α → κ) (q : α → Bool) {i : Nat}
    (h : (l.zipIdx.filter (fun x => q x.1)).argmin (fun x => key x.1) = some (a, i)) :
    FirstAt (fun b => q b = true ∧ ∀ c ∈ l, q c = true → key b ≤ key c) l i a := by
  have hmem : ∀ j b, l[j]? = some b → q b = true →
      (b, j) ∈ l.zipIdx.filter (fun x => q x.1) := by
    intro j b hb hq
    rw [List.mem_filter, List.mem_zipIdx_iff_getElem?]
    exact ⟨hb, hq⟩
  have hin := List.argmin_mem (Option.mem_def.mpr h)
  rw [List.mem_filter, List.mem_zipIdx_iff_getElem?] at hin
  have hleast : ∀ c ∈ l, q c = true → key a ≤ key c := by
    intro c hc hq
    obtain ⟨j, hj⟩ := List.mem_iff_getElem?.mp hc
    exact List.le_of_mem_argmin (f := fun x : α × Nat => key x.1) (hmem j c hj hq)
      (Option.mem_def.mpr h)
  refine firstAt_of_getElem hin.1 ⟨hin.2, hleast⟩ ?_
  rintro j b hj hb ⟨hq, hb_least⟩
  -- an earlier one would stand in front of `a` in the numbered list, with a greater key
  obtain ⟨pre, post, hsplit, hfront⟩ := argmin_split h
  have hsorted := (pairwise_zipIdx l).filter (fun x => q x.1)
  have hbin := hmem j b hb hq
  rw [hsplit] at hsorted hbin
  have hpost := (List.pairwise_cons.mp (List.pairwise_append.mp hsorted).2.1).1
  rcases List.mem_append.mp hbin with hbpre | hbpost
  · exact absurd (hb_least a (List.mem_of_getElem? hin.1) hin.2) (not_le_of_gt (hfront _ hbpre))
  · rcases List.mem_cons.mp hbpost with heq | hbpost
    · cases heq
      exact absurd hj (Nat.lt_irrefl _)
    · exact absurd (hpost _ hbpost) (Nat.lt_asymm hj)

end MonkeyOS.Lib
