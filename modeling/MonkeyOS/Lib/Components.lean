import Mathlib.Data.List.DropRight
import Mathlib.Data.List.Infix
import Mathlib.Tactic.Common

/-!
# MonkeyOS — the components of a list between separators

The non-empty pieces of a list between the places where it has `x`, as the names of a path are between
its slashes, and the two rewrites that leave them alone:

* `trim` — separators are taken off both ends;
* `squeeze` — pairs of separators are replaced by one, from left to right and without looking back, so
  that four of them become two.

`components_append_cons` is the rule that all others come from.
-/

namespace MonkeyOS.Lib

variable {α : Type*} [DecidableEq α] (x : α)

def components (l : List α) : List (List α) := (l.splitOn x).filter (· ≠ [])

/-- A separator ends one component and begins another. -/
theorem components_append_cons (a b : List α) :
    components x (a ++ x :: b) = components x a ++ components x b := by
  unfold components
  rw [List.splitOn_append_cons_self, List.filter_append]

@[simp] theorem components_nil : components x [] = [] := by
  unfold components
  rw [List.splitOn_nil]
  rfl

@[simp] theorem components_cons_self (b : List α) : components x (x :: b) = components x b := by
  have h := components_append_cons x [] b
  rwa [components_nil, List.nil_append, List.nil_append] at h

theorem components_of_notMem {a : List α} (h : x ∉ a) (hne : a ≠ []) : components x a = [a] := by
  unfold components
  rw [List.splitOn_eq_singleton h, List.filter_cons_of_pos (by simpa using hne), List.filter_nil]

theorem components_append_replicate (a : List α) (n : Nat) :
    components x (a ++ List.replicate n x) = components x a := by
  induction n with
  | zero => rw [List.replicate_zero, List.append_nil]
  | succ n ih =>
    -- one more separator, and nothing behind it
    rw [List.replicate_succ', ← List.append_assoc, components_append_cons, components_nil,
      List.append_nil, ih]

/-- What the first component of a list is that does not begin with a separator. -/
theorem components_eq_cons {l : List α} (hne : l ≠ []) (hhead : l.head? ≠ some x) :
    ∃ a rest, components x l = a :: rest ∧ (l = a ∨ ∃ b, l = a ++ x :: b) := by
  by_cases hmem : x ∈ l
  · obtain ⟨a, b, rfl, hnot⟩ := List.eq_append_cons_of_mem hmem
    have ha : a ≠ [] := by
      rintro rfl
      exact hhead rfl
    refine ⟨a, components x b, ?_, .inr ⟨b, rfl⟩⟩
    rw [components_append_cons, components_of_notMem x hnot ha]
    rfl
  · exact ⟨l, [], components_of_notMem x hmem hne, .inl rfl⟩

/-! ## Separators at the ends -/

def trimEnd (l : List α) : List α := l.rdropWhile (· == x)

def trim (l : List α) : List α := trimEnd x (l.dropWhile (· == x))

/-- What is taken off the end is all separators. -/
theorem eq_trimEnd_append (l : List α) : ∃ n, l = trimEnd x l ++ List.replicate n x := by
  refine ⟨(l.rtakeWhile (· == x)).length, ?_⟩
  have hall : l.rtakeWhile (· == x) = List.replicate (l.rtakeWhile (· == x)).length x := by
    refine List.eq_replicate_of_mem (fun y hy => ?_)
    exact beq_iff_eq.mp (List.mem_rtakeWhile_imp (p := (· == x)) hy)
  rw [← hall]
  exact List.rdropWhile_append_rtakeWhile.symm

theorem getLast?_trimEnd (l : List α) : (trimEnd x l).getLast? ≠ some x := by
  intro h
  obtain ⟨init, hinit⟩ := List.getLast?_eq_some_iff.mp h
  have hne : trimEnd x l ≠ [] := by
    rw [hinit]
    exact List.concat_ne_nil _ _
  have hlast : (trimEnd x l).getLast hne = x := by
    simp only [hinit, List.getLast_concat]
  exact List.rdropWhile_last_not (· == x) l hne (beq_iff_eq.mpr hlast)

theorem length_trim_le (l : List α) : (trim x l).length ≤ l.length := by
  have hend := (List.rdropWhile_prefix (· == x) (l.dropWhile (· == x))).length_le
  exact Nat.le_trans hend (List.dropWhile_suffix (· == x)).length_le

theorem head?_trim (l : List α) : (trim x l).head? ≠ some x := by
  intro h
  obtain ⟨rest, hrest⟩ := List.head?_eq_some_iff.mp h
  obtain ⟨n, hn⟩ := eq_trimEnd_append x (l.dropWhile (· == x))
  -- what is taken off the end leaves the beginning as it is
  have hhead : (l.dropWhile (· == x)).head? = some x := by
    rw [hn]
    show (trim x l ++ _).head? = some x
    rw [hrest]
    rfl
  have hnot := List.head?_dropWhile_not (· == x) l
  rw [hhead] at hnot
  exact absurd (beq_self_eq_true x) (by rw [hnot]; exact Bool.false_ne_true)

theorem components_dropWhile (l : List α) : components x (l.dropWhile (· == x)) = components x l := by
  induction l with
  | nil => rfl
  | cons a l ih =>
    by_cases ha : a = x
    · subst ha
      rw [List.dropWhile_cons_of_pos (p := (· == a)) (beq_self_eq_true a), components_cons_self, ih]
    · rw [List.dropWhile_cons_of_neg (by simpa using ha)]

theorem components_trim (l : List α) : components x (trim x l) = components x l := by
  obtain ⟨n, hn⟩ := eq_trimEnd_append x (l.dropWhile (· == x))
  calc components x (trim x l)
      = components x (trim x l ++ List.replicate n x) := (components_append_replicate x _ n).symm
    _ = components x (l.dropWhile (· == x)) := by rw [hn]; rfl
    _ = components x l := components_dropWhile x l

/-! ## Pairs of separators -/

def squeeze : List α → List α
  | [] => []
  | [a] => [a]
  | a :: b :: l => if a = x ∧ b = x then x :: squeeze l else a :: squeeze (b :: l)

theorem length_squeeze_le (l : List α) : (squeeze x l).length ≤ l.length := by
  fun_induction squeeze x l with
  | case1 => exact Nat.le_refl _
  | case2 a => exact Nat.le_refl _
  | case3 a b l h ih =>
    simp only [List.length_cons]
    omega
  | case4 a b l h ih =>
    simp only [List.length_cons] at ih ⊢
    omega

/-- Whatever stands in front, the components are the same. -/
theorem components_append_squeeze (a l : List α) :
    components x (a ++ squeeze x l) = components x (a ++ l) := by
  fun_induction squeeze x l generalizing a with
  | case1 => rfl
  | case2 b => rfl
  | case3 b c l h ih =>
    obtain ⟨rfl, rfl⟩ := h
    rw [components_append_cons, components_append_cons, components_cons_self]
    exact congrArg (components _ a ++ ·) (ih [])
  | case4 b c l h ih =>
    have hrest := ih (a ++ [b])
    rwa [List.append_assoc, List.append_assoc] at hrest

/-- A pass that leaves the length alone has found no pair. -/
theorem squeeze_of_length_eq {l : List α} (h : (squeeze x l).length = l.length) :
    squeeze x l = l ∧ ¬ [x, x] <:+: l := by
  fun_induction squeeze x l with
  | case1 => exact ⟨rfl, by simp⟩
  | case2 a => exact ⟨rfl, fun hinfix => by simpa using hinfix.length_le⟩
  | case3 a b l hboth ih =>
    have hle := length_squeeze_le x l
    simp only [List.length_cons] at h
    omega
  | case4 a b l hnot ih =>
    simp only [List.length_cons, Nat.add_right_cancel_iff] at h ih
    obtain ⟨heq, hinfix⟩ := ih h
    refine ⟨by rw [heq], ?_⟩
    rw [List.infix_cons_iff]
    rintro (hpair | hrest)
    · rw [List.cons_prefix_cons, List.cons_prefix_cons] at hpair
      exact hnot ⟨hpair.1.symm, hpair.2.1.symm⟩
    · exact hinfix hrest

end MonkeyOS.Lib
