import Mathlib.Data.List.Basic

/-!
# MonkeyOS — byte ranges over a list of pages

`splice l o s` is `l` with the elements from `o` on overwritten by `s`. Content kept in pages
of one size is the flattened page list; overwriting or reading inside a page is overwriting or
reading the flattened list (`flatten_modify_splice`, `take_drop_page`), and adjacent
overwrites join (`splice_splice`), which is what a page-by-page loop needs.
-/

namespace MonkeyOS.Lib

variable {α : Type*}

def splice (l : List α) (o : Nat) (s : List α) : List α := l.take o ++ s ++ l.drop (o + s.length)

variable {i j o : Nat} {s l : List α}

theorem length_splice (h : o + s.length ≤ l.length) :
    (splice l o s).length = l.length := by
  simp only [splice, List.length_append, List.length_take, List.length_drop]
  omega

@[simp] theorem splice_nil (l : List α) (o : Nat) : splice l o [] = l := by
  simp [splice]

/-- Two overwrites, the second behind the first, are one. -/
theorem splice_splice (s t : List α) (h : o ≤ l.length) :
    splice (splice l o s) (o + s.length) t = splice l o (s ++ t) := by
  have hfront : (l.take o ++ s).length = o + s.length := by
    rw [List.length_append, List.length_take, Nat.min_eq_left h]
  have hback : (l.take o ++ s ++ l.drop (o + s.length)).drop (o + s.length + t.length)
      = l.drop (o + s.length + t.length) := by
    rw [← List.drop_drop, List.drop_left' hfront, List.drop_drop]
  unfold splice
  rw [List.take_left' hfront, hback]
  simp [List.append_assoc, Nat.add_assoc]

/-- Overwriting the front part of `l ++ r`, possibly running into `r`. -/
theorem splice_append (r s : List α) (h : o ≤ l.length) :
    splice (l ++ r) o s = splice l o s ++ r.drop (o + s.length - l.length) := by
  unfold splice
  rw [List.take_append_of_le_length h, List.drop_append]
  simp [List.append_assoc]

theorem splice_append_right (l r s : List α) (o : Nat) :
    splice (l ++ r) (l.length + o) s = l ++ splice r o s := by
  unfold splice
  rw [Nat.add_assoc, List.take_length_add_append, List.drop_length_add_append]
  simp [List.append_assoc]

theorem getElem?_splice_inside (ho : o ≤ l.length) (hi : i < s.length) :
    (splice l o s)[o + i]? = s[i]? := by
  have hfront : (l.take o).length = o := by rw [List.length_take, Nat.min_eq_left ho]
  unfold splice
  rw [List.append_assoc, List.getElem?_append_right (by omega), hfront, Nat.add_sub_cancel_left,
    List.getElem?_append_left hi]

theorem getElem?_splice_outside (h : o + s.length ≤ l.length)
    (hi : i < o ∨ o + s.length ≤ i) : (splice l o s)[i]? = l[i]? := by
  have hfront : (l.take o).length = o := by
    rw [List.length_take]
    omega
  have hboth : (l.take o ++ s).length = o + s.length := by rw [List.length_append, hfront]
  unfold splice
  rcases hi with hi | hi
  · rw [List.append_assoc, List.getElem?_append_left (by omega), List.getElem?_take_of_lt hi]
  · rw [List.getElem?_append_right (by omega), hboth, List.getElem?_drop, Nat.add_sub_cancel' hi]

/-! ## Pages of one size -/

variable {P : Nat} {pages : List (List α)}

theorem length_flatten_pages (hP : ∀ p ∈ pages, p.length = P) :
    pages.flatten.length = pages.length * P := by
  induction pages with
  | nil => simp
  | cons p rest ih =>
    rw [List.flatten_cons, List.length_append, hP p List.mem_cons_self,
      ih (fun q hq => hP q (List.mem_cons_of_mem _ hq)), List.length_cons, Nat.succ_mul,
      Nat.add_comm]

/-- An overwrite inside page `i` is an overwrite of the content. -/
theorem flatten_modify_splice (hP : ∀ p ∈ pages, p.length = P) (hi : i < pages.length)
    (hj : j + s.length ≤ P) :
    (pages.modify i (fun p => splice p j s)).flatten = splice pages.flatten (i * P + j) s := by
  induction pages generalizing i with
  | nil => cases hi
  | cons p rest ih =>
    have hp := hP p List.mem_cons_self
    cases i with
    | zero =>
      rw [List.modify_zero_cons, List.flatten_cons, List.flatten_cons, Nat.zero_mul, Nat.zero_add,
        splice_append _ _ (by omega), hp, Nat.sub_eq_zero_of_le hj, List.drop_zero]
    | succ i =>
      have hrest := ih (fun q hq => hP q (List.mem_cons_of_mem _ hq)) (Nat.lt_of_succ_lt_succ hi)
      rw [List.modify_succ_cons, List.flatten_cons, List.flatten_cons, hrest,
        ← splice_append_right, hp, Nat.succ_mul]
      congr 1
      omega

/-- What is read inside page `i` is read from the content. -/
theorem take_drop_page (hP : ∀ p ∈ pages, p.length = P) {n : Nat} {p : List α}
    (hi : pages[i]? = some p) (hj : j + n ≤ P) :
    (p.drop j).take n = (pages.flatten.drop (i * P + j)).take n := by
  induction pages generalizing i with
  | nil => cases hi
  | cons q rest ih =>
    have hq := hP q List.mem_cons_self
    cases i with
    | zero =>
      cases hi
      rw [List.flatten_cons, Nat.zero_mul, Nat.zero_add, List.drop_append_of_le_length (by omega),
        List.take_append_of_le_length (by rw [List.length_drop]; omega)]
    | succ i =>
      rw [ih (fun r hr => hP r (List.mem_cons_of_mem _ hr)) hi, List.flatten_cons,
        show (i + 1) * P + j = q.length + (i * P + j) from by rw [hq, Nat.succ_mul]; omega,
        List.drop_length_add_append]

end MonkeyOS.Lib
