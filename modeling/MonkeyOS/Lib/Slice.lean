import MonkeyOS.Lib.Bytes

/-!
# Readers that panic

A reader takes slices of a buffer, and panics where one is not inside it: `none` is a panic.

* `slice`, `sliceFrom` — a part of the buffer; `readPod`, a record in it, with its alignment;
* `fieldLE` — a number in a record;
* `Iter` — an iterator that can panic at any item. It is asked for the items one after the other, so a
  search does not see what is behind the item it finds (`Iter.search`);
* `Iter.ofFn` — the items by their index; `search_ofFn`, a search without a result has seen them all.
-/

namespace MonkeyOS.Lib

/-! ## Slices -/

/-- `&input[start..stop]` -/
def slice (input : List UInt8) (start stop : Nat) : Option (List UInt8) :=
  if start ≤ stop ∧ stop ≤ input.length then some ((input.drop start).take (stop - start)) else none

/-- `&input[start..]` -/
def sliceFrom (input : List UInt8) (start : Nat) : Option (List UInt8) :=
  slice input start input.length

/-- A record of `size` bytes at the beginning of a slice. The buffer itself is aligned. -/
def readPod (input : List UInt8) (start stop size align : Nat) : Option (List UInt8) :=
  (slice input start stop).bind (fun bytes =>
    if size ≤ bytes.length ∧ start % align = 0 then some bytes else none)

def fieldLE (record : List UInt8) (offset k : Nat) : Nat :=
  readLE (fun a => record.getD a 0) offset k

theorem fieldLE_zeros (n offset k : Nat) : fieldLE (List.replicate n 0) offset k = 0 := by
  unfold fieldLE
  induction k generalizing offset with
  | zero => rfl
  | succ k ih =>
    have hbyte : (List.replicate n (0 : UInt8)).getD offset 0 = 0 := by
      rw [List.getD_eq_getElem?_getD, List.getElem?_replicate]
      split
      · rfl
      · rfl
    unfold readLE
    rw [ih (offset + 1), hbyte]
    rfl

theorem slice_le {input bytes : List UInt8} {start stop : Nat}
    (h : slice input start stop = some bytes) : stop ≤ input.length := by
  unfold slice at h
  split at h
  · rename_i hbounds
    exact hbounds.2
  · cases h

theorem readPod_le {input bytes : List UInt8} {start stop size align : Nat}
    (h : readPod input start stop size align = some bytes) : stop ≤ input.length := by
  obtain ⟨_, hslice, -⟩ := Option.bind_eq_some_iff.mp h
  exact slice_le hslice

/-! ## Iterators -/

inductive Iter (α : Type*) where
  | done
  | item (a : α) (rest : Iter α)
  | panics

namespace Iter

variable {α : Type*}

/-- The items before the end, or before the panic. -/
def items : Iter α → List α
  | .done => []
  | .item a rest => a :: rest.items
  | .panics => []

/-- The first item that is looked for, where the question can panic as well. -/
def search (p : α → Option Bool) : Iter α → Option (Option α)
  | .done => some none
  | .item a rest =>
    match p a with
    | none => none
    | some true => some (some a)
    | some false => rest.search p
  | .panics => none

/-- The items from `index` on; an item that is an error ends the iteration. -/
def ofFn (f : Nat → Option (Option α)) : (left index : Nat) → Iter α
  | 0, _ => .done
  | left + 1, index =>
    match f index with
    | none => .panics
    | some none => .done
    | some (some a) => .item a (ofFn f left (index + 1))

variable {p : α → Option Bool} {it : Iter α}

/-- Nothing was found among items that are no errors: each of them was read. -/
theorem search_ofFn {f : Nat → Option (Option α)} {left : Nat} :
    ∀ {index : Nat}, (ofFn f left index).search p = some none →
      (∀ i, i < left → f (index + i) ≠ some none) →
      (ofFn f left index).items.length = left ∧ ∀ i, i < left → ∃ a, f (index + i) = some (some a) := by
  induction left with
  | zero =>
    intro index _ _
    exact ⟨rfl, fun i hi => absurd hi (Nat.not_lt_zero i)⟩
  | succ left ih =>
    intro index h hok
    have hfirst := hok 0 (Nat.succ_pos left)
    rw [Nat.add_zero] at hfirst
    unfold ofFn at h ⊢
    cases hf : f index with
    | none =>
      rw [hf] at h
      cases h
    | some r =>
      cases r with
      | none => exact absurd hf hfirst
      | some a =>
        rw [hf] at h
        simp only [search] at h
        split at h
        · cases h
        · cases h
        have hok' : ∀ i, i < left → f (index + 1 + i) ≠ some none := by
          intro i hi
          rw [show index + 1 + i = index + (i + 1) by omega]
          exact hok (i + 1) (Nat.succ_lt_succ hi)
        obtain ⟨hlength, hread⟩ := ih h hok'
        refine ⟨congrArg Nat.succ hlength, fun i hi => ?_⟩
        cases i with
        | zero => exact ⟨a, hf⟩
        | succ i =>
          rw [show index + (i + 1) = index + 1 + i by omega]
          exact hread i (Nat.lt_of_succ_lt_succ hi)

end Iter

end MonkeyOS.Lib
