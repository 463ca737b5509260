import Mathlib.Data.Finset.Card
import Mathlib.Data.Finset.Range
import Mathlib.Algebra.BigOperators.Group.List.Basic
import Mathlib.Algebra.GroupWithZero.Nat

/-!
# MonkeyOS — arrays of machine words read as arrays of bits

`BitField`/`BitArray` address bit `i` of a slice of `w`-bit words as bit `i % w` of word
`i / w`. This module fixes that reading for any width `w` and proves the two facts an
allocator bitmap needs:

* `getBit_setBit` — a write changes exactly one bit;
* `card_clearBits_setBit_true` / `card_clearBits_setBit_false` — and moves the number of
  clear bits by exactly one when it flips the bit.

`card_clearBits_eq_sum` connects the index-level count with the word-by-word count the
code performs.
-/

namespace MonkeyOS.Lib

variable {w : Nat}

/-! ## One word -/

/-- `BitField::set_bit` on one word: or in, or mask out, the shifted one. -/
def wordSetBit (x : BitVec w) (i : Nat) (b : Bool) : BitVec w :=
  if b then x ||| (1#w <<< i) else x &&& ~~~(1#w <<< i)

variable {j i : Nat} {ws : List (BitVec w)} {idxs : List Nat}

theorem getLsbD_one_shiftLeft (hj : j < w) :
    (1#w <<< i).getLsbD j = decide (j = i) := by
  rw [BitVec.getLsbD_shiftLeft, BitVec.getLsbD_one]
  by_cases hji : j = i
  · subst hji
    simp [hj]
    omega
  · simp [hji, hj]
    omega

theorem getLsbD_wordSetBit (x : BitVec w) (b : Bool) (hj : j < w) :
    (wordSetBit x i b).getLsbD j = if j = i then b else x.getLsbD j := by
  unfold wordSetBit
  cases b with
  | true =>
    simp only [if_true, BitVec.getLsbD_or, getLsbD_one_shiftLeft hj]
    by_cases hji : j = i <;> simp [hji]
  | false =>
    simp only [Bool.false_eq_true, if_false, BitVec.getLsbD_and, BitVec.getLsbD_not,
      getLsbD_one_shiftLeft hj]
    by_cases hji : j = i <;> simp [hji, hj]

/-! ## The array -/

/-- `BitArray::get_bit`: bit `i % w` of word `i / w`. -/
def getBit (ws : List (BitVec w)) (i : Nat) : Bool :=
  (ws.getD (i / w) 0#w).getLsbD (i % w)

/-- `BitArray::set_bit`: the same word, rewritten in place. -/
def setBit (ws : List (BitVec w)) (i : Nat) (b : Bool) : List (BitVec w) :=
  ws.modify (i / w) (fun x => wordSetBit x (i % w) b)

@[simp] theorem length_setBit (ws : List (BitVec w)) (i : Nat) (b : Bool) :
    (setBit ws i b).length = ws.length := by
  simp [setBit]

/-- Two positions with the same word and the same offset are the same position. -/
theorem eq_of_div_eq_of_mod_eq (hdiv : i / w = j / w) (hmod : i % w = j % w) :
    i = j := by
  rw [← Nat.div_add_mod i w, ← Nat.div_add_mod j w, hdiv, hmod]

/-- **A write changes exactly one bit.** -/
theorem getBit_setBit (ws : List (BitVec w)) (b : Bool) (hi : i < w * ws.length) :
    getBit (setBit ws i b) j = if j = i then b else getBit ws j := by
  have hw : 0 < w := Nat.pos_of_mul_pos_right (Nat.lt_of_le_of_lt (Nat.zero_le _) hi)
  have hidx : i / w < ws.length := Nat.div_lt_of_lt_mul hi
  unfold getBit setBit
  rw [List.getD_eq_getElem?_getD, List.getD_eq_getElem?_getD, List.getElem?_modify]
  by_cases hdiv : i / w = j / w
  · -- the word that was rewritten: only the offset decides
    simp only [if_pos hdiv]
    rw [← hdiv, List.getElem?_eq_getElem hidx, Option.map_eq_map, Option.map_some,
      Option.getD_some, Option.getD_some, getLsbD_wordSetBit _ _ (Nat.mod_lt _ hw)]
    by_cases hmod : j % w = i % w
    · rw [if_pos hmod, if_pos (eq_of_div_eq_of_mod_eq hdiv.symm hmod)]
    · rw [if_neg hmod, if_neg (fun h : j = i => hmod (h ▸ rfl))]
  · have hji : j ≠ i := fun h => hdiv (h ▸ rfl)
    simp [if_neg hdiv, hji]

/-! ## Counting clear bits -/

/-- The positions whose bit is clear. -/
def clearBits (ws : List (BitVec w)) : Finset Nat :=
  (Finset.range (w * ws.length)).filter (fun i => getBit ws i = false)

theorem mem_clearBits :
    i ∈ clearBits ws ↔ i < w * ws.length ∧ getBit ws i = false := by
  simp [clearBits]

/-- Setting a clear bit takes exactly its position out of the clear ones. -/
theorem clearBits_setBit_true (ws : List (BitVec w)) (hi : i < w * ws.length) :
    clearBits (setBit ws i true) = (clearBits ws).erase i := by
  ext j
  rw [Finset.mem_erase, mem_clearBits, mem_clearBits, length_setBit, getBit_setBit ws true hi]
  by_cases hji : j = i <;> simp [hji]

/-- Clearing a bit puts exactly its position among the clear ones. -/
theorem clearBits_setBit_false (ws : List (BitVec w)) (hi : i < w * ws.length) :
    clearBits (setBit ws i false) = insert i (clearBits ws) := by
  ext j
  rw [Finset.mem_insert, mem_clearBits, mem_clearBits, length_setBit, getBit_setBit ws false hi]
  by_cases hji : j = i
  · subst hji
    simp [hi]
  · simp [hji]

theorem card_clearBits_setBit_true (ws : List (BitVec w)) (hi : i < w * ws.length)
    (hclear : getBit ws i = false) :
    (clearBits (setBit ws i true)).card + 1 = (clearBits ws).card := by
  rw [clearBits_setBit_true ws hi]
  exact Finset.card_erase_add_one (mem_clearBits.mpr ⟨hi, hclear⟩)

theorem card_clearBits_setBit_false (ws : List (BitVec w)) (hi : i < w * ws.length)
    (hset : getBit ws i = true) :
    (clearBits (setBit ws i false)).card = (clearBits ws).card + 1 := by
  rw [clearBits_setBit_false ws hi]
  refine Finset.card_insert_of_notMem ?_
  rw [mem_clearBits, hset]
  simp

/-! ## Setting a list of positions -/

/-- `set_bit(i, true)` for each position of a list, in order. -/
def setBits (ws : List (BitVec w)) (idxs : List Nat) : List (BitVec w) :=
  idxs.foldl (fun acc i => setBit acc i true) ws

@[simp] theorem length_setBits (ws : List (BitVec w)) (idxs : List Nat) :
    (setBits ws idxs).length = ws.length := by
  induction idxs generalizing ws with
  | nil => rfl
  | cons i idxs ih =>
    show (setBits (setBit ws i true) idxs).length = ws.length
    rw [ih, length_setBit]

theorem getBit_setBits (hidx : ∀ i ∈ idxs, i < w * ws.length) (j : Nat) :
    getBit (setBits ws idxs) j = (decide (j ∈ idxs) || getBit ws j) := by
  induction idxs generalizing ws with
  | nil => simp [setBits]
  | cons i idxs ih =>
    show getBit (setBits (setBit ws i true) idxs) j = _
    have hi : i < w * ws.length := hidx i (by simp)
    rw [ih (fun k hk => by simpa using hidx k (by simp [hk])), getBit_setBit ws true hi]
    by_cases hji : j = i <;> simp [hji]

/-- Setting distinct clear positions uses up exactly that many clear bits. -/
theorem card_clearBits_setBits (hnodup : idxs.Nodup)
    (hidx : ∀ i ∈ idxs, i < w * ws.length ∧ getBit ws i = false) :
    (clearBits (setBits ws idxs)).card + idxs.length = (clearBits ws).card := by
  induction idxs generalizing ws with
  | nil => simp [setBits]
  | cons i idxs ih =>
    show (clearBits (setBits (setBit ws i true) idxs)).card + (idxs.length + 1) = _
    obtain ⟨hi, hclear⟩ := hidx i (by simp)
    obtain ⟨hnotin, hnodup'⟩ := List.nodup_cons.mp hnodup
    have hrest : ∀ k ∈ idxs,
        k < w * (setBit ws i true).length ∧ getBit (setBit ws i true) k = false := by
      intro k hk
      obtain ⟨hk1, hk2⟩ := hidx k (by simp [hk])
      have hki : k ≠ i := fun h => hnotin (h ▸ hk)
      rw [length_setBit, getBit_setBit ws true hi, if_neg hki]
      exact ⟨hk1, hk2⟩
    have hstep := card_clearBits_setBit_true ws hi hclear
    have htail := ih hnodup' hrest
    omega

/-! ## The count, word by word -/

/-- The number of clear bits of one word. -/
def wordClear (x : BitVec w) : Nat :=
  (List.range w).countP (fun i => !x.getLsbD i)

theorem card_clearBits_eq_countP (ws : List (BitVec w)) :
    (clearBits ws).card = (List.range (w * ws.length)).countP (fun i => !getBit ws i) := by
  rw [List.countP_eq_length_filter]
  unfold clearBits
  rw [Finset.card_def, Finset.filter_val, Finset.range_val, ← Multiset.coe_range,
    Multiset.filter_coe, Multiset.coe_card]
  simp

theorem getBit_cons_of_lt (x : BitVec w) (ws : List (BitVec w)) (hi : i < w) :
    getBit (x :: ws) i = x.getLsbD i := by
  simp [getBit, Nat.div_eq_of_lt hi, Nat.mod_eq_of_lt hi]

theorem getBit_cons_add (x : BitVec w) (ws : List (BitVec w)) (hw : 0 < w) (i : Nat) :
    getBit (x :: ws) (w + i) = getBit ws i := by
  unfold getBit
  rw [Nat.add_mod_left, Nat.add_div_left _ hw]
  simp

/-- The first word's clear bits come first in the index order, the rest follow shifted. -/
theorem card_clearBits_cons (x : BitVec w) (ws : List (BitVec w)) (hw : 0 < w) :
    (clearBits (x :: ws)).card = wordClear x + (clearBits ws).card := by
  rw [card_clearBits_eq_countP, card_clearBits_eq_countP, List.length_cons, Nat.mul_succ,
    Nat.add_comm (w * ws.length) w, List.range_add, List.countP_append, List.countP_map]
  congr 1
  · unfold wordClear
    refine List.countP_congr fun i hi => ?_
    rw [getBit_cons_of_lt x ws (List.mem_range.mp hi)]
  · refine List.countP_congr fun i _ => ?_
    rw [Function.comp_apply, getBit_cons_add x ws hw]

theorem card_clearBits_eq_sum (ws : List (BitVec w)) (hw : 0 < w) :
    (clearBits ws).card = (ws.map wordClear).sum := by
  induction ws with
  | nil => simp [clearBits]
  | cons x ws ih => rw [card_clearBits_cons x ws hw, ih, List.map_cons, List.sum_cons]

end MonkeyOS.Lib
