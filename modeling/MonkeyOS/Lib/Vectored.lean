import Mathlib.Data.List.Forall2
import MonkeyOS.Lib.Bytes

/-!
# Transfers over several buffers

A loop moves data buffer by buffer, and stops at the first error. What the caller is told is the sum.

* `vectored` — the loop; `Transfers`, the same as a trace: how much each buffer has moved, and the error;
* `pieces` — what was moved; `Gapless`, no buffer moves anything behind one that moved less than its
  size. Then the pieces are the front of the concatenated buffers (`Gapless.pieces_eq`);
* `Gauged` — an operation that fails by the sizes of the buffers alone; `Gauged.quiet_of_clean`, when
  the loop fails with nothing moved or not at all;
* `window` — a buffer in a memory.
-/

namespace MonkeyOS.Lib

variable {σ ι ε α : Type*}

/-! ## The loop -/

section Loop

variable (op : σ → ι → Option (Except ε Nat × σ))

/-- `size += op(i)?` for each `i`; `none` is a panic. -/
def vectored : σ → List ι → Option (Except ε Nat × σ)
  | s, [] => some (.ok 0, s)
  | s, i :: is =>
    match op s i with
    | none => none
    | some (.error e, t) => some (.error e, t)
    | some (.ok m, t) => (vectored t is).map (fun (r, u) => (r.map (fun n => m + n), u))

/-- The amounts that were moved, and the error that ended the loop. -/
inductive Transfers : σ → List ι → List Nat → Option ε → σ → Prop where
  | done (s : σ) : Transfers s [] [] none s
  | failed {s t : σ} {i : ι} {is : List ι} {e : ε} (h : op s i = some (.error e, t)) :
      Transfers s (i :: is) [] (some e) t
  | next {s t u : σ} {i : ι} {is : List ι} {m : Nat} {ms : List Nat} {e : Option ε}
      (h : op s i = some (.ok m, t)) (hrest : Transfers t is ms e u) :
      Transfers s (i :: is) (m :: ms) e u

/-- What the caller is told. -/
def answer (ms : List Nat) : Option ε → Except ε Nat
  | none => .ok ms.sum
  | some e => .error e

variable {op}

/-- What the loop returns is the answer to one sequence of transfers. -/
theorem transfers_of_vectored {s t : σ} {is : List ι} {r : Except ε Nat}
    (h : vectored op s is = some (r, t)) : ∃ ms e, Transfers op s is ms e t ∧ r = answer ms e := by
  induction is generalizing s r with
  | nil =>
    cases h
    exact ⟨[], none, .done _, rfl⟩
  | cons i is ih =>
    unfold vectored at h
    split at h
    · cases h
    · rename_i hop
      cases h
      exact ⟨[], _, .failed hop, rfl⟩
    · rename_i m s' hop
      obtain ⟨⟨r', t'⟩, hrest, heq⟩ := Option.map_eq_some_iff.mp h
      cases heq
      obtain ⟨ms, e, htransfers, hanswer⟩ := ih hrest
      refine ⟨m :: ms, e, .next hop htransfers, ?_⟩
      rw [hanswer]
      cases e with
      | none => exact congrArg Except.ok List.sum_cons.symm
      | some e => rfl

end Loop

/-! ## Gaps -/

/-- What was moved of each buffer, in a row. -/
def pieces (ms : List Nat) (bufs : List (List α)) : List α := (List.zipWith List.take ms bufs).flatten

/-- Behind a buffer that moved less than its size nothing is moved. -/
inductive Gapless : List Nat → List Nat → Prop where
  | done : Gapless [] []
  | whole {size : Nat} {sizes ms : List Nat} (h : Gapless sizes ms) :
      Gapless (size :: sizes) (size :: ms)
  | short {size m : Nat} {sizes ms : List Nat} (hle : m ≤ size) (hzero : ∀ x ∈ ms, x = 0) :
      Gapless (size :: sizes) (m :: ms)

section Gaps

variable {bufs : List (List α)} {ms sizes : List Nat}

theorem Gapless.refl (sizes : List Nat) : Gapless sizes sizes := by
  induction sizes with
  | nil => exact .done
  | cons size sizes ih => exact .whole ih

theorem Gapless.sum_le (h : Gapless sizes ms) : ms.sum ≤ sizes.sum := by
  induction h with
  | done => exact Nat.le_refl _
  | whole h ih =>
    rw [List.sum_cons, List.sum_cons]
    omega
  | short hle hzero =>
    rw [List.sum_cons, List.sum_cons, List.sum_eq_zero_iff_forall_eq_nat.mpr hzero]
    omega

theorem pieces_eq_nil (h : ∀ m ∈ ms, m = 0) : pieces ms bufs = [] := by
  induction ms generalizing bufs with
  | nil => rfl
  | cons m ms ih =>
    cases bufs with
    | nil => rfl
    | cons buf bufs =>
      have hm := h m List.mem_cons_self
      show buf.take m ++ pieces ms bufs = []
      rw [hm, ih (fun x hx => h x (List.mem_cons_of_mem _ hx))]
      rfl

/-- Without a gap the pieces are the front of the buffers. -/
theorem Gapless.pieces_eq (h : Gapless (bufs.map List.length) ms) :
    pieces ms bufs = bufs.flatten.take ms.sum := by
  induction bufs generalizing ms with
  | nil =>
    cases h
    rfl
  | cons buf bufs ih =>
    cases h with
    | whole h =>
      rename_i ms
      show buf.take buf.length ++ pieces ms bufs = (buf ++ bufs.flatten).take _
      rw [List.take_length, ih h, List.sum_cons, List.take_length_add_append]
    | short hle hzero =>
      rename_i m ms
      show buf.take m ++ pieces ms bufs = (buf ++ bufs.flatten).take _
      rw [pieces_eq_nil hzero, List.sum_cons, List.sum_eq_zero_iff_forall_eq_nat.mpr hzero, Nat.add_zero,
        List.append_nil, List.take_append_of_le_length hle]

end Gaps

section Traces

variable {op : σ → ι → Option (Except ε Nat × σ)} {size : ι → Nat}

/-- Once a buffer has moved less than its size there is nothing left to move. -/
theorem Transfers.gapless (hle : ∀ s i m t, op s i = some (.ok m, t) → m ≤ size i) (dry : σ → Prop)
    (hshort : ∀ s i m t, op s i = some (.ok m, t) → m < size i → dry t)
    (hdry : ∀ s i m t, dry s → op s i = some (.ok m, t) → m = 0 ∧ dry t) {s t : σ} {is : List ι}
    {ms : List Nat} (h : Transfers op s is ms none t) : Gapless (is.map size) ms := by
  generalize he : (none : Option ε) = e at h
  induction h with
  | done => exact .done
  | failed h => cases he
  | @next s t u i is m ms e h hrest ih =>
    rcases Nat.lt_or_eq_of_le (hle _ _ _ _ h) with hlt | heq
    -- a short transfer: from here on the source is dry
    · refine .short (Nat.le_of_lt hlt) ?_
      have hdried := hshort _ _ _ _ h hlt
      clear h ih hlt he
      induction hrest with
      | done => exact fun x hx => absurd hx List.not_mem_nil
      | failed h => exact fun x hx => absurd hx List.not_mem_nil
      | next h _ ih =>
        obtain ⟨hzero, hdried⟩ := hdry _ _ _ _ hdried h
        exact List.forall_mem_cons.mpr ⟨hzero, ih hdried⟩
    · rw [List.map_cons, ← heq]
      exact .whole (ih he)

/-! ## Where a loop fails -/

/-- Whether a buffer fails is decided by its size and by the sizes of all the buffers in front of it. -/
structure Gauged (op : σ → ι → Option (Except ε Nat × σ)) (size : ι → Nat) (At : Nat → σ → Prop)
    (fails : Nat → Nat → Prop) : Prop where
  error : ∀ {asked s i e t}, At asked s → op s i = some (.error e, t) → fails asked (size i)
  ok : ∀ {asked s i m t}, At asked s → op s i = some (.ok m, t) →
    ¬ fails asked (size i) ∧ At (asked + size i) t

/-- A buffer fails with only empty ones in front of it, or none fails. -/
def Clean (fails : Nat → Nat → Prop) (sizes : List Nat) : Prop :=
  (∃ front n back, sizes = front ++ n :: back ∧ (∀ m ∈ front, m = 0) ∧ fails 0 n)
    ∨ ∀ front n back, sizes = front ++ n :: back → ¬ fails front.sum n

namespace Gauged

variable {At : Nat → σ → Prop} {fails : Nat → Nat → Prop} {s t : σ} {is : List ι} {ms : List Nat}
  {e : Option ε} {asked : Nat}

/-- A loop that fails does so at a buffer that fails where the buffers before it end. -/
theorem fails_of_failed (h : Gauged op size At fails) (hat : At asked s)
    (htransfers : Transfers op s is ms e t) (he : e ≠ none) :
    ∃ front n back, is.map size = front ++ n :: back ∧ fails (asked + front.sum) n := by
  induction htransfers generalizing asked with
  | done => exact absurd rfl he
  | failed hop => exact ⟨[], _, _, rfl, h.error hat hop⟩
  | @next s t u i is m ms e hop _ ih =>
    obtain ⟨front, n, back, heq, hfails⟩ := ih (h.ok hat hop).2 he
    rw [Nat.add_assoc, ← List.sum_cons] at hfails
    exact ⟨size i :: front, n, back, by rw [List.map_cons, heq]; rfl, hfails⟩

/-- The loop gets no further than to the first buffer that fails. -/
theorem sum_eq_zero_of_first (h : Gauged op size At fails)
    (hle : ∀ s i m t, op s i = some (.ok m, t) → m ≤ size i) (hat : At asked s)
    (htransfers : Transfers op s is ms e t) {front back : List Nat} {n : Nat}
    (heq : is.map size = front ++ n :: back) (hfront : ∀ m ∈ front, m = 0) (hfails : fails asked n) :
    ms.sum = 0 := by
  induction htransfers generalizing asked front with
  | done => rfl
  | failed hop => rfl
  | @next s t u i is m ms e hop _ ih =>
    obtain ⟨hpass, hat'⟩ := h.ok hat hop
    -- the buffer passed, so it is an empty one before the first that fails
    cases front with
    | nil =>
      obtain ⟨hn, -⟩ := List.cons.inj heq
      rw [← hn] at hfails
      exact absurd hfails hpass
    | cons k front =>
      obtain ⟨hk, hrest⟩ := List.cons.inj heq
      obtain ⟨hzero, hfront⟩ := List.forall_mem_cons.mp hfront
      rw [← hk] at hzero
      rw [hzero, Nat.add_zero] at hat'
      have hm := hle _ _ _ _ hop
      rw [List.sum_cons, ih hat' hrest hfront hfails]
      omega

/-- The loop fails with nothing moved, or does not fail. -/
theorem quiet_of_clean (h : Gauged op size At fails)
    (hle : ∀ s i m t, op s i = some (.ok m, t) → m ≤ size i) (hat : At 0 s)
    (htransfers : Transfers op s is ms e t) (hclean : Clean fails (is.map size)) (he : e ≠ none) :
    ms.sum = 0 := by
  rcases hclean with ⟨front, n, back, heq, hfront, hfails⟩ | hnone
  · exact h.sum_eq_zero_of_first hle hat htransfers heq hfront hfails
  · obtain ⟨front, n, back, heq, hfails⟩ := h.fails_of_failed hat htransfers he
    rw [Nat.zero_add] at hfails
    exact absurd hfails (hnone front n back heq)

/-- Where no buffer is cut short, each is moved whole. -/
theorem moves_all (h : Gauged op size At fails)
    (hwhole : ∀ {asked s i m t}, At asked s → op s i = some (.ok m, t) → m = size i)
    (hat : At asked s) (htransfers : Transfers op s is ms none t) : ms = is.map size := by
  generalize he : (none : Option ε) = e at htransfers
  induction htransfers generalizing asked with
  | done => rfl
  | failed hop => cases he
  | next hop _ ih =>
    rw [List.map_cons, ← hwhole hat hop, ih (h.ok hat hop).2 he]

end Gauged

end Traces

/-! ## Buffers in memory -/

/-- The bytes of a buffer, given by its address and its size. -/
def window (mem : ByteMem) (buf : Nat × Nat) : List UInt8 :=
  (List.range buf.2).map (fun i => mem (buf.1 + i))

/-- No byte is in both. -/
def NoOverlap (x y : Nat × Nat) : Prop := ∀ a, ¬ (x.1 ≤ a ∧ a < x.1 + x.2 ∧ y.1 ≤ a ∧ a < y.1 + y.2)

@[simp] theorem length_window (mem : ByteMem) (buf : Nat × Nat) : (window mem buf).length = buf.2 := by
  unfold window
  rw [List.length_map, List.length_range]

theorem map_length_windows (mem : ByteMem) (bufs : List (Nat × Nat)) :
    (bufs.map (window mem)).map List.length = bufs.map Prod.snd := by
  rw [List.map_map]
  exact List.map_congr_left (fun buf _ => length_window mem buf)

theorem window_congr {mem mem' : ByteMem} {buf : Nat × Nat}
    (h : ∀ a, buf.1 ≤ a → a < buf.1 + buf.2 → mem' a = mem a) : window mem' buf = window mem buf := by
  unfold window
  apply List.map_congr_left
  intro i hi
  have hi := List.mem_range.mp hi
  exact h _ (Nat.le_add_right _ _) (by omega)

theorem window_store {mem : ByteMem} {buf : Nat × Nat} {data : List UInt8}
    (h : data.length = buf.2) : window (store mem buf.1 data) buf = data := by
  apply List.ext_getElem
  · rw [length_window, h]
  intro i hi hi'
  have hbyte : (window (store mem buf.1 data) buf)[i] = store mem buf.1 data (buf.1 + i) := by
    simp only [window, List.getElem_map, List.getElem_range]
  rw [hbyte, store_at, List.getElem?_eq_getElem hi']
  rfl

end MonkeyOS.Lib
