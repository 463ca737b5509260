import Mathlib.Algebra.GroupWithZero.Nat
import Mathlib.Data.List.Basic
import Mathlib.Tactic.Common

/-!
# Byte-addressed memory

A memory is a function from addresses to bytes. The module has what a program stores and reads in
one:

* `store` — a run of bytes; `Holds` says that it is there;
* `leBytes`, `readLE` — little-endian numbers;
* `readCStr`, `readUntilNull`, `readPairs` — strings up to a zero byte, words and pairs of words up
  to a zero word, with a bound on the search;
* `Descends` — what was pushed on a stack that grows downwards: the pushes do not meet, so each is
  found where it was put (`Descends.storeAll_at`).
-/

namespace MonkeyOS.Lib

abbrev ByteMem := Nat → UInt8

/-! ## Runs of bytes -/

def store (mem : ByteMem) (addr : Nat) (bytes : List UInt8) : ByteMem :=
  fun a => if addr ≤ a then (bytes[a - addr]?).getD (mem a) else mem a

/-- The bytes are in the memory, from `addr` on. -/
def Holds (mem : ByteMem) (addr : Nat) (bytes : List UInt8) : Prop :=
  ∀ i b, bytes[i]? = some b → mem (addr + i) = b

section Store

variable {mem : ByteMem} {addr : Nat} {bytes : List UInt8}

theorem store_at (mem : ByteMem) (addr : Nat) (bytes : List UInt8) (i : Nat) :
    store mem addr bytes (addr + i) = (bytes[i]?).getD (mem (addr + i)) := by
  unfold store
  rw [if_pos (Nat.le_add_right addr i), Nat.add_sub_cancel_left]

theorem store_outside {a : Nat} (h : ¬ (addr ≤ a ∧ a < addr + bytes.length)) :
    store mem addr bytes a = mem a := by
  unfold store
  split
  · rw [List.getElem?_eq_none (by omega)]
    rfl
  · rfl

theorem Holds.head {b : UInt8} (h : Holds mem addr (b :: bytes)) : mem addr = b :=
  h 0 b rfl

theorem Holds.tail {b : UInt8} (h : Holds mem addr (b :: bytes)) : Holds mem (addr + 1) bytes := by
  intro i c hc
  rw [show addr + 1 + i = addr + (i + 1) by omega]
  exact h (i + 1) c hc

end Store

/-! ## Little-endian numbers -/

/-- The lowest `k` bytes of `n`. -/
def leBytes : (k : Nat) → (n : Nat) → List UInt8
  | 0, _ => []
  | k + 1, n => UInt8.ofNat (n % 256) :: leBytes k (n / 256)

def readLE (mem : ByteMem) : (addr k : Nat) → Nat
  | _, 0 => 0
  | addr, k + 1 => (mem addr).toNat + 256 * readLE mem (addr + 1) k

theorem length_leBytes (k n : Nat) : (leBytes k n).length = k := by
  induction k generalizing n with
  | zero => rfl
  | succ k ih => exact congrArg Nat.succ (ih (n / 256))

variable {mem : ByteMem}

/-- A number reads back modulo what its bytes can say. -/
theorem readLE_of_holds {k : Nat} :
    ∀ {addr n : Nat}, Holds mem addr (leBytes k n) → readLE mem addr k = n % 256 ^ k := by
  induction k with
  | zero =>
    intro addr n _
    rw [Nat.pow_zero, Nat.mod_one]
    rfl
  | succ k ih =>
    intro addr n h
    have hbyte : (UInt8.ofNat (n % 256)).toNat = n % 256 := by
      rw [UInt8.toNat_ofNat']
      omega
    show (mem addr).toNat + 256 * readLE mem (addr + 1) k = _
    rw [h.head, hbyte, ih h.tail, Nat.pow_succ', Nat.mod_mul]

/-! ## Up to a zero -/

/-- A string; `none` when no zero byte comes within the bound. -/
def readCStr (mem : ByteMem) : (fuel addr : Nat) → Option (List UInt8)
  | 0, _ => none
  | fuel + 1, addr =>
    if mem addr = 0 then some []
    else (readCStr mem fuel (addr + 1)).map (fun bytes => mem addr :: bytes)

/-- A string reads back up to a zero inside it. -/
theorem readCStr_of_holds {bytes : List UInt8} :
    ∀ {fuel addr : Nat}, Holds mem addr (bytes ++ [0]) → bytes.length < fuel →
      readCStr mem fuel addr = some (bytes.takeWhile (· != 0)) := by
  induction bytes with
  | nil =>
    intro fuel addr h hfuel
    cases fuel with
    | zero => omega
    | succ fuel =>
      show (if mem addr = 0 then _ else _) = _
      rw [if_pos h.head]
      rfl
  | cons b bytes ih =>
    intro fuel addr h hfuel
    cases fuel with
    | zero => omega
    | succ fuel =>
      show (if mem addr = 0 then _ else _) = _
      have hb : mem addr = b := Holds.head h
      by_cases hzero : b = 0
      · rw [hb, if_pos hzero, hzero]
        rfl
      rw [hb, if_neg hzero, ih (Holds.tail h) (by simpa using hfuel), List.takeWhile_cons_of_pos]
      · rfl
      · simpa using hzero

/-- 64-bit words in a row. -/
def Words (mem : ByteMem) (addr : Nat) (ws : List Nat) : Prop :=
  ∀ i n, ws[i]? = some n → readLE mem (addr + 8 * i) 8 = n

section Words

variable {mem : ByteMem} {addr : Nat}

variable {ws' ws : List Nat} {n : Nat}

theorem Words.head (h : Words mem addr (n :: ws)) :
    readLE mem addr 8 = n :=
  h 0 n rfl

theorem Words.tail (h : Words mem addr (n :: ws)) :
    Words mem (addr + 8) ws := by
  intro i k hk
  rw [show addr + 8 + 8 * i = addr + 8 * (i + 1) by omega]
  exact h (i + 1) k hk

theorem Words.append_right (h : Words mem addr (ws ++ ws')) :
    Words mem (addr + 8 * ws.length) ws' := by
  intro i n hn
  rw [show addr + 8 * ws.length + 8 * i = addr + 8 * (ws.length + i) by omega]
  apply h
  rw [List.getElem?_append_right (by omega), Nat.add_sub_cancel_left]
  exact hn

theorem Words.append_left (h : Words mem addr (ws ++ ws')) :
    Words mem addr ws := by
  intro i n hn
  apply h
  obtain ⟨hi, -⟩ := List.getElem?_eq_some_iff.mp hn
  rw [List.getElem?_append_left hi]
  exact hn

end Words

/-- The words before a zero word; `none` when it does not come within the bound. -/
def readUntilNull (mem : ByteMem) : (fuel addr : Nat) → Option (List Nat)
  | 0, _ => none
  | fuel + 1, addr =>
    if readLE mem addr 8 = 0 then some []
    else (readUntilNull mem fuel (addr + 8)).map (fun ws => readLE mem addr 8 :: ws)

/-- A list without a zero word reads back whole. -/
theorem readUntilNull_of_words {ws : List Nat} :
    ∀ {fuel addr : Nat}, Words mem addr (ws ++ [0]) → (∀ n ∈ ws, n ≠ 0) → ws.length < fuel →
      readUntilNull mem fuel addr = some ws := by
  induction ws with
  | nil =>
    intro fuel addr h _ hfuel
    cases fuel with
    | zero => omega
    | succ fuel =>
      show (if readLE mem addr 8 = 0 then _ else _) = _
      rw [if_pos h.head]
  | cons n ws ih =>
    intro fuel addr h hne hfuel
    cases fuel with
    | zero => omega
    | succ fuel =>
      have hrest : Words mem (addr + 8) (ws ++ [0]) := Words.tail h
      show (if readLE mem addr 8 = 0 then _ else _) = _
      rw [Words.head h, if_neg (hne n List.mem_cons_self),
        ih hrest (fun k hk => hne k (List.mem_cons_of_mem _ hk)) (by simpa using hfuel)]
      rfl

/-- Pairs of words before a zero word in the place of a key. -/
def readPairs (mem : ByteMem) : (fuel addr : Nat) → Option (List (Nat × Nat))
  | 0, _ => none
  | fuel + 1, addr =>
    if readLE mem addr 8 = 0 then some []
    else (readPairs mem fuel (addr + 16)).map
      (fun ps => (readLE mem addr 8, readLE mem (addr + 8) 8) :: ps)

/-- The values may be zero, the keys may not. -/
theorem readPairs_of_words {ps : List (Nat × Nat)} :
    ∀ {fuel addr : Nat}, Words mem addr (ps.flatMap (fun p => [p.1, p.2]) ++ [0]) →
      (∀ p ∈ ps, p.1 ≠ 0) → ps.length < fuel → readPairs mem fuel addr = some ps := by
  induction ps with
  | nil =>
    intro fuel addr h _ hfuel
    cases fuel with
    | zero => omega
    | succ fuel =>
      show (if readLE mem addr 8 = 0 then _ else _) = _
      rw [if_pos h.head]
  | cons p ps ih =>
    intro fuel addr h hne hfuel
    cases fuel with
    | zero => omega
    | succ fuel =>
      have hkey : readLE mem addr 8 = p.1 := Words.head h
      have hvalue : readLE mem (addr + 8) 8 = p.2 := (Words.tail h).head
      have hrest : Words mem (addr + 16) (ps.flatMap (fun p => [p.1, p.2]) ++ [0]) :=
        (Words.tail h).tail
      show (if readLE mem addr 8 = 0 then _ else _) = _
      rw [hkey, hvalue, if_neg (hne p List.mem_cons_self),
        ih hrest (fun q hq => hne q (List.mem_cons_of_mem _ hq)) (by simpa using hfuel)]
      rfl

/-! ## A stack that grows downwards -/

section Stack

variable {ι : Type} (size : ι → Nat) (bytes : ι → List UInt8)

/-- What was pushed from `top` down to `sp`, latest first, each item with the address it got. -/
inductive Descends (top : Nat) : List (Nat × ι) → Nat → Prop where
  | nil : Descends top [] top
  | push {items : List (Nat × ι)} {sp : Nat} (item : ι) (h : Descends top items sp)
      (hroom : size item ≤ sp) : Descends top ((sp - size item, item) :: items) (sp - size item)

/-- The memory once everything is pushed. -/
def storeAll (mem : ByteMem) : List (Nat × ι) → ByteMem
  | [] => mem
  | (addr, item) :: items => store (storeAll mem items) addr (bytes item)

variable {size bytes} {top sp : Nat} {items : List (Nat × ι)} {mem : ByteMem}

theorem Descends.sp_le (h : Descends size top items sp) : sp ≤ top := by
  induction h with
  | nil => exact Nat.le_refl top
  | push item _ hroom ih => omega

variable {addr k i : Nat} {item : ι}

/-- Every item is between the stack pointer and the top. -/
theorem Descends.bounds (h : Descends size top items sp)
    (hmem : (addr, item) ∈ items) : sp ≤ addr ∧ addr + size item ≤ top := by
  induction h with
  | nil => cases hmem
  | push new hbelow hroom ih =>
    rcases List.mem_cons.mp hmem with heq | hmem
    · cases heq
      have hle := hbelow.sp_le
      omega
    · have hih := ih hmem
      omega

theorem Descends.total (h : Descends size top items sp) :
    sp + (items.map (fun x => size x.2)).sum = top := by
  induction h with
  | nil => rfl
  | push new hbelow hroom ih =>
    rw [List.map_cons, List.sum_cons]
    show _ - size new + (size new + _) = top
    omega

theorem Descends.trans {mid : Nat} {more : List (Nat × ι)} (h : Descends size top items mid)
    (h' : Descends size mid more sp) : Descends size top (more ++ items) sp := by
  induction h' with
  | nil => exact h
  | push new _ hroom ih => exact .push new ih hroom

/-- Items of one size are evenly spaced. -/
theorem Descends.addr_of_even (h : Descends size top items sp) (heven : ∀ x ∈ items, size x.2 = k)
    (hi : items[i]? = some (addr, item)) : addr = sp + k * i := by
  induction h generalizing i with
  | nil => cases hi
  | push new hbelow hroom ih =>
    cases i with
    | zero =>
      cases hi
      rfl
    | succ i =>
      have hnew : size new = k := heven _ List.mem_cons_self
      have haddr := ih (fun x hx => heven x (List.mem_cons_of_mem _ hx)) hi
      rw [haddr, Nat.mul_succ]
      omega

theorem Descends.total_of_even (h : Descends size top items sp)
    (heven : ∀ x ∈ items, size x.2 = k) : sp + k * items.length = top := by
  have hsum := h.total
  rw [List.map_congr_left heven, List.map_const', List.sum_replicate_nat, Nat.mul_comm] at hsum
  exact hsum

/-- Below the stack pointer nothing is stored. -/
theorem Descends.storeAll_below (h : Descends size top items sp) {a : Nat} (ha : a < sp) :
    storeAll bytes mem items a = mem a := by
  induction h with
  | nil => rfl
  | push new hbelow hroom ih =>
    show store _ _ _ a = _
    rw [store_outside (by omega), ih (by omega)]

/-- An item is where it was pushed, with the old memory behind its bytes. -/
theorem Descends.storeAll_at (h : Descends size top items sp)
    (hsize : ∀ item, (bytes item).length ≤ size item) (hmem : (addr, item) ∈ items)
    (hi : i < size item) :
    storeAll bytes mem items (addr + i) = ((bytes item)[i]?).getD (mem (addr + i)) := by
  induction h with
  | nil => cases hmem
  | push new hbelow hroom ih =>
    rcases List.mem_cons.mp hmem with heq | hmem
    · cases heq
      show store _ _ _ _ = _
      rw [store_at, hbelow.storeAll_below (by omega)]
    · -- later pushes are below
      have hbounds := hbelow.bounds hmem
      have hlen := hsize new
      show store _ _ _ _ = _
      rw [store_outside (by omega), ih hmem]

end Stack

end MonkeyOS.Lib
