import MonkeyOS.Lib.Radix
import MonkeyOS.Mem.MemSet

/-!
# MonkeyOS — page table entries (`vendor/polyhal/src/pagetable/`)

Four architectures share the page table code of `mod.rs` and bring their own format of an entry.
`Arch` collects what the shared code uses of it; `Target.arch` is the instance that
`target_arch` selects.

An entry holds a physical address and flags. The formats put them in different places (RISC-V
shifts the address right by two), so two things are proved for each:

* `Target.lawful`: an entry made by `new_table` is a table, and leads where it should;
* `Target.address_page`, `Target.flags_page`: of a page, the address comes back as it went in.
  The flags do not: `Target.shown` says what is left of them.

Both rest on the addresses having no bits where the flags are (`Aligned`).
-/

namespace MonkeyOS.Polyhal

open Lib Radix

abbrev PhysAddr := BitVec 64

/-- `bit!(n)`. -/
def bit (n : Nat) : BitVec 64 := BitVec.twoPow 64 n

/-- `bitflags`' `contains`. -/
def contains (w f : BitVec 64) : Bool := w &&& f == f

/-- `if c { w |= f }`. -/
def addIf (c : Bool) (f w : BitVec 64) : BitVec 64 := if c then w ||| f else w

/-- `MappingFlags` of `mod.rs`. -/
@[ext]
structure MappingFlags where
  p : Bool := false
  u : Bool := false
  r : Bool := false
  w : Bool := false
  x : Bool := false
  a : Bool := false
  d : Bool := false
  g : Bool := false
  device : Bool := false
  cache : Bool := false
  deriving DecidableEq

def MappingFlags.empty : MappingFlags := {}

/-- What the page table code uses of an architecture. -/
structure Arch where
  pageLevel : Nat
  globalRootPteRange : Nat
  isValid : BitVec 64 → Bool
  isTable : BitVec 64 → Bool
  newTable : PhysAddr → BitVec 64
  newPage : PhysAddr → BitVec 64 → BitVec 64
  address : BitVec 64 → PhysAddr
  /-- `PTE::flags`, the truncated bits -/
  flags : BitVec 64 → BitVec 64
  /-- `From<MappingFlags> for PTEFlags` -/
  ofMapping : MappingFlags → BitVec 64
  /-- `From<PTEFlags> for MappingFlags` -/
  toMapping : BitVec 64 → MappingFlags
  /-- what `restore` writes into the root, besides what `release` does; it may copy from the root
  in use -/
  restored : (Fin 512 → BitVec 64) → Fin 512 → Option (BitVec 64)

/-- The mask of every `address`. -/
def physMask : BitVec 64 := 0xFFFFFFFFF000#64

namespace Riscv64

def V := bit 0
def R := bit 1
def W := bit 2
def X := bit 3
def U := bit 4
def A := bit 6
def D := bit 7

def flags (w : BitVec 64) : BitVec 64 := w &&& 0xff#64

def ofMapping (fl : MappingFlags) : BitVec 64 :=
  if fl = .empty then 0
  else addIf fl.u U (addIf fl.x X (addIf fl.w (W ||| D) (addIf fl.r (R ||| A) V)))

def toMapping (v : BitVec 64) : MappingFlags :=
  { p := contains v V, r := contains v R, w := contains v W, x := contains v X
    u := contains v U, a := contains v A, d := contains v D }

def arch : Arch where
  pageLevel := 3
  globalRootPteRange := 0x100
  -- no entry of the lowest physical page is valid
  isValid w := contains (flags w) V && decide (w.toNat > 255)
  isTable w := contains (flags w) V
    && !(contains (flags w) R || contains (flags w) W || contains (flags w) X)
  newTable p := (p >>> 2) ||| V
  newPage p fl := (p >>> 2) ||| fl
  address w := (w <<< 2) &&& physMask
  flags := flags
  ofMapping := ofMapping
  toMapping := toMapping
  restored current i := if 0x100 ≤ i.val then some (current i) else some 0

end Riscv64

namespace Loongarch64

def V := bit 0
def D := bit 1
def plvUser : BitVec 64 := 0b11#64 <<< 2
def W := bit 8

/-- The bits `PTEFlags` names. -/
def all : BitVec 64 :=
  V ||| D ||| plvUser ||| bit 4 ||| bit 6 ||| bit 7 ||| W ||| bit 10 ||| bit 11 ||| bit 12
    ||| bit 63

def ofMapping (fl : MappingFlags) : BitVec 64 := addIf fl.u plvUser (addIf fl.w (W ||| D) V)

def toMapping (v : BitVec 64) : MappingFlags :=
  { w := contains v W, d := contains v D, u := contains v plvUser }

def arch : Arch where
  pageLevel := 3
  globalRootPteRange := 0x100
  isValid w := w != 0
  isTable w := w != 0
  newTable p := p
  newPage p fl := p ||| fl
  address w := w &&& physMask
  flags w := w &&& all
  ofMapping := ofMapping
  toMapping := toMapping
  restored _ _ := none

end Loongarch64

namespace X64

def P := bit 0
def RW := bit 1
def US := bit 2
def A := bit 5
def D := bit 6
def PS := bit 7
def XD := bit 63

def all : BitVec 64 :=
  P ||| RW ||| US ||| bit 3 ||| bit 4 ||| A ||| D ||| PS ||| bit 8 ||| bit 9 ||| bit 10 ||| bit 11
    ||| XD

def flags (w : BitVec 64) : BitVec 64 := w &&& all

def ofMapping (fl : MappingFlags) : BitVec 64 :=
  let res := addIf fl.d D (addIf fl.a A (addIf fl.u US (addIf fl.w RW P)))
  if fl.x then res &&& ~~~XD else res

def toMapping (v : BitVec 64) : MappingFlags :=
  { w := contains v RW, u := contains v US, a := contains v A, d := contains v D
    x := !contains v XD }

/-- `bootMappingPdpt` is the physical address of `_boot_mapping_pdpt`. -/
def arch (bootMappingPdpt : BitVec 64) : Arch where
  pageLevel := 4
  globalRootPteRange := 0x100
  isValid w := contains (flags w) P
  isTable w := contains (flags w) P && !contains (flags w) PS
  newTable p := p ||| (P ||| US ||| RW)
  newPage p fl := p ||| fl
  address w := w &&& physMask
  flags := flags
  ofMapping := ofMapping
  toMapping := toMapping
  restored _ i := if i.val = 0x100 then some (bootMappingPdpt ||| 0x3#64) else none

end X64

namespace Aarch64

def VALID := bit 0
def nonBlock := bit 1
def apEl0 := bit 6
def apRo := bit 7
def AF := bit 10
def NG := bit 11
def PXN := bit 53
def UXN := bit 54

/-- The bits `PTEFlags` names; `0b111 << 2` is `ATTR_INDX`. -/
def all : BitVec 64 :=
  VALID ||| nonBlock ||| 0b111#64 <<< 2 ||| bit 5 ||| apEl0 ||| apRo ||| bit 8 ||| bit 9
    ||| AF ||| NG ||| bit 52 ||| PXN ||| UXN ||| bit 59 ||| bit 60 ||| bit 61 ||| bit 62 ||| bit 63

def flags (w : BitVec 64) : BitVec 64 := w &&& all

def ofMapping (fl : MappingFlags) : BitVec 64 :=
  addIf (!fl.g) NG (addIf fl.u apEl0 (addIf (!fl.x) (UXN ||| PXN)
    (addIf (!fl.w) apRo (VALID ||| nonBlock ||| AF))))

def toMapping (v : BitVec 64) : MappingFlags :=
  if v = 0 then .empty
  else
    { r := true, w := !contains v apRo, x := !contains v UXN || !contains v PXN
      u := contains v apEl0, a := contains v AF, g := !contains v NG }

def arch : Arch where
  pageLevel := 4
  globalRootPteRange := 0x200
  isValid w := contains (flags w) VALID
  isTable w := contains (flags w) (nonBlock ||| VALID)
  newTable p := p ||| VALID ||| nonBlock
  newPage p fl := p ||| fl
  address w := w &&& physMask
  flags := flags
  ofMapping := ofMapping
  toMapping := toMapping
  restored _ _ := none

end Aarch64

/-- `cfg(target_arch)`. -/
inductive Target where
  | riscv64
  | loongarch64
  | x64 (bootMappingPdpt : BitVec 64)
  | aarch64

def Target.arch : Target → Arch
  | .riscv64 => Riscv64.arch
  | .loongarch64 => Loongarch64.arch
  | .x64 boot => X64.arch boot
  | .aarch64 => Aarch64.arch

def Arch.format (a : Arch) : Format PhysAddr (BitVec 64) where
  empty := 0
  isValid := a.isValid
  isTable := a.isTable
  newTable := a.newTable
  address := a.address

/-! ## Addresses and flags -/

/-- The address of a page below `2 ^ 48`: no bits outside of `physMask`. -/
def Aligned (p : PhysAddr) : Prop := p &&& physMask = p

instance (p : PhysAddr) : Decidable (Aligned p) := inferInstanceAs (Decidable (_ = _))

/-- What a table may be made of. -/
structure Good (p : PhysAddr) : Prop where
  aligned : Aligned p
  ne_zero : p ≠ 0

theorem getLsbD_physMask (i : Nat) :
    physMask.getLsbD i = (decide (12 ≤ i) && decide (i < 48)) := by
  by_cases hi : i < 64
  · have h : ∀ j : Fin 64, physMask.getLsbD j = (decide (12 ≤ j.val) && decide (j.val < 48)) := by
      decide
    exact h ⟨i, hi⟩
  · rw [BitVec.getLsbD_of_ge _ _ (by omega), decide_eq_false (show ¬i < 48 by omega),
      Bool.and_false]

variable {p : PhysAddr} {f m w : BitVec 64}

theorem Aligned.getLsbD (h : Aligned p) {i : Nat} (hi : i < 12 ∨ 48 ≤ i) :
    p.getLsbD i = false := by
  unfold Aligned at h
  rw [← h, BitVec.getLsbD_and, getLsbD_physMask]
  rcases hi with hi | hi
  · rw [decide_eq_false (show ¬12 ≤ i by omega), Bool.false_and, Bool.and_false]
  · rw [decide_eq_false (show ¬i < 48 by omega), Bool.and_false, Bool.and_false]

/-- The bits of an entry outside of the address are its flags. -/
theorem or_and_of_mask {p : BitVec 64} (hp : p &&& m = p) (hf : m &&& f = 0#64) :
    (p ||| w) &&& f = w &&& f := by
  have hpf : p &&& f = 0#64 := by
    rw [← hp, BitVec.and_assoc, hf, BitVec.and_zero]
  rw [BitVec.and_or_distrib_right, hpf, BitVec.zero_or]

theorem contains_entry {p all : BitVec 64} (hp : p &&& m = p) (hf : m &&& f = 0#64)
    (hall : all &&& f = f) : contains ((p ||| w) &&& all) f = contains w f := by
  unfold contains
  rw [BitVec.and_assoc, hall, or_and_of_mask hp hf]

/-- The bits of an entry within the address are the address. -/
theorem Aligned.or_and (h : Aligned p) (hw : w &&& physMask = 0#64) :
    (p ||| w) &&& physMask = p := by
  unfold Aligned at h
  rw [BitVec.and_or_distrib_right, h, hw, BitVec.or_zero]

theorem Aligned.shifted (h : Aligned p) :
    (p >>> 2) &&& (physMask >>> 2) = p >>> 2 := by
  rw [← BitVec.ushiftRight_and_distrib, h]

/-- The same where the address is stored two bits lower. -/
theorem Aligned.shifted_or_and (h : Aligned p)
    (hw : (w <<< 2) &&& physMask = 0#64) : ((p >>> 2 ||| w) <<< 2) &&& physMask = p := by
  have hp : (p >>> 2 <<< 2) = p := by
    refine BitVec.eq_of_getLsbD_eq fun i hi => ?_
    rw [BitVec.getLsbD_shiftLeft, BitVec.getLsbD_ushiftRight]
    by_cases h2 : i < 2
    · have hp := h.getLsbD (.inl (show i < 12 by omega))
      simp only [h2, hp, decide_true, Bool.not_true, Bool.and_false, Bool.false_and]
    · rw [decide_eq_true hi, decide_eq_false h2, Nat.add_sub_cancel' (by omega)]
      rfl
  rw [BitVec.shiftLeft_or_distrib, hp]
  exact h.or_and hw

theorem Good.le_toNat (h : Good p) : 4096 ≤ p.toNat := by
  by_contra hlt
  refine h.ne_zero (BitVec.eq_of_getLsbD_eq fun i _ => ?_)
  rw [BitVec.ofNat_eq_ofNat, BitVec.getLsbD_zero]
  by_cases hi : i < 12
  · exact h.aligned.getLsbD (.inl hi)
  -- an address below one page has no bits above the offset
  refine Nat.testBit_lt_two_pow (lt_of_lt_of_le (not_le.mp hlt) ?_)
  exact Nat.pow_le_pow_right Nat.two_pos (not_lt.mp hi)

/-! ## The formats -/

theorem Riscv64.lawful : Riscv64.arch.format.Lawful Good where
  isValid_empty := by decide
  isTable_empty := by decide
  isValid_newTable p hp := by
    show (contains ((p >>> 2 ||| V) &&& 0xff#64) V && decide ((p >>> 2 ||| V).toNat > 255)) = true
    rw [contains_entry hp.aligned.shifted (by decide) (by decide), Bool.and_eq_true,
      decide_eq_true_iff, BitVec.toNat_or, BitVec.toNat_ushiftRight]
    have hle := hp.le_toNat
    have hor : p.toNat >>> 2 ≤ p.toNat >>> 2 ||| V.toNat := Nat.left_le_or
    rw [Nat.shiftRight_eq_div_pow] at hor ⊢
    exact ⟨by decide, by omega⟩
  isTable_newTable p hp := by
    have hflag : ∀ f : BitVec 64, (physMask >>> 2) &&& f = 0#64 → 0xff#64 &&& f = f →
        contains (flags (p >>> 2 ||| V)) f = contains V f :=
      fun f hf hall => contains_entry hp.aligned.shifted hf hall
    show (contains (flags (p >>> 2 ||| V)) V && !(contains (flags (p >>> 2 ||| V)) R
      || contains (flags (p >>> 2 ||| V)) W || contains (flags (p >>> 2 ||| V)) X)) = true
    rw [hflag V (by decide) (by decide), hflag R (by decide) (by decide),
      hflag W (by decide) (by decide), hflag X (by decide) (by decide)]
    decide
  address_newTable p hp := hp.aligned.shifted_or_and (by decide)

theorem Loongarch64.lawful : Loongarch64.arch.format.Lawful Good where
  isValid_empty := by decide
  isTable_empty := by decide
  isValid_newTable p hp := bne_iff_ne.mpr hp.ne_zero
  isTable_newTable p hp := bne_iff_ne.mpr hp.ne_zero
  address_newTable p hp := hp.aligned

theorem X64.lawful (boot : BitVec 64) : (X64.arch boot).format.Lawful Good where
  isValid_empty := by
    dsimp only [Arch.format, arch]
    decide
  isTable_empty := by
    dsimp only [Arch.format, arch]
    decide
  isValid_newTable p hp := by
    show contains ((p ||| (P ||| US ||| RW)) &&& all) P = true
    rw [contains_entry hp.aligned (by decide) (by decide)]
    decide
  isTable_newTable p hp := by
    show (contains ((p ||| (P ||| US ||| RW)) &&& all) P
      && !contains ((p ||| (P ||| US ||| RW)) &&& all) PS) = true
    rw [contains_entry hp.aligned (by decide) (by decide),
      contains_entry hp.aligned (by decide) (by decide)]
    decide
  address_newTable p hp := hp.aligned.or_and (by decide)

theorem Aarch64.lawful : Aarch64.arch.format.Lawful Good where
  isValid_empty := by decide
  isTable_empty := by decide
  isValid_newTable p hp := by
    show contains ((p ||| VALID ||| nonBlock) &&& all) VALID = true
    rw [BitVec.or_assoc, contains_entry hp.aligned (by decide) (by decide)]
    decide
  isTable_newTable p hp := by
    show contains ((p ||| VALID ||| nonBlock) &&& all) (nonBlock ||| VALID) = true
    rw [BitVec.or_assoc, contains_entry hp.aligned (by decide) (by decide)]
    decide
  address_newTable p hp := by
    show (p ||| VALID ||| nonBlock) &&& physMask = p
    rw [BitVec.or_assoc]
    exact hp.aligned.or_and (by decide)

theorem Target.lawful (t : Target) : t.arch.format.Lawful Good := by
  cases t with
  | riscv64 => exact Riscv64.lawful
  | loongarch64 => exact Loongarch64.lawful
  | x64 boot => exact X64.lawful boot
  | aarch64 => exact Aarch64.lawful

/-! ## Pages -/

/-- The flags the kernel maps user pages with. -/
def ofUser (fl : MonkeyOS.MappingFlags) : MappingFlags :=
  { u := true, r := fl.readable, w := fl.writable, x := fl.executable }

/-- What is left of them. RISC-V and AArch64 set the accessed bit, LoongArch keeps neither reads
nor executes, and on x86-64 every page is executable. -/
def Target.shown (fl : MonkeyOS.MappingFlags) : Target → MappingFlags
  | .riscv64 => { p := true, u := true, r := fl.readable, w := fl.writable, x := fl.executable
                  a := fl.readable, d := fl.writable }
  | .loongarch64 => { u := true, w := fl.writable, d := fl.writable }
  | .x64 _ => { u := true, w := fl.writable, x := true }
  | .aarch64 => { r := true, u := true, w := fl.writable, x := fl.executable, a := true }

/-- What an entry that is zero says. -/
def Target.blank : Target → MappingFlags
  | .x64 _ => { x := true }
  | _ => {}

/-- The entry of a user page. -/
def Arch.page (a : Arch) (p : PhysAddr) (fl : MonkeyOS.MappingFlags) : BitVec 64 :=
  a.newPage p (a.ofMapping (ofUser fl))

theorem Target.address_page (t : Target) (hp : Aligned p)
    (fl : MonkeyOS.MappingFlags) : t.arch.address (t.arch.page p fl) = p := by
  cases t with
  | riscv64 =>
    refine hp.shifted_or_and ?_
    show (Riscv64.ofMapping (ofUser fl) <<< 2) &&& physMask = 0#64
    cases fl with | mk r w x => revert r w x; decide
  | loongarch64 =>
    refine hp.or_and ?_
    show Loongarch64.ofMapping (ofUser fl) &&& physMask = 0#64
    cases fl with | mk r w x => revert r w x; decide
  | x64 boot =>
    refine hp.or_and ?_
    show X64.ofMapping (ofUser fl) &&& physMask = 0#64
    cases fl with | mk r w x => revert r w x; decide
  | aarch64 =>
    refine hp.or_and ?_
    show Aarch64.ofMapping (ofUser fl) &&& physMask = 0#64
    cases fl with | mk r w x => revert r w x; decide

/-- The flags of an entry are read where the address has no bits. -/
theorem Target.flags_page (t : Target) (hp : Aligned p) (fl : MonkeyOS.MappingFlags) :
    t.arch.toMapping (t.arch.flags (t.arch.page p fl)) = t.shown fl := by
  cases t with
  | riscv64 =>
    show Riscv64.toMapping ((p >>> 2 ||| Riscv64.ofMapping (ofUser fl)) &&& 0xff#64) = _
    unfold Riscv64.toMapping
    simp (disch := decide) only [contains_entry hp.shifted]
    cases fl with | mk r w x => revert r w x; decide
  | loongarch64 =>
    show Loongarch64.toMapping ((p ||| Loongarch64.ofMapping (ofUser fl)) &&& Loongarch64.all) = _
    unfold Loongarch64.toMapping
    simp (disch := decide) only [contains_entry hp]
    cases fl with | mk r w x => revert r w x; decide
  | x64 boot =>
    show X64.toMapping ((p ||| X64.ofMapping (ofUser fl)) &&& X64.all)
      = { u := true, w := fl.writable, x := true }
    unfold X64.toMapping
    simp (disch := decide) only [contains_entry hp]
    cases fl with | mk r w x => revert r w x; decide
  | aarch64 =>
    -- the flags are not empty: a page is valid
    have hvalid : contains ((p ||| Aarch64.ofMapping (ofUser fl)) &&& Aarch64.all)
        Aarch64.VALID = true := by
      rw [contains_entry hp (by decide) (by decide)]
      cases fl with | mk r w x => revert r w x; decide
    have hne : (p ||| Aarch64.ofMapping (ofUser fl)) &&& Aarch64.all ≠ 0 := by
      intro h0
      rw [h0] at hvalid
      revert hvalid
      decide
    show Aarch64.toMapping ((p ||| Aarch64.ofMapping (ofUser fl)) &&& Aarch64.all) = _
    unfold Aarch64.toMapping
    rw [if_neg hne]
    simp (disch := decide) only [contains_entry hp]
    clear hvalid hne
    cases fl with | mk r w x => revert r w x; decide

theorem Target.flags_zero (t : Target) : t.arch.toMapping (t.arch.flags 0) = t.blank := by
  cases t with
  | riscv64 => decide
  | loongarch64 => decide
  | x64 boot =>
    show X64.toMapping (X64.flags 0) = { x := true }
    decide
  | aarch64 => decide

theorem Target.address_zero (t : Target) : t.arch.address 0 = 0 := by
  cases t with
  | riscv64 => decide
  | loongarch64 => decide
  | x64 boot =>
    show (0 : BitVec 64) &&& physMask = 0
    decide
  | aarch64 => decide

/-- The address of a frame by its number. -/
def frameAddr (frame : Nat) : PhysAddr := BitVec.ofNat 64 frame <<< 12

theorem aligned_frameAddr {frame : Nat} (h : frame < 2 ^ 36) : Aligned (frameAddr frame) := by
  refine BitVec.eq_of_getLsbD_eq fun i hi => ?_
  unfold frameAddr
  rw [BitVec.getLsbD_and, getLsbD_physMask, BitVec.getLsbD_shiftLeft, BitVec.getLsbD_ofNat]
  by_cases h12 : i < 12
  · simp only [h12, decide_true, Bool.not_true, Bool.and_false, Bool.false_and]
  by_cases h48 : i < 48
  · simp only [h48, decide_eq_true (show 12 ≤ i by omega), decide_true, Bool.and_true]
  have hbit : frame.testBit (i - 12) = false :=
    Nat.testBit_lt_two_pow (lt_of_lt_of_le h (Nat.pow_le_pow_right Nat.two_pos (by omega)))
  simp only [hbit, Bool.and_false, Bool.false_and]

end MonkeyOS.Polyhal
