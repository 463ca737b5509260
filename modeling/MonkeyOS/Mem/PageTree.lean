import MonkeyOS.Lib.Run
import MonkeyOS.Mem.PageEntry

/-!
# MonkeyOS — page tables in memory (`vendor/polyhal/src/pagetable/mod.rs`)

A `PageTable` is the physical address of its root. Everything else is in the frames: a table is
512 entries, a virtual address has an index for every level (`pn_index`), and `map_page` puts in
the tables that are missing. The frames come from the kernel's allocator (`PageAllocImpl`), which
also serves everybody else.

`Paging` is the whole of it: the memory, the page tables that exist, the frames in other hands
and the root the processor uses. `PtStep` are the calls on any of the tables in any order, with
what the rest of the kernel does in between: it takes frames (in the order of its choice), writes
to them and gives them back.

Above it stand the partial maps of `Mem.MemSet`, one for each table (`Space`). `Models` relates
the two; `models_step` goes through the calls once, with one lemma of `Lib.Radix` for each kind:
a call that stays in one tree (`Models.mapPage`, `Models.unmapPage`), one that gives its tables
back (`Models.restore`, `Models.drop`), and frames that change hands.

A page below `userEnd` is one whose root entry `release` looks at. The kernel's own entries of the
root are shared between the tables and are nobody's to give back.
-/

namespace MonkeyOS.Polyhal

open Lib Radix

/-- Physical memory as tables of entries, with the free frames. -/
abbrev Mem := Store PhysAddr (BitVec 64) 512

/-- `VirtAddr::pn_index`. -/
def pnIndex (v n : Nat) : Fin 512 :=
  ⟨(v >>> (12 + 9 * n)) &&& 0x1ff, Nat.lt_of_le_of_lt Nat.and_le_right (by decide)⟩

/-- `VirtAddr::pn_offest`. -/
def pnOffset (v n : Nat) : Nat := v % (1 <<< (12 + 9 * n))

namespace Arch

variable (a : Arch)

/-- The tables of a page are at the levels from `PAGE_LEVEL - 1` down to 0. -/
def rootLevel : Nat := a.pageLevel - 1

/-- The entries `release` goes through: of the root the first `GLOBAL_ROOT_PTE_RANGE`, of the
other tables all. -/
def scan (n : Nat) : List (Fin 512) :=
  if n = a.rootLevel then (List.finRange 512).take a.globalRootPteRange else List.finRange 512

/-- `PageTable::map_page`; without a free frame `frame_alloc` panics. -/
def mapPage (root : PhysAddr) (v : Nat) (paddr : PhysAddr) (flags : MappingFlags) (m : Mem) :
    Option Mem :=
  match a.format.make (pnIndex v) a.rootLevel root m with
  | none => none
  | some (t, m) => some (m.write t (pnIndex v 0) (a.newPage paddr (a.ofMapping flags)))

/-- `PageTable::unmap_page`. -/
def unmapPage (root : PhysAddr) (v : Nat) (m : Mem) : Mem :=
  match a.format.find m.cell (pnIndex v) a.rootLevel root with
  | none => m
  | some t => m.write t (pnIndex v 0) 0

/-- `PageTable::translate`. -/
def translate (root : PhysAddr) (v : Nat) (m : Mem) : Option (PhysAddr × MappingFlags) :=
  match a.format.find m.cell (pnIndex v) a.rootLevel root with
  | none => none
  | some t =>
    let pte := m.cell t (pnIndex v 0)
    some (a.address pte + BitVec.ofNat 64 (pnOffset v 0), a.toMapping (a.flags pte))

/-- `PageTable::release`. -/
def release (root : PhysAddr) (m : Mem) : Mem :=
  let m := a.format.dropBelow a.scan a.rootLevel root m
  -- `pte_list.fill(PTE(0))`
  { m with cell := fun g i =>
      if g = root ∧ i.val < a.globalRootPteRange then 0 else m.cell g i }

/-- `PageTable::restore`, while the processor uses the root `current`. -/
def restore (current root : PhysAddr) (m : Mem) : Mem :=
  let m := a.release root m
  { m with cell := fun g i =>
      if g = root then (a.restored (m.cell current) i).getD (m.cell g i) else m.cell g i }

/-- `PageTableWrapper::alloc`. -/
def alloc (current : PhysAddr) (m : Mem) : Option (PhysAddr × Mem) :=
  match m.alloc with
  | none => none
  | some (root, m) => some (root, a.restore current root m)

/-- `Drop for PageTableWrapper`. -/
def drop (root : PhysAddr) (m : Mem) : Mem := (a.release root m).dealloc 0 root

/-- The first address whose entry in the root is not the user's. -/
def userEnd : Nat := a.globalRootPteRange * 2 ^ (12 + 9 * a.rootLevel)

end Arch

structure Paging where
  mem : Mem
  /-- the roots of the page tables -/
  live : List PhysAddr
  /-- the frames in other hands -/
  lent : List PhysAddr
  /-- `BOOT_PAGE` -/
  boot : PhysAddr
  /-- the root in use -/
  current : PhysAddr

inductive PtEvent where
  | alloc (root : PhysAddr)
  | drop (root : PhysAddr)
  | restore (root : PhysAddr)
  | change (root : PhysAddr)
  | mapPage (root : PhysAddr) (v frame : Nat) (flags : MonkeyOS.MappingFlags)
  | unmapPage (root : PhysAddr) (v : Nat)
  /-- the rest of the kernel takes a frame -/
  | lend (f : PhysAddr)
  | back (f : PhysAddr)
  | poke (f : PhysAddr) (i : Fin 512) (w : BitVec 64)

/-- A call on one of the page tables, or a step of the rest of the kernel. A task that ends changes
to the boot page table before its own is dropped (`entry.rs`). -/
inductive PtStep (a : Arch) : Paging → PtEvent → Paging → Prop where
  | alloc {s : Paging} {root : PhysAddr} {m : Mem} (h : a.alloc s.current s.mem = some (root, m)) :
      PtStep a s (.alloc root) { s with mem := m, live := root :: s.live }
  | drop {s : Paging} {root : PhysAddr} (hr : root ∈ s.live) (hcur : s.current ≠ root) :
      PtStep a s (.drop root) { s with mem := a.drop root s.mem, live := s.live.erase root }
  | restore {s : Paging} {root : PhysAddr} (hr : root ∈ s.live) :
      PtStep a s (.restore root) { s with mem := a.restore s.current root s.mem }
  | change {s : Paging} {root : PhysAddr} (hr : root ∈ s.boot :: s.live) :
      PtStep a s (.change root) { s with current := root }
  | mapPage {s : Paging} {root : PhysAddr} {v frame : Nat} {flags : MonkeyOS.MappingFlags} {m : Mem}
      (hr : root ∈ s.live) (hv : v < a.userEnd) (hframe : frame < 2 ^ 36)
      (h : a.mapPage root v (frameAddr frame) (ofUser flags) s.mem = some m) :
      PtStep a s (.mapPage root v frame flags) { s with mem := m }
  | unmapPage {s : Paging} {root : PhysAddr} {v : Nat} (hr : root ∈ s.live) (hv : v < a.userEnd) :
      PtStep a s (.unmapPage root v) { s with mem := a.unmapPage root v s.mem }
  | lend {s : Paging} {f : PhysAddr} {free : List PhysAddr} (h : s.mem.free.Perm (f :: free)) :
      PtStep a s (.lend f) { s with mem := { s.mem with free := free }, lent := f :: s.lent }
  | back {s : Paging} {f : PhysAddr} (hf : f ∈ s.lent) :
      PtStep a s (.back f) { s with mem := s.mem.dealloc 0 f, lent := s.lent.erase f }
  | poke {s : Paging} {f : PhysAddr} {i : Fin 512} {w : BitVec 64} (hf : f ∈ s.lent) :
      PtStep a s (.poke f i w) { s with mem := s.mem.write f i w }

/-- Before the first page table: the frames are free, and clear. -/
structure Paging.Boot (s : Paging) : Prop where
  live : s.live = []
  lent : s.lent = []
  current : s.current = s.boot
  nodup : s.mem.free.Nodup
  good : ∀ g ∈ s.mem.free, Good g
  cleared : ∀ g ∈ s.mem.free, ∀ i, s.mem.cell g i = 0
  boot_not_free : s.boot ∉ s.mem.free

/-! ## The partial maps above -/

/-- What a page table is for, and the regions of 2 MiB in which a page has been mapped. -/
structure Space where
  pt : PageTable
  touched : List Nat

namespace Space

def empty : Space := ⟨.empty, []⟩

def mapPage (sp : Space) (v frame : Nat) (flags : MonkeyOS.MappingFlags) : Space :=
  ⟨sp.pt.mapPage (floor v) frame flags, v / 2 ^ 21 :: sp.touched⟩

def unmapPage (sp : Space) (v : Nat) : Space := ⟨sp.pt.unmapPage (floor v), sp.touched⟩

/-- What `translate` answers, by target: in a region no page of which was ever mapped nothing, and
elsewhere always something; an unmapped page is the physical page 0. -/
def translate (sp : Space) (t : Target) (v : Nat) : Option (PhysAddr × MappingFlags) :=
  if v / 2 ^ 21 ∈ sp.touched then
    match sp.pt (floor v) with
    | some pte => some (frameAddr pte.frame + BitVec.ofNat 64 (v % pageSize), t.shown pte.flags)
    | none => some (BitVec.ofNat 64 (v % pageSize), t.blank)
  else none

end Space

/-- The partial maps of the page tables, by root. -/
def Spaces := PhysAddr → Option Space

namespace Spaces

def empty : Spaces := fun _ => none

def set (x : Spaces) (root : PhysAddr) (sp : Option Space) : Spaces :=
  fun r => if r = root then sp else x r

def step (x : Spaces) : PtEvent → Spaces
  | .alloc root | .restore root => x.set root (some .empty)
  | .drop root => x.set root none
  | .mapPage root v frame flags => x.set root ((x root).map (·.mapPage v frame flags))
  | .unmapPage root v => x.set root ((x root).map (·.unmapPage v))
  | .change _ | .lend _ | .back _ | .poke _ _ _ => x

end Spaces

/-! ## Indices -/

theorem pnIndex_val (v n : Nat) : (pnIndex v n).val = v / 2 ^ (12 + 9 * n) % 512 := by
  show (v >>> (12 + 9 * n)) &&& (2 ^ 9 - 1) = _
  rw [Nat.and_two_pow_sub_one_eq_mod, Nat.shiftRight_eq_div_pow]

theorem pnOffset_zero (v : Nat) : pnOffset v 0 = v % pageSize := rfl

/-- The digits of two numbers agree where the numbers do. -/
theorem digits_eq_iff {b x y : Nat} (hb : 0 < b) (n : Nat) :
    (∀ m < n, x / b ^ m % b = y / b ^ m % b) ↔ x % b ^ n = y % b ^ n := by
  induction n with
  | zero => simp [Nat.mod_one]
  | succ n ih =>
    have hpos : 0 < b ^ n := Nat.pow_pos hb
    constructor
    · intro h
      rw [Nat.mod_pow_succ, Nat.mod_pow_succ, h n (Nat.lt_succ_self n),
        ih.mp fun m hm => h m (Nat.lt_succ_of_lt hm)]
    · intro h
      have hlow : x % b ^ n = y % b ^ n := by
        have hmod := congrArg (· % b ^ n) h
        simpa only [Nat.mod_mod_of_dvd _ (pow_dvd_pow b (Nat.le_succ n))] using hmod
      rw [Nat.mod_pow_succ, Nat.mod_pow_succ, hlow, Nat.add_left_cancel_iff] at h
      intro m hm
      rcases Nat.lt_succ_iff_lt_or_eq.mp hm with hlt | rfl
      · exact ih.mpr hlow m hlt
      · exact Nat.eq_of_mul_eq_mul_left hpos h

theorem pow_level (k n : Nat) : 2 ^ (k + 9 * n) = 2 ^ k * 512 ^ n := by
  rw [Nat.pow_add, Nat.pow_mul]

variable {r : PhysAddr} {m : Mem} {i : Fin 512} {k v n u : Nat} {s : Paging} {t : Target}
  {base : Fin 512 → BitVec 64} {all : List PhysAddr}

/-- The indices from level `k` on agree, so the addresses do above the bits of the lower levels. -/
theorem indices_eq_iff (hk : k ≤ n) (hu : u < 2 ^ (12 + 9 * (n + 1)))
    (hv : v < 2 ^ (12 + 9 * (n + 1))) :
    (∀ m, k ≤ m → m ≤ n → pnIndex u m = pnIndex v m)
      ↔ u / 2 ^ (12 + 9 * k) = v / 2 ^ (12 + 9 * k) := by
  have hlt : ∀ x, x < 2 ^ (12 + 9 * (n + 1)) →
      x / 2 ^ (12 + 9 * k) % 512 ^ (n + 1 - k) = x / 2 ^ (12 + 9 * k) := by
    intro x hx
    refine Nat.mod_eq_of_lt (Nat.div_lt_of_lt_mul ?_)
    rwa [← pow_level, show 12 + 9 * k + 9 * (n + 1 - k) = 12 + 9 * (n + 1) by omega]
  have hdigit : ∀ x m, (pnIndex x (k + m)).val = x / 2 ^ (12 + 9 * k) / 512 ^ m % 512 := by
    intro x m
    rw [pnIndex_val, Nat.div_div_eq_div_mul, ← pow_level, Nat.mul_add, Nat.add_assoc]
  rw [← hlt u hu, ← hlt v hv, ← digits_eq_iff (by decide)]
  constructor
  · intro h m hm
    rw [← hdigit, ← hdigit, h (k + m) (by omega) (by omega)]
  · intro h m hkm hmn
    obtain ⟨m, rfl⟩ := Nat.exists_eq_add_of_le hkm
    refine Fin.ext ?_
    rw [hdigit, hdigit]
    exact h m (by omega)

/-- All indices of two pages agree, so they are the same page. -/
theorem same_page_iff (hu : u < 2 ^ (12 + 9 * (n + 1))) (hv : v < 2 ^ (12 + 9 * (n + 1))) :
    (∀ m ≤ n, pnIndex u m = pnIndex v m) ↔ floor u = floor v := by
  have hpage := indices_eq_iff n.zero_le hu hv
  simp only [Nat.zero_le, true_implies] at hpage
  exact hpage.trans (Nat.mul_left_inj (by decide)).symm

/-- All indices but the lowest agree, so the pages are in one region of 2 MiB. -/
theorem same_region_iff (hn : 0 < n) (hu : u < 2 ^ (12 + 9 * (n + 1)))
    (hv : v < 2 ^ (12 + 9 * (n + 1))) :
    SameTable n (pnIndex v) (pnIndex u) ↔ u / 2 ^ 21 = v / 2 ^ 21 :=
  indices_eq_iff hn hu hv

theorem mem_take_finRange {i : Fin n} : i ∈ (List.finRange n).take k ↔ i.val < k := by
  rw [List.mem_take_iff_getElem]
  constructor
  · rintro ⟨j, hj, hget⟩
    rw [List.getElem_finRange] at hget
    rw [← hget]
    exact lt_of_lt_of_le hj (Nat.min_le_left _ _)
  · intro hi
    refine ⟨i.val, ?_, ?_⟩
    · rw [List.length_finRange]
      exact lt_min hi i.isLt
    · rw [List.getElem_finRange]
      rfl

/-! ## What the targets have in common -/

namespace Target

variable (t : Target)

theorem rootLevel_pos : 0 < t.arch.rootLevel := by
  cases t <;> exact Nat.le_of_ble_eq_true rfl

theorem range_le : t.arch.globalRootPteRange ≤ 512 := by
  cases t <;> exact Nat.le_of_ble_eq_true rfl

theorem le_userEnd : 2 ^ 38 ≤ t.arch.userEnd := by
  have hlevel : 2 ≤ t.arch.rootLevel := by cases t <;> exact Nat.le_of_ble_eq_true rfl
  have hrange : 256 ≤ t.arch.globalRootPteRange := by cases t <;> exact Nat.le_of_ble_eq_true rfl
  calc 2 ^ 38
      = 256 * 2 ^ (12 + 9 * 2) := by decide
    _ ≤ t.arch.userEnd :=
        Nat.mul_le_mul hrange (Nat.pow_le_pow_right (by decide) (by omega))

theorem userEnd_lt : t.arch.userEnd < 2 ^ 64 := by
  have hlevel : t.arch.rootLevel ≤ 3 := by cases t <;> exact Nat.le_of_ble_eq_true rfl
  calc t.arch.userEnd
      ≤ 512 * 2 ^ (12 + 9 * 3) :=
        Nat.mul_le_mul t.range_le (Nat.pow_le_pow_right (by decide) (by omega))
    _ < 2 ^ 64 := by decide

theorem nodup_scan (n : Nat) : (t.arch.scan n).Nodup := by
  unfold Arch.scan
  split_ifs
  · exact (List.nodup_finRange 512).sublist (List.take_sublist _ _)
  · exact List.nodup_finRange 512

theorem mem_scan_root {i : Fin 512} :
    i ∈ t.arch.scan t.arch.rootLevel ↔ i.val < t.arch.globalRootPteRange := by
  unfold Arch.scan
  rw [if_pos rfl]
  exact mem_take_finRange

theorem lt_of_user {v : Nat} (hv : v < t.arch.userEnd) :
    v < 2 ^ (12 + 9 * (t.arch.rootLevel + 1)) := by
  refine lt_of_lt_of_le hv ?_
  have hpow : 2 ^ (12 + 9 * (t.arch.rootLevel + 1)) = 512 * 2 ^ (12 + 9 * t.arch.rootLevel) := by
    rw [show 12 + 9 * (t.arch.rootLevel + 1) = 9 + (12 + 9 * t.arch.rootLevel) by omega,
      Nat.pow_add 2 9]
  rw [hpow]
  exact Nat.mul_le_mul_right _ t.range_le

theorem inScan {v : Nat} (hv : v < t.arch.userEnd) :
    InScan t.arch.scan t.arch.rootLevel (pnIndex v) := by
  intro m _
  by_cases hm : m = t.arch.rootLevel
  · rw [hm, t.mem_scan_root, pnIndex_val]
    refine lt_of_le_of_lt (Nat.mod_le _ _) ?_
    exact Nat.div_lt_of_lt_mul (by rwa [Nat.mul_comm])
  · unfold Arch.scan
    rw [if_neg hm]
    exact List.mem_finRange _

/-- `restore` leaves the user's entries of the root clear. -/
theorem restored_user (current : Fin 512 → BitVec 64) {i : Fin 512}
    (hi : i.val < t.arch.globalRootPteRange) : (t.arch.restored current i).getD 0 = 0 := by
  cases t with
  | riscv64 =>
    show (if 0x100 ≤ i.val then some (current i) else some 0).getD 0 = 0
    rw [if_neg (show ¬0x100 ≤ i.val from not_le.mpr hi)]
    rfl
  | loongarch64 => rfl
  | x64 boot =>
    show (if i.val = 0x100 then some (boot ||| 0x3#64) else none).getD 0 = 0
    rw [if_neg (show ¬i.val = 0x100 from Nat.ne_of_lt hi)]
    rfl
  | aarch64 => rfl

end Target

/-! ## One table -/

section Table

variable {t : Target} {m m' : Mem} {r : PhysAddr} {v : Nat} {sp : Space}

/-- The entry of a page in the partial map. -/
def Arch.entryOf (a : Arch) : Option PTE → BitVec 64
  | none => 0
  | some pte => a.page (frameAddr pte.frame) pte.flags

/-- The table with root `r` holds the pages of `sp`. -/
structure Shows (t : Target) (m : Mem) (r : PhysAddr) (sp : Space) : Prop where
  entry : ∀ v < t.arch.userEnd, t.arch.format.entry m.cell (pnIndex v) t.arch.rootLevel r
    = t.arch.entryOf (sp.pt (floor v))
  find : ∀ v < t.arch.userEnd,
    (t.arch.format.find m.cell (pnIndex v) t.arch.rootLevel r).isSome ↔ v / 2 ^ 21 ∈ sp.touched
  frames : ∀ v pte, sp.pt v = some pte → pte.frame < 2 ^ 36

theorem Shows.congr (h : Shows t m r sp)
    (hcell : ∀ g ∈ tree t.arch.format t.arch.scan m.cell t.arch.rootLevel r,
      m'.cell g = m.cell g) : Shows t m' r sp where
  entry v hv := (entry_congr hcell (t.inScan hv)).trans (h.entry v hv)
  find v hv := by
    rw [find_congr hcell (t.inScan hv)]
    exact h.find v hv
  frames := h.frames

theorem Shows.of_bare (hbare : Bare t.arch.format t.arch.scan m.cell t.arch.rootLevel r) :
    Shows t m r .empty where
  entry v hv := by
    unfold Format.entry
    rw [hbare.find_eq t.rootLevel_pos t.lawful (t.inScan hv)]
    rfl
  find v hv := by
    rw [hbare.find_eq t.rootLevel_pos t.lawful (t.inScan hv)]
    exact iff_of_false Bool.false_ne_true List.not_mem_nil
  frames _ _ h := by cases h

/-- `translate` answers from the partial map. -/
theorem Shows.translate (h : Shows t m r sp) (hv : v < t.arch.userEnd) :
    t.arch.translate r v m = sp.translate t v := by
  have hentry := h.entry v hv
  have hfind := h.find v hv
  unfold Arch.translate Space.translate
  unfold Format.entry at hentry
  cases hf : t.arch.format.find m.cell (pnIndex v) t.arch.rootLevel r with
  | none =>
    rw [hf] at hfind
    rw [if_neg fun htouched => Bool.false_ne_true (hfind.mpr htouched)]
  | some tbl =>
    rw [hf] at hfind hentry
    rw [if_pos (hfind.mp rfl)]
    dsimp only at hentry ⊢
    rw [hentry, pnOffset_zero]
    cases hpt : sp.pt (floor v) with
    | none =>
      show some (t.arch.address 0 + _, t.arch.toMapping (t.arch.flags 0)) = _
      rw [t.address_zero, t.flags_zero, BitVec.ofNat_eq_ofNat, BitVec.zero_add]
    | some pte =>
      have haligned := aligned_frameAddr (h.frames _ _ hpt)
      show some (t.arch.address (t.arch.page _ _) + _,
        t.arch.toMapping (t.arch.flags (t.arch.page _ _))) = _
      rw [t.address_page haligned, t.flags_page haligned]

/-- It answers at all in a region where a page has been mapped once, whatever is mapped now. -/
theorem Shows.translate_isSome (h : Shows t m r sp) (hv : v < t.arch.userEnd) :
    (t.arch.translate r v m).isSome = decide (v / 2 ^ 21 ∈ sp.touched) := by
  rw [h.translate hv]
  unfold Space.translate
  split
  · rename_i htouched
    rw [decide_eq_true htouched]
    cases sp.pt (floor v) <;> rfl
  · rename_i htouched
    rw [decide_eq_false htouched]
    rfl

/-- Writing the entry of a page that has a table. -/
theorem Shows.write {m₁ : Mem} {pt' : PageTable} {touched' : List Nat} {w : BitVec 64}
    (h : Shows t m r sp) (hv : v < t.arch.userEnd)
    (hwritten : Written t.arch.format Good t.arch.scan m₁ m' t.arch.rootLevel r (pnIndex v) w)
    (hentry : ∀ u < t.arch.userEnd, t.arch.format.entry m₁.cell (pnIndex u) t.arch.rootLevel r
      = t.arch.format.entry m.cell (pnIndex u) t.arch.rootLevel r)
    (hfind : ∀ u < t.arch.userEnd,
      ((t.arch.format.find m₁.cell (pnIndex u) t.arch.rootLevel r).isSome ↔ u / 2 ^ 21 ∈ touched'))
    (hpt : ∀ u, t.arch.entryOf (pt' (floor u))
      = if floor u = floor v then w else t.arch.entryOf (sp.pt (floor u)))
    (hframes : ∀ u pte, pt' u = some pte → pte.frame < 2 ^ 36) : Shows t m' r ⟨pt', touched'⟩ where
  entry u hu := by
    rw [hwritten.entry _ (t.inScan hu), hpt, hentry u hu, h.entry u hu]
    exact if_congr (same_page_iff (t.lt_of_user hu) (t.lt_of_user hv)) rfl rfl
  find u hu := by
    rw [hwritten.find _ (t.inScan hu)]
    exact hfind u hu
  frames := hframes

theorem mapPage_shows {frame : Nat} {flags : MonkeyOS.MappingFlags} (h : Shows t m r sp)
    (howned : Owned t.arch.format Good t.arch.scan m t.arch.rootLevel r) (hv : v < t.arch.userEnd)
    (hframe : frame < 2 ^ 36)
    (hmap : t.arch.mapPage r v (frameAddr frame) (ofUser flags) m = some m') :
    Confined t.arch.format Good t.arch.scan m m' t.arch.rootLevel r
      ∧ Shows t m' r (sp.mapPage v frame flags) := by
  unfold Arch.mapPage at hmap
  cases hmake : t.arch.format.make (pnIndex v) t.arch.rootLevel r m with
  | none =>
    rw [hmake] at hmap
    cases hmap
  | some res =>
    obtain ⟨tbl, m₁⟩ := res
    rw [hmake] at hmap
    obtain rfl := Option.some.inj hmap
    obtain ⟨hgrown, htbl⟩ := make_grown t.lawful t.nodup_scan howned (t.inScan hv) hmake
    have hwritten := write_leaf (w := t.arch.page (frameAddr frame) flags) t.lawful t.nodup_scan
      (hgrown.toConfined.owned howned) (t.inScan hv) htbl
    refine ⟨hgrown.toConfined.trans howned hwritten.toConfined, ?_⟩
    refine h.write hv hwritten (fun u hu => hgrown.entry _ (t.inScan hu)) (fun u hu => ?_)
      (fun u => ?_) fun u pte hpte => ?_
    · rw [hgrown.find _ (t.inScan hu), h.find u hu,
        same_region_iff t.rootLevel_pos (t.lt_of_user hu) (t.lt_of_user hv), List.mem_cons, Or.comm]
    · unfold PageTable.mapPage
      split_ifs <;> rfl
    · unfold PageTable.mapPage at hpte
      split_ifs at hpte
      · cases hpte
        exact hframe
      · exact h.frames u pte hpte

/-- A call needs a frame for every level below the root at most. -/
theorem mapPage_isSome {a : Arch} {paddr : PhysAddr} {flags : MappingFlags}
    (hfree : a.rootLevel ≤ m.free.length) : (a.mapPage r v paddr flags m).isSome := by
  have hmake : (a.format.make (pnIndex v) a.rootLevel r m).isSome := make_isSome hfree
  obtain ⟨res, hres⟩ := Option.isSome_iff_exists.mp hmake
  unfold Arch.mapPage
  rw [hres]
  rfl

theorem unmapPage_shows (h : Shows t m r sp)
    (howned : Owned t.arch.format Good t.arch.scan m t.arch.rootLevel r) (hv : v < t.arch.userEnd) :
    Confined t.arch.format Good t.arch.scan m (t.arch.unmapPage r v m) t.arch.rootLevel r
      ∧ Shows t (t.arch.unmapPage r v m) r (sp.unmapPage v) := by
  have hframes : ∀ u pte, sp.pt.unmapPage (floor v) u = some pte → pte.frame < 2 ^ 36 := by
    intro u pte hpte
    unfold PageTable.unmapPage at hpte
    split_ifs at hpte
    exact h.frames u pte hpte
  have hpt : ∀ u, t.arch.entryOf (sp.pt.unmapPage (floor v) (floor u))
      = if floor u = floor v then 0 else t.arch.entryOf (sp.pt (floor u)) := by
    intro u
    unfold PageTable.unmapPage
    split_ifs <;> rfl
  unfold Arch.unmapPage
  cases hfind : t.arch.format.find m.cell (pnIndex v) t.arch.rootLevel r with
  | none =>
    -- nothing is there to unmap
    refine ⟨.refl howned, ⟨fun u hu => ?_, h.find, hframes⟩⟩
    show _ = t.arch.entryOf (sp.pt.unmapPage (floor v) (floor u))
    rw [hpt, h.entry u hu]
    by_cases hsame : floor u = floor v
    · rw [if_pos hsame, hsame, ← h.entry v hv]
      unfold Format.entry
      rw [hfind]
      rfl
    · rw [if_neg hsame]
  | some tbl =>
    have hwritten := write_leaf (w := (0 : BitVec 64)) t.lawful t.nodup_scan howned (t.inScan hv)
      hfind
    exact ⟨hwritten.toConfined, h.write hv hwritten (fun u _ => rfl) h.find hpt hframes⟩

end Table

/-! ## Giving the tables back -/

section Release

variable {t : Target} {m : Mem} {r : PhysAddr}

theorem release_pruned (howned : Owned t.arch.format Good t.arch.scan m t.arch.rootLevel r) :
    Pruned t.arch.format t.arch.scan m (t.arch.release r m) t.arch.rootLevel r := by
  have hfreed := dropBelow_freed t.lawful howned.wf howned.nodup.of_append_left
  refine ⟨hfreed.free, fun g hg j => ?_, fun g hg => funext fun j => ?_, fun i hi => ?_⟩
  · show (if g = r ∧ j.val < t.arch.globalRootPteRange then 0 else _) = _
    rw [hfreed.cell, if_pos hg]
    exact ite_self _
  · have hne : g ≠ r := fun heq => hg (heq ▸ List.mem_cons_self)
    show (if g = r ∧ j.val < t.arch.globalRootPteRange then 0 else _) = _
    rw [if_neg fun hand => hne hand.1, hfreed.cell,
      if_neg fun hmem => hg (List.mem_cons_of_mem _ hmem)]
  · exact if_pos ⟨rfl, t.mem_scan_root.mp hi⟩

theorem restore_pruned (current : PhysAddr)
    (howned : Owned t.arch.format Good t.arch.scan m t.arch.rootLevel r) :
    Pruned t.arch.format t.arch.scan m (t.arch.restore current r m) t.arch.rootLevel r := by
  have hp := release_pruned howned
  have hother : ∀ g, g ≠ r → (t.arch.restore current r m).cell g = (t.arch.release r m).cell g :=
    fun g hg => funext fun j => if_neg hg
  refine ⟨hp.free, fun g hg j => ?_, fun g hg => ?_, fun i hi => ?_⟩
  · have hne : g ≠ r := by
      rintro rfl
      exact (List.nodup_cons.mp howned.nodup.of_append_left).1 hg
    rw [hother g hne]
    exact hp.cleared g hg j
  · rw [hother g fun heq => hg (heq ▸ List.mem_cons_self)]
    exact hp.frame g hg
  · show (if r = r then (t.arch.restored ((t.arch.release r m).cell current) i).getD
      ((t.arch.release r m).cell r i) else _) = _
    rw [if_pos rfl, hp.bare i hi]
    exact t.restored_user _ (t.mem_scan_root.mp hi)

end Release

/-! ## All of them -/

/-- The page tables are trees apart from each other, and hold what the partial maps say. -/
structure Models (t : Target) (all : List PhysAddr) (s : Paging) (x : Spaces) : Prop where
  forest : Forest t.arch.format Good t.arch.scan s.mem t.arch.rootLevel s.live s.lent all
  live : ∀ r, (x r).isSome ↔ r ∈ s.live
  holds : ∀ r sp, x r = some sp → Shows t s.mem r sp

namespace Models

variable {t : Target} {all : List PhysAddr} {s : Paging} {x : Spaces} {r : PhysAddr} {m : Mem}

theorem exists_space (h : Models t all s x) (hr : r ∈ s.live) : ∃ sp, x r = some sp :=
  Option.isSome_iff_exists.mp ((h.live r).mpr hr)

/-- A call on the table `r` that leaves the others alone. -/
theorem set_space {live : List PhysAddr} {sp : Option Space} (h : Models t all s x)
    (hforest : Forest t.arch.format Good t.arch.scan m t.arch.rootLevel live s.lent all)
    (hroot : sp.isSome ↔ r ∈ live) (hlive : ∀ q, q ≠ r → (q ∈ s.live ↔ q ∈ live))
    (hagree : ∀ q ∈ s.live, q ≠ r →
      ∀ g ∈ tree t.arch.format t.arch.scan s.mem.cell t.arch.rootLevel q, m.cell g = s.mem.cell g)
    (hshows : ∀ sp', sp = some sp' → Shows t m r sp') :
    Models t all { s with mem := m, live := live } (x.set r sp) where
  forest := hforest
  live q := by
    show ((if q = r then sp else x q).isSome = true ↔ q ∈ live)
    by_cases hq : q = r
    · rw [if_pos hq, hq, hroot]
    · rw [if_neg hq, h.live q, hlive q hq]
  holds q sp' hq := by
    change (if q = r then sp else x q) = some sp' at hq
    by_cases hne : q = r
    · rw [if_pos hne] at hq
      exact hne ▸ hshows sp' hq
    · rw [if_neg hne] at hq
      exact (h.holds q sp' hq).congr (hagree q ((h.live q).mp (hq ▸ rfl)) hne)

/-- What the rest of the kernel does changes no tree. -/
theorem of_agree {lent : List PhysAddr} {current : PhysAddr} (h : Models t all s x)
    (hforest : Forest t.arch.format Good t.arch.scan m t.arch.rootLevel s.live lent all)
    (hagree : ∀ q ∈ s.live,
      ∀ g ∈ tree t.arch.format t.arch.scan s.mem.cell t.arch.rootLevel q, m.cell g = s.mem.cell g) :
    Models t all { s with mem := m, lent := lent, current := current } x where
  forest := hforest
  live := h.live
  holds q sp hq := (h.holds q sp hq).congr (hagree q ((h.live q).mp (hq ▸ rfl)))

theorem confined {sp : Space} (h : Models t all s x) (hr : r ∈ s.live)
    (hc : Confined t.arch.format Good t.arch.scan s.mem m t.arch.rootLevel r)
    (hshows : Shows t m r sp) : Models t all { s with mem := m } (x.set r (some sp)) :=
  h.set_space (h.forest.confined hr hc t.lawful) (iff_of_true rfl hr) (fun _ _ => .rfl)
    (fun _ hq hne => h.forest.confined_agree hr hc hq hne) fun _ heq => Option.some.inj heq ▸ hshows

theorem mapPage {v frame : Nat} {flags : MonkeyOS.MappingFlags} (h : Models t all s x)
    (hr : r ∈ s.live) (hv : v < t.arch.userEnd) (hframe : frame < 2 ^ 36)
    (hmap : t.arch.mapPage r v (frameAddr frame) (ofUser flags) s.mem = some m) :
    Models t all { s with mem := m } (x.step (.mapPage r v frame flags)) := by
  obtain ⟨sp, hsp⟩ := h.exists_space hr
  obtain ⟨hc, hshows⟩ :=
    mapPage_shows (h.holds r sp hsp) (h.forest.owned hr) hv hframe hmap
  show Models t all _ (x.set r ((x r).map _))
  rw [hsp]
  exact h.confined hr hc hshows

theorem unmapPage {v : Nat} (h : Models t all s x) (hr : r ∈ s.live) (hv : v < t.arch.userEnd) :
    Models t all { s with mem := t.arch.unmapPage r v s.mem } (x.step (.unmapPage r v)) := by
  obtain ⟨sp, hsp⟩ := h.exists_space hr
  obtain ⟨hc, hshows⟩ := unmapPage_shows (h.holds r sp hsp) (h.forest.owned hr) hv
  show Models t all _ (x.set r ((x r).map _))
  rw [hsp]
  exact h.confined hr hc hshows

theorem restore (h : Models t all s x) (hr : r ∈ s.live) :
    Models t all { s with mem := t.arch.restore s.current r s.mem } (x.step (.restore r)) := by
  have hp := restore_pruned s.current (h.forest.owned hr)
  exact h.set_space (h.forest.prune hr hp t.rootLevel_pos t.lawful) (iff_of_true rfl hr)
    (fun _ _ => .rfl) (fun _ hq hne => h.forest.prune_agree hr hp hq hne)
    fun _ heq => Option.some.inj heq ▸ .of_bare hp.bare

/-- A new table stands on a frame that was free: the frame becomes a root, then `restore` runs
on it. -/
theorem alloc_planted (h : Models t all s x)
    (halloc : t.arch.alloc s.current s.mem = some (r, m)) :
    ∃ free, s.mem.free = r :: free ∧ m = t.arch.restore s.current r { s.mem with free := free }
      ∧ Forest t.arch.format Good t.arch.scan { s.mem with free := free } t.arch.rootLevel
        (r :: s.live) s.lent all := by
  unfold Arch.alloc Store.alloc at halloc
  cases hfree : s.mem.free with
  | nil =>
    rw [hfree] at halloc
    cases halloc
  | cons f free =>
    rw [hfree] at halloc
    obtain ⟨rfl, rfl⟩ := Prod.mk.inj (Option.some.inj halloc)
    have hr : f ∈ s.mem.free := hfree ▸ List.mem_cons_self
    have hbare : Bare t.arch.format t.arch.scan s.mem.cell t.arch.rootLevel f :=
      fun i _ => h.forest.cleared f hr i
    have hlent : Forest t.arch.format Good t.arch.scan { s.mem with free := free } t.arch.rootLevel
        s.live (f :: s.lent) all := h.forest.lend t.lawful rfl (.of_eq hfree)
    exact ⟨free, rfl, rfl,
      (Bare.plant_iff (s := { s.mem with free := free }) hbare t.rootLevel_pos t.lawful).mpr hlent⟩

theorem alloc (h : Models t all s x) (halloc : t.arch.alloc s.current s.mem = some (r, m)) :
    Models t all { s with mem := m, live := r :: s.live } (x.step (.alloc r)) := by
  obtain ⟨free, -, rfl, hplanted⟩ := h.alloc_planted halloc
  have hp := restore_pruned s.current (hplanted.owned List.mem_cons_self)
  refine h.set_space (hplanted.prune List.mem_cons_self hp t.rootLevel_pos t.lawful)
    (iff_of_true rfl List.mem_cons_self) (fun q hq => ?_) (fun q hq hne => ?_)
    fun _ heq => Option.some.inj heq ▸ .of_bare hp.bare
  · rw [List.mem_cons, or_iff_right hq]
  · exact hplanted.prune_agree List.mem_cons_self hp (List.mem_cons_of_mem _ hq) hne

theorem drop (h : Models t all s x) (hr : r ∈ s.live) :
    Models t all { s with mem := t.arch.drop r s.mem, live := s.live.erase r }
      (x.step (.drop r)) := by
  have hp := release_pruned (h.forest.owned hr)
  have hpruned := h.forest.prune hr hp t.rootLevel_pos t.lawful
  have hroots := hpruned.perm_roots (List.perm_cons_erase hr) t.lawful
  have hlent := (hp.bare.plant_iff t.rootLevel_pos t.lawful).mp hroots
  have hforest := hlent.back t.lawful (.refl _)
  have hroot : r ∉ s.live.erase r := h.forest.nodup_roots.not_mem_erase
  refine h.set_space hforest (iff_of_false Bool.false_ne_true hroot)
    (fun q hq => (List.mem_erase_of_ne hq).symm) (fun q hq hne g hg => ?_) fun _ heq => nomatch heq
  have hgr : g ≠ r := fun heq => h.forest.apart hr hq hne hg (heq ▸ List.mem_cons_self)
  exact .trans (funext fun _ => if_neg hgr) (h.forest.prune_agree hr hp hq hne g hg)

end Models

theorem models_step (t : Target) (s : Paging) (ev : PtEvent) (s' : Paging) (x : Spaces)
    (h : Models t all s x) (hstep : PtStep t.arch s ev s') :
    Models t all s' (x.step ev) := by
  cases hstep with
  | alloc halloc => exact h.alloc halloc
  | drop hr _ => exact h.drop hr
  | restore hr => exact h.restore hr
  | change _ => exact ⟨h.forest, h.live, h.holds⟩
  | mapPage hr hv hframe hmap => exact h.mapPage hr hv hframe hmap
  | unmapPage hr hv => exact h.unmapPage hr hv
  | lend hfree => exact h.of_agree (h.forest.lend t.lawful rfl hfree) fun _ _ _ _ => rfl
  | @back f hf =>
    refine h.of_agree (h.forest.back t.lawful (List.perm_cons_erase hf)) fun q hq g hg => ?_
    have hne : g ≠ f := fun heq =>
      h.forest.not_free hq hg (List.mem_append_left _ (heq ▸ hf))
    exact funext fun _ => if_neg hne
  | @poke f i w hf =>
    have hother : ∀ g, g ∉ s.lent → (s.mem.write f i w).cell g = s.mem.cell g :=
      fun g hg => Store.write_of_ne _ _ _ fun heq => hg (heq ▸ hf)
    refine h.of_agree (h.forest.others t.lawful hother (.refl _)) fun q hq g hg => ?_
    exact hother g fun hlent => h.forest.not_free hq hg (List.mem_append_left _ hlent)

theorem models_boot (t : Target) (h : s.Boot) :
    Models t s.mem.free s .empty where
  forest := by
    rw [h.live, h.lent]
    exact .init h.nodup h.good h.cleared
  live r := by
    rw [h.live]
    exact iff_of_false Bool.false_ne_true List.not_mem_nil
  holds _ _ hr := by cases hr

theorem models_run (t : Target) {s₀ : Paging} {evs : List PtEvent} (hboot : s₀.Boot)
    (hrun : Run (PtStep t.arch) s₀ evs s) :
    Models t s₀.mem.free s (evs.foldl Spaces.step .empty) :=
  hrun.simulates (fun s ev s' x h hstep => models_step t s ev s' x h hstep) (models_boot t hboot)

/-! ## The kernel's entries -/

/-- What `restore` leaves in an entry of the root that is not the user's, where the boot page table
has the entries `base`. -/
def Target.kernelEntry (t : Target) (base : Fin 512 → BitVec 64) (i : Fin 512) : BitVec 64 :=
  (t.arch.restored base i).getD 0

/-- A copy of a copy is a copy of the boot page table's. -/
theorem Target.restored_kernel (t : Target) {cur : Fin 512 → BitVec 64} {w : BitVec 64}
    (hcur : cur i = base i ∨ cur i = t.kernelEntry base i) (hi : t.arch.globalRootPteRange ≤ i.val)
    (hw : w = 0 ∨ w = t.kernelEntry base i) :
    (t.arch.restored cur i).getD w = t.kernelEntry base i := by
  cases t with
  | riscv64 =>
    have hrestored : ∀ c : Fin 512 → BitVec 64,
        Target.riscv64.arch.restored c i = some (c i) := fun c => if_pos hi
    unfold kernelEntry at hcur ⊢
    rw [hrestored] at hcur ⊢
    rw [hrestored]
    exact hcur.elim id id
  | loongarch64 => exact hw.elim id id
  | x64 boot =>
    show ((if i.val = 0x100 then some (boot ||| 0x3#64) else none).getD w) =
      (if i.val = 0x100 then some (boot ||| 0x3#64) else none).getD 0
    change w = 0 ∨ w = (if i.val = 0x100 then some (boot ||| 0x3#64) else none).getD 0 at hw
    split_ifs at hw ⊢
    · rfl
    · exact hw.elim id id
  | aarch64 => exact hw.elim id id

/-- The boot page table is as it was, and every other has the kernel's entries. -/
structure KernelHalf (t : Target) (all : List PhysAddr) (base : Fin 512 → BitVec 64) (s : Paging) :
    Prop where
  boot_not : s.boot ∉ all
  boot : s.mem.cell s.boot = base
  current : s.current ∈ s.boot :: s.live
  live : ∀ r ∈ s.live, ∀ i : Fin 512, t.arch.globalRootPteRange ≤ i.val →
    s.mem.cell r i = t.kernelEntry base i

namespace KernelHalf

variable {t : Target} {all : List PhysAddr} {s : Paging} {x : Spaces} {r q : PhysAddr}
  {base : Fin 512 → BitVec 64} {m : Mem}

/-- The root of another table is in nobody else's hands. -/
theorem outside (h : KernelHalf t all base s) (hmod : Models t all s x)
    (hq : q ∈ s.boot :: s.live) :
    q ∉ s.lent ++ s.mem.free ∧ ∀ r ∈ s.live, q ≠ r →
      q ∉ tree t.arch.format t.arch.scan s.mem.cell t.arch.rootLevel r := by
  rcases List.mem_cons.mp hq with rfl | hq
  · refine ⟨fun hmem => h.boot_not ?_, fun r hr _ hmem => h.boot_not ?_⟩
    · exact hmod.forest.perm.subset (List.mem_append_right _ hmem)
    · refine hmod.forest.perm.subset (List.mem_append_left _ ?_)
      exact List.mem_flatMap.mpr ⟨r, hr, hmem⟩
  · exact ⟨hmod.forest.not_free hq List.mem_cons_self,
      fun r hr hne => hmod.forest.apart hr hq hne List.mem_cons_self⟩

/-- The entries are kept where a call leaves the other roots and the kernel's entries alone. -/
theorem of_agree {s' : Paging} (h : KernelHalf t all base s) (hboot : s'.boot = s.boot)
    (hcurrent : s'.current ∈ s'.boot :: s'.live) (hlive : s'.live ⊆ s.live)
    (hroot : s'.mem.cell s.boot = s.mem.cell s.boot)
    (hagree : ∀ q ∈ s'.live, ∀ i : Fin 512, t.arch.globalRootPteRange ≤ i.val →
      s'.mem.cell q i = s.mem.cell q i) : KernelHalf t all base s' where
  boot_not := hboot ▸ h.boot_not
  boot := by rw [hboot, hroot, h.boot]
  current := hcurrent
  live q hq i hi := (hagree q hq i hi).trans (h.live q (hlive hq) i hi)

/-- What the rest of the kernel does changes no root. -/
theorem of_others {lent : List PhysAddr} (h : KernelHalf t all base s)
    (hother : ∀ q ∈ s.boot :: s.live, m.cell q = s.mem.cell q) :
    KernelHalf t all base { s with mem := m, lent := lent } :=
  h.of_agree rfl h.current (List.Subset.refl _) (hother _ List.mem_cons_self)
    fun q hq i _ => congrFun (hother q (List.mem_cons_of_mem _ hq)) i

theorem boot_ne (h : KernelHalf t all base s) (hmod : Models t all s x) (hr : r ∈ s.live) :
    s.boot ≠ r := by
  rintro rfl
  refine h.boot_not (hmod.forest.perm.subset (List.mem_append_left _ ?_))
  exact List.mem_flatMap.mpr ⟨_, hr, List.mem_cons_self⟩

theorem confined (h : KernelHalf t all base s) (hmod : Models t all s x) (hr : r ∈ s.live)
    (hc : Confined t.arch.format Good t.arch.scan s.mem m t.arch.rootLevel r) :
    KernelHalf t all base { s with mem := m } := by
  have hother : ∀ q ∈ s.boot :: s.live, q ≠ r → m.cell q = s.mem.cell q := by
    intro q hq hne
    obtain ⟨hfree, htree⟩ := h.outside hmod hq
    exact hc.outside (htree r hr hne) fun hmem => hfree (List.mem_append_right _ hmem)
  refine h.of_agree rfl h.current (List.Subset.refl _)
    (hother _ List.mem_cons_self (h.boot_ne hmod hr)) fun q hq i hi => ?_
  by_cases hne : q = r
  · rw [hne]
    exact hc.spare i fun hmem => absurd (t.mem_scan_root.mp hmem) (not_lt.mpr hi)
  · exact congrFun (hother q (List.mem_cons_of_mem _ hq) hne) i

theorem current_entry (h : KernelHalf t all base s) {i : Fin 512}
    (hi : t.arch.globalRootPteRange ≤ i.val) :
    s.mem.cell s.current i = base i ∨ s.mem.cell s.current i = t.kernelEntry base i := by
  rcases List.mem_cons.mp h.current with heq | hmem
  · rw [heq, h.boot]
    exact .inl rfl
  · exact .inr (h.live _ hmem i hi)

end KernelHalf

/-- `release` leaves the entries of the root that are not the user's. -/
theorem release_kernel (howned : Owned t.arch.format Good t.arch.scan m t.arch.rootLevel r)
    (hi : t.arch.globalRootPteRange ≤ i.val) :
    (t.arch.release r m).cell r i = m.cell r i := by
  have hfreed := dropBelow_freed t.lawful howned.wf howned.nodup.of_append_left
  show (if r = r ∧ i.val < t.arch.globalRootPteRange then 0 else _) = _
  rw [if_neg fun hand => absurd hand.2 (not_lt.mpr hi), hfreed.cell,
    if_neg (List.nodup_cons.mp howned.nodup.of_append_left).1]

/-- `restore` puts the kernel's entries into the root. -/
theorem restore_kernel {current : PhysAddr}
    (howned : Owned t.arch.format Good t.arch.scan m t.arch.rootLevel r)
    (hi : t.arch.globalRootPteRange ≤ i.val) (hcur : (t.arch.release r m).cell current i = base i
      ∨ (t.arch.release r m).cell current i = t.kernelEntry base i)
    (hr : m.cell r i = 0 ∨ m.cell r i = t.kernelEntry base i) :
    (t.arch.restore current r m).cell r i = t.kernelEntry base i := by
  show (if r = r then (t.arch.restored ((t.arch.release r m).cell current) i).getD
    ((t.arch.release r m).cell r i) else _) = _
  rw [if_pos rfl]
  refine t.restored_kernel hcur hi ?_
  rw [release_kernel howned hi]
  exact hr

/-- `restore` on a table whose tree has no other root in it. -/
theorem KernelHalf.restored {live free : List PhysAddr} (h : KernelHalf t all base s)
    (howned : Owned t.arch.format Good t.arch.scan { s.mem with free := free } t.arch.rootLevel r)
    (hnot : ∀ q ∈ s.boot :: s.live, q ≠ r →
      q ∉ tree t.arch.format t.arch.scan s.mem.cell t.arch.rootLevel r) (hboot : s.boot ≠ r)
    (hroot : ∀ i : Fin 512, t.arch.globalRootPteRange ≤ i.val →
      s.mem.cell r i = 0 ∨ s.mem.cell r i = t.kernelEntry base i)
    (hlive : ∀ q ∈ live, q = r ∨ q ∈ s.live) (hsub : s.live ⊆ live) :
    KernelHalf t all base { s with
      mem := t.arch.restore s.current r { s.mem with free := free }, live := live } := by
  have hother : ∀ q ∈ s.boot :: s.live, q ≠ r →
      (t.arch.restore s.current r { s.mem with free := free }).cell q = s.mem.cell q :=
    fun q hq hne => (restore_pruned s.current howned).frame q (hnot q hq hne)
  refine ⟨h.boot_not, (hother _ List.mem_cons_self hboot).trans h.boot,
    List.cons_subset_cons _ hsub h.current, fun q hq i hi => ?_⟩
  by_cases hqr : q = r
  · subst hqr
    refine restore_kernel howned hi ?_ (hroot i hi)
    have hcur : (t.arch.release q { s.mem with free := free }).cell s.current i
        = s.mem.cell s.current i := by
      by_cases hcq : s.current = q
      · rw [hcq, release_kernel howned hi]
      · rw [(release_pruned howned).frame _ (hnot _ h.current hcq)]
    rw [hcur]
    exact h.current_entry hi
  · have hq := (hlive q hq).resolve_left hqr
    exact (congrFun (hother q (List.mem_cons_of_mem _ hq) hqr) i).trans (h.live q hq i hi)

theorem kernelHalf_step (t : Target) {s' : Paging} {ev : PtEvent} {x : Spaces}
    (h : KernelHalf t all base s) (hmod : Models t all s x)
    (hstep : PtStep t.arch s ev s') : KernelHalf t all base s' := by
  cases hstep with
  | @alloc root m halloc =>
    obtain ⟨free, hcons, rfl, hplanted⟩ := hmod.alloc_planted halloc
    have hfree : root ∈ s.mem.free := hcons ▸ List.mem_cons_self
    have htree : tree t.arch.format t.arch.scan s.mem.cell t.arch.rootLevel root = [root] :=
      Bare.tree_eq (fun i _ => hmod.forest.cleared root hfree i) t.rootLevel_pos t.lawful
    refine h.restored (hplanted.owned List.mem_cons_self) (fun q _ hne => ?_) ?_
      (fun i _ => .inl (hmod.forest.cleared root hfree i)) (fun _ => List.mem_cons.mp)
      (List.subset_cons_self _ _)
    · rw [htree, List.mem_singleton]
      exact hne
    · rintro rfl
      exact (h.outside hmod List.mem_cons_self).1 (List.mem_append_right _ hfree)
  | @drop root hr hne =>
    have hother : ∀ q ∈ s.boot :: s.live, q ≠ root →
        (t.arch.drop root s.mem).cell q = s.mem.cell q := by
      intro q hq hqr
      refine .trans (funext fun _ => if_neg hqr) ?_
      exact (release_pruned (hmod.forest.owned hr)).frame q ((h.outside hmod hq).2 root hr hqr)
    refine h.of_agree rfl ?_ List.erase_subset (hother _ List.mem_cons_self (h.boot_ne hmod hr))
      fun q hq i _ => ?_
    · rcases List.mem_cons.mp h.current with heq | hmem
      · exact heq ▸ List.mem_cons_self
      · exact List.mem_cons_of_mem _ ((List.mem_erase_of_ne hne).mpr hmem)
    · obtain ⟨hqr, hq⟩ := hmod.forest.nodup_roots.mem_erase_iff.mp hq
      exact congrFun (hother q (List.mem_cons_of_mem _ hq) hqr) i
  | @restore root hr =>
    exact h.restored (hmod.forest.owned hr) (fun q hq => (h.outside hmod hq).2 root hr)
      (h.boot_ne hmod hr) (fun i hi => .inr (h.live root hr i hi)) (fun _ => .inr)
      (List.Subset.refl _)
  | @change root hr => exact ⟨h.boot_not, h.boot, hr, h.live⟩
  | @mapPage root v frame flags m hr hv hframe hmap =>
    obtain ⟨sp, hsp⟩ := hmod.exists_space hr
    exact h.confined hmod hr
      (mapPage_shows (hmod.holds _ sp hsp) (hmod.forest.owned hr) hv hframe hmap).1
  | @unmapPage root v hr hv =>
    obtain ⟨sp, hsp⟩ := hmod.exists_space hr
    exact h.confined hmod hr (unmapPage_shows (hmod.holds _ sp hsp) (hmod.forest.owned hr) hv).1
  | lend _ => exact h.of_others fun _ _ => rfl
  | @back f hf =>
    refine h.of_others fun q hq => funext fun _ => if_neg ?_
    exact fun heq => (h.outside hmod hq).1 (List.mem_append_left _ (heq ▸ hf))
  | @poke f i w hf =>
    refine h.of_others fun q hq => Store.write_of_ne _ _ _ ?_
    exact fun heq => (h.outside hmod hq).1 (List.mem_append_left _ (heq ▸ hf))

/-! ## Runs -/

section Runs

variable {t : Target} {s₀ s : Paging} {evs : List PtEvent}

theorem kernelHalf_run (hboot : s₀.Boot) (hrun : Run (PtStep t.arch) s₀ evs s) :
    KernelHalf t s₀.mem.free (s₀.mem.cell s₀.boot) s := by
  refine (hrun.invariant (I := fun s => (∃ x, Models t s₀.mem.free s x)
    ∧ KernelHalf t s₀.mem.free (s₀.mem.cell s₀.boot) s) ?_ ⟨⟨_, models_boot t hboot⟩, ?_⟩).2
  · rintro s ev s' ⟨⟨x, hmod⟩, hkernel⟩ hstep
    exact ⟨⟨_, models_step t s ev s' x hmod hstep⟩, kernelHalf_step t hkernel hmod hstep⟩
  refine ⟨hboot.boot_not_free, rfl, ?_, fun r hr => ?_⟩
  · rw [hboot.current]
    exact List.mem_cons_self
  · rw [hboot.live] at hr
    exact absurd hr List.not_mem_nil

/-- A machine with five free frames. -/
def fiveFrames : Paging where
  mem := ⟨fun _ _ => 0, [0x80200000#64, 0x80201000#64, 0x80202000#64, 0x80203000#64, 0x80204000#64]⟩
  live := []
  lent := []
  boot := 0x80000000#64
  current := 0x80000000#64

theorem fiveFrames_boot : fiveFrames.Boot where
  live := rfl
  lent := rfl
  current := rfl
  nodup := by decide
  good := by
    simp only [fiveFrames, List.forall_mem_cons]
    exact ⟨⟨by decide, by decide⟩, ⟨by decide, by decide⟩, ⟨by decide, by decide⟩,
      ⟨by decide, by decide⟩, ⟨by decide, by decide⟩, fun _ h => absurd h List.not_mem_nil⟩
  cleared _ _ _ := rfl
  boot_not_free := by decide

/-- A page table is made and a page is mapped in it. -/
def mapOne : List PtEvent :=
  [.alloc 0x80200000#64, .mapPage 0x80200000#64 0x10000 5 ⟨true, true, true⟩]

theorem fiveFrames_run (t : Target) :
    ∃ s, Run (PtStep t.arch) fiveFrames mapOne s ∧ 0x80200000#64 ∈ s.live := by
  have halloc : t.arch.alloc fiveFrames.current fiveFrames.mem
      = some (0x80200000#64, t.arch.restore fiveFrames.current 0x80200000#64
        { fiveFrames.mem with free := fiveFrames.mem.free.tail }) := rfl
  obtain ⟨free, hfree, hm, hplanted⟩ := (models_boot t fiveFrames_boot).alloc_planted halloc
  have hp := restore_pruned fiveFrames.current (hplanted.owned List.mem_cons_self)
  -- four frames are left, and no target needs more than three of them for a page
  have hlen : t.arch.rootLevel ≤ (t.arch.restore fiveFrames.current 0x80200000#64
      { fiveFrames.mem with free := free }).free.length := by
    rw [hp.free.length_eq, List.length_append]
    have h4 : free.length = 4 := congrArg (·.length - 1) hfree.symm
    have h3 : t.arch.rootLevel ≤ 3 := by cases t <;> exact Nat.le_of_ble_eq_true rfl
    show _ ≤ _ + free.length
    omega
  have hsome : (t.arch.mapPage 0x80200000#64 0x10000 (frameAddr 5)
      (ofUser ⟨true, true, true⟩) _).isSome := mapPage_isSome hlen
  obtain ⟨m, hmap⟩ := Option.isSome_iff_exists.mp hsome
  rw [hm] at halloc
  have huser : 1 * 2 ^ (12 + 9 * 1) ≤ t.arch.userEnd := by
    refine Nat.mul_le_mul (by cases t <;> exact Nat.le_of_ble_eq_true rfl) ?_
    exact Nat.pow_le_pow_right Nat.two_pos
      (Nat.add_le_add_left (Nat.mul_le_mul_left 9 t.rootLevel_pos) 12)
  exact ⟨_, .cons (.alloc halloc) (.cons (.mapPage List.mem_cons_self
    (lt_of_lt_of_le (by decide) huser) (by decide) hmap) (.nil _)), List.mem_cons_self⟩

/-- **Every page table is the partial map of its own calls.** Whatever was done to the other
tables, and to frames in other hands, `translate` answers from the calls on this one. -/
theorem translate_run (hboot : s₀.Boot) (hrun : Run (PtStep t.arch) s₀ evs s) {r : PhysAddr}
    (hr : r ∈ s.live) :
    ∃ sp, evs.foldl Spaces.step .empty r = some sp
      ∧ ∀ v < t.arch.userEnd, t.arch.translate r v s.mem = sp.translate t v := by
  have hmod := models_run t hboot hrun
  obtain ⟨sp, hsp⟩ := hmod.exists_space hr
  exact ⟨sp, hsp, fun v hv => (hmod.holds r sp hsp).translate hv⟩

theorem translate_run_fiveFrames :
    ∃ s, Run (PtStep Target.riscv64.arch) fiveFrames mapOne s
      ∧ Target.riscv64.arch.translate 0x80200000#64 0x10123 s.mem
        = some (0x5123#64, Target.riscv64.shown ⟨true, true, true⟩) := by
  obtain ⟨s, hrun, hr⟩ := fiveFrames_run .riscv64
  obtain ⟨sp, hsp, htranslate⟩ := translate_run fiveFrames_boot hrun hr
  refine ⟨s, hrun, ?_⟩
  rw [htranslate 0x10123 (by decide)]
  obtain rfl := Option.some.inj hsp
  rfl

/-- **No frame is lost or given back twice.** Each frame of the start is in one table, or in other
hands, or free; and the free ones are clear, so that a new table is empty. -/
theorem frames_run (hboot : s₀.Boot) (hrun : Run (PtStep t.arch) s₀ evs s) :
    (s.live.flatMap (tree t.arch.format t.arch.scan s.mem.cell t.arch.rootLevel)
        ++ (s.lent ++ s.mem.free)).Perm s₀.mem.free
      ∧ ∀ f ∈ s.mem.free, ∀ i, s.mem.cell f i = 0 := by
  have hmod := models_run t hboot hrun
  exact ⟨hmod.forest.perm, hmod.forest.cleared⟩

theorem frames_run_fiveFrames :
    ∃ s, Run (PtStep Target.aarch64.arch) fiveFrames mapOne s
      ∧ (s.live.flatMap (tree Target.aarch64.arch.format Target.aarch64.arch.scan s.mem.cell
          Target.aarch64.arch.rootLevel) ++ (s.lent ++ s.mem.free)).Perm fiveFrames.mem.free := by
  obtain ⟨s, hrun, -⟩ := fiveFrames_run .aarch64
  exact ⟨s, hrun, (frames_run fiveFrames_boot hrun).1⟩

/-- **The kernel is mapped alike in every page table**, whatever is mapped below `userEnd` and
however often a table is emptied. -/
theorem kernel_entries_run (hboot : s₀.Boot) (hrun : Run (PtStep t.arch) s₀ evs s) {r : PhysAddr}
    (hr : r ∈ s.live) {i : Fin 512} (hi : t.arch.globalRootPteRange ≤ i.val) :
    s.mem.cell r i = t.kernelEntry (s₀.mem.cell s₀.boot) i :=
  (kernelHalf_run hboot hrun).live r hr i hi

theorem kernel_entries_run_fiveFrames :
    ∃ s, Run (PtStep (Target.x64 0x90000000#64).arch) fiveFrames mapOne s
      ∧ s.mem.cell 0x80200000#64 0x100 = 0x90000003#64 := by
  obtain ⟨s, hrun, hr⟩ := fiveFrames_run (.x64 0x90000000#64)
  refine ⟨s, hrun, (kernel_entries_run fiveFrames_boot hrun hr (by decide)).trans ?_⟩
  decide

end Runs

end MonkeyOS.Polyhal
