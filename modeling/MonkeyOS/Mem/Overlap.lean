import MonkeyOS.Lib.Range
import MonkeyOS.Mem.Cow
import MonkeyOS.Mem.SharedMemory

/-!
# MonkeyOS — the ranges of an address space (`sys_mmap`, `sys_munmap`, `sys_shmat`)

A process keeps its mappings in two lists: the areas of its `MemSet`, and its attached segments.
`sys_mmap` looks for room among the areas only, and `sys_shmat` does not look at all.

* `MemSet.carved` — `sub_area` takes the range out of the areas and keeps the rest, whatever becomes
  of the trackers;
* `MemSet.subArea_exact` — it takes out exactly the range, on `usize`, as long as no area ends at
  2^64 (`MemSet.subAreaUsize_misses`);
* `sysMmap_outcome` — what `sys_mmap` does to the ranges: it leaves less, or carves a hole and
  fills it;
* `disjoint_exec_iff` — so a call keeps the ranges disjoint exactly if what it adds excludes the
  segments and, for a segment, the areas as well.
-/

namespace MonkeyOS

open Lib

/-! ## The ranges -/

def MemArea.span (a : MemArea) : Nat × Nat := (a.start, a.stop)

def Shm.span (g : Shm) : Nat × Nat := (g.start, g.start + g.size)

def MemSet.spans (m : MemSet) : List (Nat × Nat) := m.areas.map MemArea.span

namespace AddrSpace

/-- The ranges of all areas and of all attached segments. -/
def spans (s : AddrSpace) : List (Nat × Nat) := s.memset.spans ++ s.shms.map Shm.span

def Disjoint (s : AddrSpace) : Prop := s.spans.Pairwise Excludes

/-- The address of `sys_shmat`. -/
def shmatAddr (s : AddrSpace) (shmaddr : Nat) : Nat :=
  if shmaddr = 0 then
    if s.getLastFreeAddr ≥ 0x40000000 then s.getLastFreeAddr else 0x40000000
  else shmaddr

/-- `sys_shmat` in the address space of the caller; `mem` is what `SHARED_MEMORY` has for the
key. -/
def sysShmat (s : AddrSpace) (mem : Option SharedMemory) (shmaddr : Nat) :
    Except Errno Nat × AddrSpace :=
  let vaddr := s.shmatAddr shmaddr
  match mem with
  | none => (.error .ENOENT, s)
  | some mem =>
    (.ok vaddr,
      { s with
        pt := mem.trackers.zipIdx.foldl
          (fun pt (x, i) => pt.mapPage (vaddr + i * pageSize) x urwx) s.pt
        shms := s.shms ++ [⟨vaddr, mem.trackers.length * pageSize⟩] })

/-- The stack, and nothing else. -/
def stackOnly (trackers : List MapTrack) (pt : PageTable) : AddrSpace :=
  ⟨⟨[⟨.stack, trackers, none, 0, 0x70000000, 0x10000000⟩]⟩, pt, []⟩

end AddrSpace

inductive MapCall where
  | mmap (env : MmapEnv) (args : MmapArgs)
  | munmap (start len : Nat)
  | shmat (mem : Option SharedMemory) (shmaddr : Nat)

namespace AddrSpace

def exec (s : AddrSpace) : MapCall → AddrSpace
  | .mmap env args => (s.sysMmap env args).2
  | .munmap start len => s.sysMunmap start len
  | .shmat mem shmaddr => (s.sysShmat mem shmaddr).2

/-- The range `sys_mmap` is after. -/
def mmapSpan (s : AddrSpace) (args : MmapArgs) : Nat × Nat :=
  (s.mmapAddr args.start, s.mmapAddr args.start + args.alignedLen)

def shmatSpan (s : AddrSpace) (mem : SharedMemory) (shmaddr : Nat) : Nat × Nat :=
  (s.shmatAddr shmaddr, s.shmatAddr shmaddr + mem.trackers.length * pageSize)

/-- Hints are page-aligned or zero, and no range wraps. -/
def Allowed (s : AddrSpace) : MapCall → Prop
  | .mmap _ args => args.start % pageSize = 0 ∧ alignup args.len pageSize < 2 ^ 64
      ∧ (s.mmapSpan args).2 < 2 ^ 64
  | .munmap start len => start + len < 2 ^ 64
  | .shmat mem shmaddr => shmaddr % pageSize = 0
      ∧ ∀ seg, mem = some seg → (s.shmatSpan seg shmaddr).2 < 2 ^ 64

/-- A mapping that is made excludes the attached segments, and a segment that is attached excludes
every range there is. -/
def Clear (s : AddrSpace) : MapCall → Prop
  | .mmap env args => (s.sysMmap env args).1.isOk = true → args.alignedLen ≠ 0 →
      ∀ g ∈ s.shms, Excludes (s.mmapSpan args) g.span
  | .munmap _ _ => True
  | .shmat mem shmaddr => ∀ seg, mem = some seg →
      ∀ r ∈ s.spans, Excludes r (s.shmatSpan seg shmaddr)

end AddrSpace

/-! ## What `sub_area` does to the ranges -/

theorem MemArea.rangeMem_span {a : MemArea} {v : Nat} : RangeMem a.span v ↔ a.contains v = true :=
  MemArea.contains_iff.symm

theorem MemArea.excludes_span {a b : MemArea} : Excludes a.span b.span ↔ a.Disjoint b := by
  constructor
  · intro h v hv
    exact h v (rangeMem_span.mpr hv.1) (rangeMem_span.mpr hv.2)
  · intro h v ha hb
    exact h v ⟨rangeMem_span.mp ha, rangeMem_span.mp hb⟩

/-- The area without its trackers, on which no range depends. -/
def MemArea.strip (a : MemArea) : MemArea := { a with mtrackers := [] }

def MemSet.strip (m : MemSet) : MemSet := ⟨m.areas.map MemArea.strip⟩

theorem MemArea.strip_sub (a : MemArea) (s e : Nat) :
    (a.strip.sub s e).area = (a.sub s e).area.strip
      ∧ (a.strip.sub s e).split = (a.sub s e).split.map MemArea.strip := by
  have hover : a.strip.overlapping s e = a.overlapping s e := rfl
  have hstart : a.strip.start = a.start := rfl
  have hstop : a.strip.stop = a.stop := rfl
  unfold sub subTo
  simp only [hover, hstart, hstop]
  split
  · exact ⟨rfl, rfl⟩
  split
  · exact ⟨rfl, rfl⟩
  split
  · exact ⟨rfl, rfl⟩
  split
  · exact ⟨rfl, rfl⟩
  split
  · exact ⟨rfl, rfl⟩
  · exact ⟨rfl, rfl⟩

theorem MemSet.spans_strip (m : MemSet) : m.strip.spans = m.spans := by
  unfold spans strip
  rw [List.map_map]
  rfl

theorem MemSet.strip_subArea (m : MemSet) (s e : Nat) :
    m.strip.subArea s e = (m.subArea s e).strip := by
  unfold subArea ofResults strip
  simp only [List.map_map, List.map_append, List.filterMap_map, List.map_filterMap,
    List.filter_map, Function.comp_def, (MemArea.strip_sub _ s e).1, (MemArea.strip_sub _ s e).2]
  rfl

/-- Without trackers every area holds only trackers of its own pages. -/
theorem MemSet.strip_separate {m : MemSet} (hm : m.areas.Pairwise MemArea.Disjoint) :
    m.strip.Separate := by
  refine ⟨List.pairwise_map.mpr (hm.imp (fun h => h)), fun a ha t ht => ?_⟩
  obtain ⟨b, -, rfl⟩ := List.mem_map.mp ha
  cases ht

/-- **`sub_area`** carves its range out of the areas. -/
theorem MemSet.carved {m : MemSet} (hm : m.spans.Pairwise Excludes) {s e : Nat} (hse : s ≤ e) :
    Carved (s, e) m.spans (m.subArea s e).spans := by
  have hsep : m.strip.Separate :=
    strip_separate ((List.pairwise_map.mp hm).imp MemArea.excludes_span.mp)
  have hpiece : ∀ r ∈ (m.subArea s e).spans, ∀ v, RangeMem r v →
      ¬ (s ≤ v ∧ v < e) ∧ ∃ a ∈ m.spans, RangeMem a v := by
    intro r hr v hv
    rw [← spans_strip, ← strip_subArea] at hr
    obtain ⟨b, hb, rfl⟩ := List.mem_map.mp hr
    obtain ⟨a, ha, hab⟩ := MemSet.mem_subArea.mp hb
    obtain ⟨hav, hout⟩ := hab.covers (hsep.inside a ha) hse (MemArea.rangeMem_span.mp hv)
    refine ⟨hout, a.span, ?_, MemArea.rangeMem_span.mpr hav⟩
    rw [← spans_strip]
    exact List.mem_map_of_mem ha
  refine ⟨⟨?_, fun r hr v hv => (hpiece r hr v hv).2⟩, fun r hr v hv => (hpiece r hr v hv).1⟩
  rw [← spans_strip, ← strip_subArea]
  exact List.pairwise_map.mpr
    ((MemSet.subArea_disjoint hsep hse).imp MemArea.excludes_span.mpr)

/-! ## Unmapping is exact

The end of an area is a sum on `usize`, which an area up to the end of the address space wraps to 0.
Then nothing lies in its range for `overlapping` and `sub`. -/

namespace MemArea

def stopUsize (a : MemArea) : Nat := (a.start + a.len) % 2 ^ 64

def overlappingUsize (a : MemArea) (s e : Nat) : Bool := a.overlappingTo a.stopUsize s e

/-- A range that overlaps an area whose end has wrapped takes all of it: only other areas are
trimmed. -/
def subUsize (a : MemArea) (s e : Nat) : SubResult :=
  a.subTo (a.overlappingUsize s e) a.stopUsize s e

variable {a : MemArea} (h : a.start + a.len < 2 ^ 64) (s e : Nat)

include h

theorem overlappingUsize_eq : a.overlappingUsize s e = a.overlapping s e := by
  unfold overlappingUsize stopUsize
  rw [Nat.mod_eq_of_lt h]
  rfl

theorem subUsize_eq : a.subUsize s e = a.sub s e := by
  unfold subUsize
  rw [overlappingUsize_eq h, stopUsize, Nat.mod_eq_of_lt h]
  rfl

end MemArea

namespace MemSet

def overlappingUsize (m : MemSet) (s e : Nat) : Bool :=
  m.areas.any (·.overlappingUsize s e)

def subAreaUsize (m : MemSet) (s e : Nat) : MemSet :=
  ofResults (m.areas.map (·.subUsize s e))

/-- No area ends at 2^64 or behind it. -/
def Fits (m : MemSet) : Prop := ∀ a ∈ m.areas, a.start + a.len < 2 ^ 64

section Fits

variable {m : MemSet} (h : m.Fits) (s e : Nat)

include h

theorem overlappingUsize_eq : m.overlappingUsize s e = m.overlapping s e := by
  unfold overlappingUsize overlapping
  rw [Bool.eq_iff_iff, List.any_eq_true, List.any_eq_true]
  exact exists_congr fun a =>
    and_congr_right fun ha => by rw [MemArea.overlappingUsize_eq (h a ha)]

theorem subAreaUsize_eq : m.subAreaUsize s e = m.subArea s e :=
  congrArg ofResults (List.map_congr_left fun a ha => MemArea.subUsize_eq (h a ha) s e)

end Fits

variable {m : MemSet} {s e : Nat}

theorem covers_strip {v : Nat} : m.strip.Covers v ↔ m.Covers v := by
  unfold Covers strip
  simp only [List.mem_map, exists_exists_and_eq_and]
  exact Iff.rfl

theorem Separate.covers_subArea (hm : m.Separate) (hse : s ≤ e) {v : Nat} :
    (m.subArea s e).Covers v ↔ m.Covers v ∧ ¬ (s ≤ v ∧ v < e) := by
  constructor
  · rintro ⟨b, hb, hv⟩
    obtain ⟨a, ha, hpiece⟩ := mem_subArea.mp hb
    obtain ⟨hav, hout⟩ := hpiece.covers (hm.inside a ha) hse hv
    exact ⟨⟨a, ha, hav⟩, hout⟩
  · rintro ⟨⟨a, ha, hav⟩, hout⟩
    obtain ⟨b, hpiece, hv⟩ := MemArea.exists_piece (hm.inside a ha) hse hav hout
    exact ⟨b, mem_subArea.mpr ⟨a, ha, hpiece⟩, hv⟩

/-- The area around an address after `sub_area`, and the one before. -/
theorem Separate.kept_subArea (hm : m.Separate) (hse : s ≤ e) {a b : MemArea} (ha : a ∈ m.areas)
    (hb : b ∈ (m.subArea s e).areas) {v : Nat} (hav : a.contains v = true)
    (hbv : b.contains v = true) : b.mtype = a.mtype ∧ b.file = a.file := by
  obtain ⟨d, hd, hpiece⟩ := mem_subArea.mp hb
  have hdv := (hpiece.covers (hm.inside d hd) hse hbv).1
  rw [hm.eq_of_contains ha hd hav hdv]
  obtain ⟨hmtype, hfile, -⟩ := hpiece.kept (hm.inside d hd) hse
  exact ⟨hmtype, hfile⟩

/-- A range that is not empty overlaps an area that is not empty exactly if they meet. -/
theorem overlapping_iff_meets (hne : ∀ a ∈ m.areas, a.len ≠ 0) (hse : s < e) :
    m.overlapping s e = true ↔ ∃ v, m.Covers v ∧ s ≤ v ∧ v < e := by
  unfold overlapping
  rw [List.any_eq_true]
  constructor
  · rintro ⟨a, ha, hover⟩
    have hlen := hne a ha
    rw [MemArea.overlapping_iff, MemArea.stop] at hover
    -- the later of the two starts
    refine ⟨max s a.start, ⟨a, ha, ?_⟩, by omega⟩
    rw [MemArea.contains_iff, MemArea.stop]
    omega
  · rintro ⟨v, ⟨a, ha, hv⟩, hsv, hve⟩
    refine ⟨a, ha, ?_⟩
    rw [MemArea.contains_iff] at hv
    rw [MemArea.overlapping_iff]
    omega

/-- **Unmapping is exact.** For areas that are disjoint and not empty, with whatever trackers, none of
which ends at 2^64, and for every range that is not empty: `sub_area` leaves what was covered without
the range, each address in an area with the type and file it had, and the areas are again disjoint
and not empty; and `overlapping` says whether the range meets an area. -/
theorem subArea_exact (hdisj : m.areas.Pairwise MemArea.Disjoint)
    (hne : ∀ a ∈ m.areas, a.len ≠ 0) (hfits : m.Fits) (hse : s < e) :
    (∀ v, (m.subAreaUsize s e).Covers v ↔ m.Covers v ∧ ¬ (s ≤ v ∧ v < e))
    ∧ (∀ a ∈ m.areas, ∀ b ∈ (m.subAreaUsize s e).areas, ∀ v, a.contains v = true →
        b.contains v = true → b.mtype = a.mtype ∧ b.file = a.file)
    ∧ (m.subAreaUsize s e).areas.Pairwise MemArea.Disjoint
    ∧ (∀ b ∈ (m.subAreaUsize s e).areas, b.len ≠ 0)
    ∧ (m.overlappingUsize s e = true ↔ ∃ v, m.Covers v ∧ s ≤ v ∧ v < e) := by
  rw [subAreaUsize_eq hfits, overlappingUsize_eq hfits]
  have hsep := strip_separate hdisj
  have hle := Nat.le_of_lt hse
  have hmem : ∀ b ∈ (m.subArea s e).areas, b.strip ∈ (m.strip.subArea s e).areas := by
    intro b hb
    rw [strip_subArea]
    exact List.mem_map_of_mem hb
  refine ⟨fun v => ?_, fun a ha b hb v hav hbv => ?_, ?_, fun b hb => ?_,
    overlapping_iff_meets hne hse⟩
  · rw [← covers_strip, ← strip_subArea, hsep.covers_subArea hle, covers_strip]
  · show b.strip.mtype = a.strip.mtype ∧ b.strip.file = a.strip.file
    exact hsep.kept_subArea hle (List.mem_map_of_mem ha) (hmem b hb) hav hbv
  · have hstrip := subArea_disjoint hsep hle
    rw [strip_subArea] at hstrip
    exact (List.pairwise_map.mp hstrip).imp (fun h => h)
  · obtain ⟨a, ha, hpiece⟩ := mem_subArea.mp (hmem b hb)
    exact (hpiece.kept (hsep.inside a ha) hle).2.2

/-- The middle of one area and the start of the next. -/
theorem subArea_exact_two_areas :
    let m : MemSet := ⟨[⟨.mmap, [⟨0x2000, 7, 7⟩], none, 0, 0x1000, 0x2000⟩,
      ⟨.shareFile, [], some 3, 0, 0x3000, 0x2000⟩]⟩
    (∀ v, (m.subAreaUsize 0x2000 0x4000).Covers v ↔ m.Covers v ∧ ¬ (0x2000 ≤ v ∧ v < 0x4000))
      ∧ (m.subAreaUsize 0x2000 0x4000).spans = [(0x1000, 0x2000), (0x4000, 0x5000)]
      ∧ m.overlappingUsize 0x2000 0x4000 = true := by
  intro m
  have hdisj : m.areas.Pairwise MemArea.Disjoint := by
    rw [List.pairwise_pair]
    intro v
    simp only [MemArea.contains_iff, MemArea.stop]
    omega
  have hexact := subArea_exact (s := 0x2000) (e := 0x4000) hdisj (by decide)
    (show ∀ a ∈ m.areas, a.start + a.len < 2 ^ 64 by decide) (by decide)
  exact ⟨hexact.1, by decide, by decide⟩

/-- The last two pages of the address space, and `sub_area` of the first of them: nothing overlaps,
and the page stays. -/
theorem subAreaUsize_misses :
    let m : MemSet := ⟨[⟨.mmap, [], none, 0, 0xffffffffffffe000, 0x2000⟩]⟩
    m.areas.Pairwise MemArea.Disjoint ∧ (∀ a ∈ m.areas, a.len ≠ 0)
      ∧ m.Covers 0xffffffffffffe000
      ∧ m.overlappingUsize 0xffffffffffffe000 0xfffffffffffff000 = false
      ∧ (m.subAreaUsize 0xffffffffffffe000 0xfffffffffffff000).Covers 0xffffffffffffe000 := by
  intro m
  have hcovers : m.Covers 0xffffffffffffe000 := ⟨_, List.mem_singleton_self _, by decide⟩
  have hsame : m.subAreaUsize 0xffffffffffffe000 0xfffffffffffff000 = m := by decide
  refine ⟨List.pairwise_singleton _ _, by decide, hcovers, by decide, ?_⟩
  rw [hsame]
  exact hcovers

end MemSet

/-! ## What `sys_mmap` does to the ranges -/

theorem MemSet.spans_push (m : MemSet) (a : MemArea) : (m.push a).spans = m.spans ++ [a.span] :=
  List.map_append

namespace AddrSpace

variable {s : AddrSpace}

/-- A fault changes no range. -/
theorem touch_spans (s : AddrSpace) (touched : List (Nat × FaultEnv)) :
    (s.touch touched).memset.spans = s.memset.spans ∧ (s.touch touched).shms = s.shms := by
  induction touched generalizing s with
  | nil => exact ⟨rfl, rfl⟩
  | cons x rest ih =>
    obtain ⟨vaddr, env⟩ := x
    unfold touch
    cases hfault : userCowInt s.memset s.pt env vaddr with
    | none => exact ih s
    | some r =>
      obtain ⟨pre, a, post, hareas, -, hfaulted⟩ := userCowInt_faulted hfault
      have hbounds := congrArg (List.map (fun x : Nat × Nat => (x.1, x.1 + x.2))) hfaulted.bounds
      rw [← hareas, List.map_map, List.map_map] at hbounds
      obtain ⟨hspans, hshms⟩ := ih { s with memset := r.memset, pt := r.pt }
      exact ⟨hspans.trans hbounds, hshms⟩

/-- The room that was made is a hole in the areas. -/
theorem reserve_carved (hs : s.memset.spans.Pairwise Excludes) {fixed : Bool} {addr stop : Nat}
    (hle : addr ≤ stop) {t : AddrSpace} (h : s.reserve fixed addr stop = some t) :
    Carved (addr, stop) s.memset.spans t.memset.spans ∧ t.shms = s.shms := by
  have hmissed : s.memset.overlapping addr stop = false →
      Carved (addr, stop) s.memset.spans s.memset.spans := by
    intro hnot
    apply Carved.refl hs
    intro r hr v hv
    obtain ⟨a, ha, rfl⟩ := List.mem_map.mp hr
    exact MemSet.free_of_not_overlapping hnot a ha v (MemArea.rangeMem_span.mp hv)
  unfold reserve at h
  split at h
  · cases h
    split
    · exact ⟨MemSet.carved hs hle, rfl⟩
    · rename_i hover
      exact ⟨hmissed (Bool.eq_false_iff.mpr hover), rfl⟩
  · split at h
    · cases h
    · rename_i hover
      cases h
      exact ⟨hmissed (Bool.eq_false_iff.mpr hover), rfl⟩

theorem mapNew_spans {env : MmapEnv} {args : MmapArgs} {file : Option Nat} {addr len : Nat}
    {t : AddrSpace} (hlen : len % pageSize = 0) (h : s.mapNew env args file addr len = some t) :
    t.memset.spans = s.memset.spans ++ [(addr, addr + len)] ∧ t.shms = s.shms := by
  have halloc : ∀ {mtype : MemType} {r : Nat × AddrSpace}, mtype ≠ .stack →
      s.frameAlloc env addr mtype (divCeil len pageSize) = some r →
      r.2.memset.spans = s.memset.spans ++ [(addr, addr + len)] ∧ r.2.shms = s.shms := by
    intro mtype r hmtype hr
    obtain ⟨frames, -, -, hinstall⟩ := frameAlloc_cases hmtype hr
    rw [hinstall, divCeil_mul_cancel hlen]
    exact ⟨MemSet.spans_push _ _, rfl⟩
  unfold mapNew at h
  split at h
  · cases file with
    | some file =>
      obtain ⟨r, hr, rfl⟩ := Option.map_eq_some_iff.mp h
      rw [mapFrames_cases (by decide) hr]
      exact ⟨MemSet.spans_push _ _, rfl⟩
    | none =>
      obtain ⟨r, hr, rfl⟩ := Option.map_eq_some_iff.mp h
      exact halloc (by decide) hr
  · cases file with
    | some file =>
      obtain ⟨r, hr, rfl⟩ := Option.map_eq_some_iff.mp h
      exact halloc (by decide) hr
    | none =>
      cases h
      exact ⟨MemSet.spans_push _ _, rfl⟩

/-- What a call of `sys_mmap` that answers `r` has made of the areas of `s`. -/
inductive MmapOutcome (s : AddrSpace) (args : MmapArgs) (r : Except Errno Nat × AddrSpace) :
    Prop where
  /-- refused or failed, perhaps after the range was taken out -/
  | less (hno : r.1.isOk = true → args.alignedLen = 0)
      (hwithin : Within s.memset.spans r.2.memset.spans) (hshms : r.2.shms = s.shms)
  /-- the range was taken out, and put in as one area -/
  | filled (hok : r.1.isOk = true) (hlen : args.alignedLen ≠ 0) (rs : List (Nat × Nat))
      (hcarved : Carved (s.mmapSpan args) s.memset.spans rs)
      (hspans : r.2.memset.spans = rs ++ [s.mmapSpan args]) (hshms : r.2.shms = s.shms)

theorem sysMmap_outcome (hs : s.memset.spans.Pairwise Excludes) (env : MmapEnv) {args : MmapArgs}
    (hwrap : (s.mmapSpan args).2 < 2 ^ 64) : s.MmapOutcome args (s.sysMmap env args) := by
  have hle := Nat.le_add_right (s.mmapAddr args.start) args.alignedLen
  have hcases := s.sysMmap_cases env (fun _ => hwrap)
  generalize s.sysMmap env args = r at hcases ⊢
  cases hcases with
  | empty hlen => exact .less (fun _ => hlen) (.refl hs) rfl
  | refused => exact .less (fun h => nomatch h) (.refl hs) rfl
  | noFrames s' hlen hreserve =>
    obtain ⟨hcarved, hshms⟩ := reserve_carved hs hle hreserve
    exact .less (fun h => nomatch h) hcarved.toWithin hshms
  | mapped s' t touched hlen hreserve hnew =>
    obtain ⟨hcarved, hshms⟩ := reserve_carved hs hle hreserve
    obtain ⟨hspans, hshms'⟩ := mapNew_spans args.alignedLen_mod hnew
    obtain ⟨htouch, hshms''⟩ := t.touch_spans touched
    exact .filled rfl hlen _ hcarved (htouch.trans hspans) (hshms''.trans (hshms'.trans hshms))
  | unread s' t touched err hlen hreserve hnew =>
    obtain ⟨hcarved, hshms⟩ := reserve_carved hs hle hreserve
    obtain ⟨hspans, hshms'⟩ := mapNew_spans args.alignedLen_mod hnew
    obtain ⟨htouch, hshms''⟩ := t.touch_spans touched
    have hfilled : (t.touch touched).memset.spans.Pairwise Excludes := by
      rw [htouch, hspans]
      exact (pairwise_concat_iff hcarved.pairwise).mpr hcarved.outside
    have hagain := MemSet.carved hfilled hle
    rw [htouch, hspans] at hagain
    exact .less (fun h => nomatch h) (hcarved.trans_fill hagain).toWithin
      (hshms''.trans (hshms'.trans hshms))

/-! ## Every call -/

/-- **One call.** From disjoint ranges, a call leaves disjoint ranges exactly if it is clear. -/
theorem disjoint_exec_iff (hs : s.Disjoint) {call : MapCall} (hcall : s.Allowed call) :
    (s.exec call).Disjoint ↔ s.Clear call := by
  have hareas : s.memset.spans.Pairwise Excludes := (List.pairwise_append.mp hs).1
  cases call with
  | mmap env args =>
    show ((s.sysMmap env args).2.memset.spans ++ (s.sysMmap env args).2.shms.map Shm.span).Pairwise
      Excludes ↔ _
    cases sysMmap_outcome hareas env hcall.2.2 with
    | less hno hwithin hshms =>
      rw [hshms]
      refine iff_of_true (hwithin.append hs) (fun hok hlen => ?_)
      exact absurd (hno hok) hlen
    | filled hok hlen rs hcarved hspans hshms =>
      rw [hshms, hspans, hcarved.append_iff hs, List.forall_mem_map]
      constructor
      · intro hclear _ _
        exact hclear
      · intro hclear
        exact hclear hok hlen
  | munmap start len =>
    refine iff_of_true ?_ trivial
    show ((s.memset.subArea start ((start + len) % 2 ^ 64)).spans ++ s.shms.map Shm.span).Pairwise
      Excludes
    rw [Nat.mod_eq_of_lt hcall]
    exact (MemSet.carved hareas (Nat.le_add_right start len)).toWithin.append hs
  | shmat mem shmaddr =>
    cases mem with
    | none => exact iff_of_true hs (fun seg hseg => nomatch hseg)
    | some seg =>
      show (s.memset.spans ++ (s.shms ++ [_]).map Shm.span).Pairwise Excludes ↔ _
      rw [List.map_append, ← List.append_assoc]
      show (s.spans ++ [s.shmatSpan seg shmaddr]).Pairwise Excludes ↔ _
      rw [pairwise_concat_iff hs]
      constructor
      · intro hclear other hother
        cases hother
        exact hclear
      · intro hclear
        exact hclear seg rfl

end AddrSpace

/-- A call with an aligned hint whose range does not wrap. -/
def MapStep (s : AddrSpace) (call : MapCall) (t : AddrSpace) : Prop :=
  s.Allowed call ∧ t = s.exec call

/-- **The mappings of a process.** From a stack alone, over every sequence of `sys_mmap`,
`sys_munmap` and `sys_shmat`, the ranges of all areas and segments are pairwise disjoint after
every call exactly if every call is clear. -/
theorem mappings_disjoint_iff (trackers : List MapTrack) (pt : PageTable) (calls : List MapCall) :
    Throughout MapStep (fun s call => s.Allowed call → (s.exec call).Disjoint)
        (.stackOnly trackers pt) calls
      ↔ Throughout MapStep (fun s call => s.Allowed call → s.Clear call)
        (.stackOnly trackers pt) calls := by
  apply throughout_iff (I := AddrSpace.Disjoint)
  · intro s call hs
    exact imp_congr_right (fun hcall => AddrSpace.disjoint_exec_iff hs hcall)
  · intro s call t hs hclear hstep
    rw [hstep.2]
    exact (AddrSpace.disjoint_exec_iff hs hstep.1).mpr (hclear hstep.1)
  · exact List.pairwise_singleton _ _

theorem AddrSpace.not_disjoint {s : AddrSpace} {i j v : Nat} {r q : Nat × Nat} (hij : i < j)
    (hi : s.spans[i]? = some r) (hj : s.spans[j]? = some q) (hv : RangeMem r v)
    (hv' : RangeMem q v) : ¬ s.Disjoint := by
  intro hs
  obtain ⟨hi', rfl⟩ := List.getElem?_eq_some_iff.mp hi
  obtain ⟨hj', rfl⟩ := List.getElem?_eq_some_iff.mp hj
  exact List.pairwise_iff_getElem.mp hs i j hi' hj' hij v hv hv'

/-- A mapping over an attached segment; and a segment that the search for an address puts on the
stack, which it does not look at. -/
theorem mappings_overlap :
    (∃ t, Run MapStep (.stackOnly [] .empty)
        [.shmat (some ⟨[0x80000000], false⟩) 0,
          .mmap .bare ⟨0x40000000, 0x1000, 3, 0x22, 2 ^ 64 - 1, 0⟩] t
      ∧ t.spans = [(0x70000000, 0x80000000), (0x40000000, 0x40001000), (0x40000000, 0x40001000)]
      ∧ ¬ t.Disjoint)
    ∧ ∃ t, Run MapStep (.stackOnly [] .empty)
        [.mmap .bare ⟨0x6ffff000, 0x1000, 3, 0x22, 2 ^ 64 - 1, 0⟩,
          .shmat (some ⟨[0x80000000], false⟩) 0] t
      ∧ t.spans = [(0x70000000, 0x80000000), (0x6ffff000, 0x70000000), (0x70000000, 0x70001000)]
      ∧ ¬ t.Disjoint := by
  have hshmat : ∀ s : AddrSpace, (s.shmatSpan ⟨[0x80000000], false⟩ 0).2 < 2 ^ 64 →
      s.Allowed (.shmat (some ⟨[0x80000000], false⟩) 0) := by
    intro s hs
    refine ⟨rfl, fun seg hseg => ?_⟩
    cases hseg
    exact hs
  constructor
  · refine ⟨_, .cons ⟨hshmat _ (by decide +kernel), rfl⟩
      (.cons ⟨⟨by decide +kernel, by decide +kernel, by decide +kernel⟩, rfl⟩ (.nil _)),
      by decide +kernel, ?_⟩
    -- the area and the segment, at their first address
    apply AddrSpace.not_disjoint (i := 1) (j := 2) (v := 0x40000000) (by decide)
      (r := (0x40000000, 0x40001000)) (q := (0x40000000, 0x40001000)) (by decide +kernel)
      (by decide +kernel)
    · exact ⟨by decide, by decide⟩
    · exact ⟨by decide, by decide⟩
  · refine ⟨_, .cons ⟨⟨by decide +kernel, by decide +kernel, by decide +kernel⟩, rfl⟩
      (.cons ⟨hshmat _ (by decide +kernel), rfl⟩ (.nil _)), by decide +kernel, ?_⟩
    -- the stack and the segment, at the first address of both
    apply AddrSpace.not_disjoint (i := 0) (j := 2) (v := 0x70000000) (by decide)
      (r := (0x70000000, 0x80000000)) (q := (0x70000000, 0x70001000)) (by decide +kernel)
      (by decide +kernel)
    · exact ⟨by decide, by decide⟩
    · exact ⟨by decide, by decide⟩

end MonkeyOS
