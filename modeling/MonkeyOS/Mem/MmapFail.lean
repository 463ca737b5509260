import MonkeyOS.Mem.PageTree
import MonkeyOS.Mem.WriteBack

/-!
# MonkeyOS — `mmap` of a file that cannot be read (`kernel/src/syscall/mm.rs`)

`sys_mmap` maps first and reads the file afterwards. When `readat` fails it takes the new area out
again with `sub_area`, the way `munmap` does: the pages of a shared file are written back on the way,
and a write that fails is a panic.

* `sysMmapMaps`, `sysMmapWrites`, `sysMmapEnd` — the addresses `UserTask::map` is called with, the
  writes to files, and how the call ends: it panics at an address that is not page-aligned, when
  there is no frame for a table of the page table, and when a write is refused;
* `touch_fresh` — reading into a new area leaves the others and the rest of the page table alone;
* `sub_whole`, `sub_of_not_overlapping` — `sub_area` with the range of the new area;
* `sysMmap_failsClean_iff` — the calls that leave no trace.
-/

namespace MonkeyOS

open Lib

namespace AddrSpace

/-! ## The calls of `map`, the writes and the panics -/

/-- The addresses of the pages from `addr` on. -/
def pagesOf (addr len : Nat) : List Nat :=
  (List.range (divCeil len pageSize)).map (fun i => addr + i * pageSize)

/-- The addresses `map` is called with for a new area. A private anonymous one has no pages yet. -/
def mapNewMaps (args : MmapArgs) (file : Option Nat) (addr len : Nat) : List Nat :=
  if args.shared || file.isSome then pagesOf addr len else []

def sysMmapMaps (s : AddrSpace) (env : MmapEnv) (args : MmapArgs) : List Nat :=
  let file := args.file env
  let addr := s.mmapAddr args.start
  let len := args.alignedLen
  if len = 0 then []
  else
    match s.reserve args.fixed addr ((addr + len) % 2 ^ 64) with
    | none => []
    | some s =>
      match s.mapNew env args file addr len with
      | none => []
      | some _ =>
        mapNewMaps args file addr len
          ++ if file.isNone then [] else env.touched.map (fun x => floor x.1)

/-- `sub_area` writes when it makes room, and when it takes the new area out again. -/
def sysMmapWrites (s : AddrSpace) (env : MmapEnv) (args : MmapArgs) : List FileWrite :=
  let file := args.file env
  let addr := s.mmapAddr args.start
  let len := args.alignedLen
  let stop := (addr + len) % 2 ^ 64
  if len = 0 then []
  else
    match s.reserve args.fixed addr stop with
    | none => []
    | some s' =>
      (if args.fixed && s.memset.overlapping addr stop then s.memset.subAreaWrites addr stop else [])
        ++ match s'.mapNew env args file addr len with
          | none => []
          | some t =>
            if file.isNone || env.readErr.isNone then []
            else (t.touch env.touched).memset.subAreaWrites addr stop

/-- What the call meets on its way: the writes that the file takes, and the pages for whose missing
tables `map_page` gets a frame each (`PageAllocImpl::alloc` expects it). -/
structure MmapAnswers where
  writeOk : FileWrite → Bool
  tables : Nat → Bool

/-- How `sys_mmap` ends, with its writes; `none` is a panic. -/
def sysMmapEnd (s : AddrSpace) (env : MmapEnv) (args : MmapArgs) (answers : MmapAnswers) :
    Option (Except Errno Nat × AddrSpace × List FileWrite) :=
  if (s.sysMmapMaps env args).all (fun v => v % pageSize == 0 && answers.tables v)
      && (s.sysMmapWrites env args).all answers.writeOk then
    some ((s.sysMmap env args).1, (s.sysMmap env args).2, s.sysMmapWrites env args)
  else none

/-! ## The calls that leave no trace -/

/-- The call returns the error of `readat`, and neither the address space nor a file has changed. -/
def FailsClean (s : AddrSpace) (env : MmapEnv) (args : MmapArgs) (answers : MmapAnswers) (err : Errno) :
    Prop :=
  s.sysMmapEnd env args answers = some (.error err, s, [])

/-- The allocator has the frames of a file mapping; those of a private one may be in segments. -/
def Frames (env : MmapEnv) (args : MmapArgs) : Prop :=
  let count := divCeil args.alignedLen pageSize
  (env.frameAllocMuch count).isSome
    ∨ args.shared = false ∧ 1 < count ∧ (env.segments count).isSome

def Overlaps (s : AddrSpace) (args : MmapArgs) : Prop :=
  s.memset.overlapping (s.mmapAddr args.start)
    ((s.mmapAddr args.start + args.alignedLen) % 2 ^ 64) = true

/-- The call comes to read the file. -/
structure Reads (s : AddrSpace) (env : MmapEnv) (args : MmapArgs) : Prop where
  nonempty : args.alignedLen ≠ 0
  room : ¬ s.Overlaps args
  frames : Frames env args

/-- A private mapping, over pages that were not mapped and whose tables get their frames, and no area
that `sub_area` would drop on the side. -/
structure Restores (s : AddrSpace) (args : MmapArgs) (answers : MmapAnswers) : Prop where
  aligned : s.mmapAddr args.start % pageSize = 0
  tables : ∀ v ∈ pagesOf (s.mmapAddr args.start) args.alignedLen, answers.tables v = true
  priv : args.shared = false
  unmapped : ∀ v ∈ pagesOf (s.mmapAddr args.start) args.alignedLen, s.pt v = none
  nonempty : ∀ a ∈ s.memset.areas, a.len ≠ 0

end AddrSpace

/-! ## `sub_area` with the range of the new area -/

theorem MemArea.sub_of_not_overlapping {a : MemArea} {s e : Nat}
    (h : a.overlapping s e = false) : a.sub s e = ⟨a, none, [], []⟩ := by
  unfold sub subTo
  rw [h]
  rfl

/-- `sub` with the range of the area itself: the range ends where the area does, so it is the branch
that trims, down to nothing. -/
theorem MemArea.sub_whole {b : MemArea} (hlen : b.len ≠ 0) :
    (b.sub b.start b.stop).area = { b with len := 0, mtrackers := [] }
      ∧ (b.sub b.start b.stop).split = none
      ∧ (b.sub b.start b.stop).unmapped = b.mtrackers.map (·.vaddr) := by
  have hstop : b.stop = b.start + b.len := rfl
  have hover : b.overlapping b.start b.stop = true := by
    rw [overlapping_iff]
    omega
  have hstart : inRange b.start b.stop b.start = true := by
    rw [inRange_iff]
    omega
  have hend : inRange b.start b.stop b.stop = false := by
    rw [← Bool.not_eq_true, inRange_iff]
    omega
  have hnone : ∀ v, inRange b.start b.start v = false := by
    intro v
    rw [← Bool.not_eq_true, inRange_iff]
    omega
  unfold sub subTo
  rw [hover, hstart, hend]
  simp [stop, hnone]

/-- The writes of an area that is taken out whole. -/
theorem MemArea.subWrites_whole {b : MemArea} (hlen : b.len ≠ 0) :
    b.subWrites b.start b.stop
      = match b.file with
        | some file =>
          (b.mtrackers.filter (fun t => inRange b.start b.stop t.vaddr)).map (b.pageWrite file)
        | none => [] := by
  have hstop : b.stop = b.start + b.len := rfl
  have hover : b.overlapping b.start b.stop = true := by
    rw [overlapping_iff]
    omega
  have hwriter : b.subWriter b.start b.stop = b := by
    unfold subWriter
    rw [if_pos (by rw [inRange_iff]; omega)]
  unfold subWrites
  rw [hwriter]
  cases b.file with
  | some file => exact if_pos hover
  | none => rfl

namespace MemSet

variable {areas : List MemArea} {s e : Nat}

theorem subArea_of_not_overlapping (h : ∀ a ∈ areas, a.overlapping s e = false) :
    subArea ⟨areas⟩ s e = ⟨areas.filter (·.len != 0)⟩ := by
  have hmap : areas.map (·.sub s e) = areas.map (fun a => ⟨a, none, [], []⟩) :=
    List.map_congr_left (fun a ha => MemArea.sub_of_not_overlapping (h a ha))
  unfold subArea ofResults
  simp only [hmap, List.map_map, List.filterMap_map, Function.comp_def, List.filterMap_none,
    List.map_id', List.append_nil]

/-- The other areas are out of the way. -/
theorem subArea_last {b : MemArea} (h : ∀ a ∈ areas, a.overlapping b.start b.stop = false)
    (hlen : b.len ≠ 0) :
    subArea ⟨areas ++ [b]⟩ b.start b.stop = ⟨areas.filter (·.len != 0)⟩ := by
  obtain ⟨harea, hsplit, -⟩ := MemArea.sub_whole hlen
  have hrest := congrArg MemSet.areas (subArea_of_not_overlapping h)
  unfold subArea ofResults at hrest ⊢
  simp only [List.map_append, List.map_cons, List.map_nil, List.filter_append,
    List.filterMap_append, harea, List.filterMap_cons, hsplit, List.filterMap_nil,
    List.append_nil, List.filter_cons, bne_self_eq_false, Bool.false_eq_true, if_false,
    List.filter_nil] at hrest ⊢
  exact congrArg MemSet.mk hrest

theorem subAreaPt_last {b : MemArea} (h : ∀ a ∈ areas, a.overlapping b.start b.stop = false)
    (hlen : b.len ≠ 0) (pt : PageTable) :
    subAreaPt ⟨areas ++ [b]⟩ b.start b.stop pt
      = pt.unmapPages (b.mtrackers.map (·.vaddr)) := by
  have hnone : areas.flatMap (fun a => (a.sub b.start b.stop).unmapped) = [] := by
    rw [List.flatMap_eq_nil_iff]
    intro a ha
    rw [MemArea.sub_of_not_overlapping (h a ha)]
  unfold subAreaPt
  rw [List.flatMap_append, hnone, List.nil_append, List.flatMap_cons, List.flatMap_nil,
    List.append_nil, (MemArea.sub_whole hlen).2.2]

/-- What is written is the new area's, and what areas of length zero write as they are dropped. -/
theorem subAreaWrites_last {b : MemArea} (h : ∀ a ∈ areas, a.overlapping b.start b.stop = false)
    (hlen : b.len ≠ 0) :
    subAreaWrites ⟨areas ++ [b]⟩ b.start b.stop
      = areas.flatMap (fun a => if a.len = 0 then a.dropWrites (fun _ => 1) else [])
        ++ b.subWrites b.start b.stop := by
  have hrest : areas.flatMap (fun a =>
      let r := a.sub b.start b.stop
      a.subWrites b.start b.stop ++ if r.area.len = 0 then r.area.dropWrites (fun _ => 1) else [])
      = areas.flatMap (fun a => if a.len = 0 then a.dropWrites (fun _ => 1) else []) := by
    apply List.flatMap_congr
    intro a ha
    have hnone : a.subWrites b.start b.stop = [] := by
      unfold MemArea.subWrites
      rw [h a ha]
      cases a.file <;> rfl
    dsimp only
    rw [hnone, MemArea.sub_of_not_overlapping (h a ha), List.nil_append]
  unfold subAreaWrites
  rw [List.flatMap_append, hrest, List.flatMap_cons, List.flatMap_nil, List.append_nil]
  congr 1
  dsimp only
  rw [(MemArea.sub_whole hlen).1]
  -- nothing is left to be written when the area is dropped
  unfold MemArea.dropWrites
  cases b.mtype <;> cases b.file <;> simp

end MemSet

/-! ## Reading into the new area -/

namespace AddrSpace

variable {p addr len : Nat} {s : AddrSpace} {areas : List MemArea}

/-- A fault in the last area, every page of which has its tracker: the tracker may have another
frame, and the page another entry. -/
theorem fault_last {b : MemArea} {pt : PageTable} {env : FaultEnv} {vaddr : Nat} {r : FaultResult}
    (hb : b.contains vaddr = true) (hareas : ∀ a ∈ areas, a.contains vaddr = false)
    (hpage : floor vaddr ∈ b.mtrackers.map (·.vaddr))
    (h : MonkeyOS.userCowInt ⟨areas ++ [b]⟩ pt env vaddr = some r) :
    ∃ ts : List MapTrack, ts.map (·.vaddr) = b.mtrackers.map (·.vaddr)
      ∧ r.memset = ⟨areas ++ [{ b with mtrackers := ts }]⟩
      ∧ ∀ p, p ≠ floor vaddr → r.pt p = pt p := by
  obtain ⟨pre, a, post, hsplit, ha, hfaulted⟩ := userCowInt_faulted h
  -- the area of the fault is the last one
  have hlast : pre = areas ∧ a = b ∧ post = [] := by
    rcases List.append_eq_append_iff.mp hsplit with ⟨c, hpre, hc⟩ | ⟨c, hold, hc⟩
    · cases c with
      | nil =>
        obtain ⟨hab, hpost⟩ := List.cons.inj hc
        exact ⟨by rw [hpre, List.append_nil], hab.symm, hpost.symm⟩
      | cons d c => simp at hc
    · cases c with
      | nil =>
        obtain ⟨hab, hpost⟩ := List.cons.inj hc
        exact ⟨by rw [hold, List.append_nil], hab, hpost⟩
      | cons d c =>
        obtain ⟨had, -⟩ := List.cons.inj hc
        have hin : a ∈ areas := by
          rw [hold, had]
          exact List.mem_append_cons_self
        rw [hareas a hin] at ha
        cases ha
  obtain ⟨rfl, rfl, rfl⟩ := hlast
  cases hfaulted with
  | segv => exact ⟨a.mtrackers, rfl, rfl, fun _ _ => rfl⟩
  | remapped ht hvaddr hmtype hcount => exact ⟨a.mtrackers, rfl, rfl, fun _ hp => if_neg hp⟩
  | copied htrackers hvaddr hmtype hcount hframe =>
    refine ⟨_, ?_, rfl, fun _ hp => if_neg hp⟩
    rw [htrackers]
    simp
  | filled hnone hframe hsource =>
    obtain ⟨t, ht, htv⟩ := List.mem_map.mp hpage
    exact absurd htv (hnone t ht)

/-- **Reading into a new area** leaves the areas before it and the rest of the page table alone. -/
theorem touch_fresh {pages : List Nat}
    (hareas : ∀ a ∈ areas, ∀ v, a.contains v = true → ¬ (addr ≤ v ∧ v < addr + len))
    (hpages : ∀ v, addr ≤ v → v < addr + len → floor v ∈ pages) {touched : List (Nat × FaultEnv)}
    (htouched : ∀ x ∈ touched, addr ≤ x.1 ∧ x.1 < addr + len) :
    ∀ (s : AddrSpace) (b : MemArea), b.start = addr → b.len = len →
      b.mtrackers.map (·.vaddr) = pages → s.memset = ⟨areas ++ [b]⟩ →
      ∃ ts : List MapTrack, ts.map (·.vaddr) = pages
        ∧ (s.touch touched).memset = ⟨areas ++ [{ b with mtrackers := ts }]⟩
        ∧ (∀ p, p ∉ pages → (s.touch touched).pt p = s.pt p)
        ∧ (s.touch touched).shms = s.shms := by
  induction touched with
  | nil => exact fun _ _ _ _ hts hs => ⟨_, hts, hs, fun _ _ => rfl, rfl⟩
  | cons x rest ih =>
    intro s b hstart hlen hts hs
    have ih := ih (fun y hy => htouched y (List.mem_cons_of_mem _ hy))
    have hx := htouched x List.mem_cons_self
    unfold touch
    cases hfault : MonkeyOS.userCowInt s.memset s.pt x.2 x.1 with
    | none => exact ih s b hstart hlen hts hs
    | some r =>
      rw [hs] at hfault
      obtain ⟨ts, htsv, hmemset, hpt⟩ := fault_last
        (by rw [MemArea.contains_iff, MemArea.stop, hstart, hlen]; exact hx)
        (fun a ha => by
          rw [← Bool.not_eq_true]
          exact fun hv => hareas a ha _ hv hx)
        (by rw [hts]; exact hpages _ hx.1 hx.2) hfault
      obtain ⟨ts', hts', hmem', hpt', hshms⟩ :=
        ih { s with memset := r.memset, pt := r.pt } { b with mtrackers := ts } hstart
          hlen (htsv.trans hts) hmemset
      refine ⟨ts', hts', hmem', fun p hp => ?_, hshms⟩
      rw [hpt' p hp]
      apply hpt p
      intro heq
      exact hp (heq ▸ hpages _ hx.1 hx.2)

/-! ## The area of a file mapping -/

theorem mem_pagesOf :
    p ∈ pagesOf addr len ↔ ∃ i < divCeil len pageSize, p = addr + i * pageSize := by
  unfold pagesOf
  simp [eq_comm]

theorem floor_mem_pagesOf (haddr : addr % pageSize = 0) (hlen : len % pageSize = 0) {v : Nat}
    (hlo : addr ≤ v) (hhi : v < addr + len) :
    floor v ∈ pagesOf addr len := by
  have hceil := divCeil_mul_cancel hlen
  have hle : addr ≤ floor v := by
    unfold floor pageSize at *
    omega
  have hi : floor v = addr + (floor v - addr) / pageSize * pageSize := by
    have hmod := floor_mod v
    unfold pageSize at *
    omega
  refine mem_pagesOf.mpr ⟨(floor v - addr) / pageSize, ?_, hi⟩
  have hmul : (floor v - addr) / pageSize * pageSize < divCeil len pageSize * pageSize := by
    have hfloor := floor_le v
    omega
  exact Nat.lt_of_mul_lt_mul_right hmul

structure FileArea (args : MmapArgs) (file addr len : Nat) (a : MemArea) : Prop where
  pages : a.mtrackers.map (·.vaddr) = pagesOf addr len
  start : a.start = addr
  len : a.len = len
  shared : args.shared = true → a.file = some file
  priv : args.shared = false → a.file = none

theorem mapNew_file {t : AddrSpace} {env : MmapEnv} {args : MmapArgs} {file : Nat}
    (haddr : addr ≠ 0) (hlen : len % pageSize = 0)
    (h : s.mapNew env args (some file) addr len = some t) :
    ∃ a flags, FileArea args file addr len a ∧ t = s.install addr a flags := by
  unfold mapNew at h
  rw [round_up_eq_divCeil hlen] at h
  cases hshared : args.shared with
  | true =>
    rw [if_pos hshared] at h
    obtain ⟨r, hr, rfl⟩ := Option.map_eq_some_iff.mp h
    refine ⟨_, _, ⟨?_, rfl, rfl, fun _ => rfl,
      fun hp => absurd (hshared.symm.trans hp) (by decide)⟩,
      mapFrames_cases (by decide) hr⟩
    rw [map_vaddr_pageTrackers haddr]
    simp [contiguous, pagesOf]
  | false =>
    rw [if_neg (by rw [hshared]; decide)] at h
    obtain ⟨r, hr, rfl⟩ := Option.map_eq_some_iff.mp h
    obtain ⟨frames, hcount, -, ht⟩ := frameAlloc_cases (by decide) hr
    refine ⟨_, _, ⟨?_, rfl, divCeil_mul_cancel hlen,
      fun hs => absurd (hshared.symm.trans hs) (by decide), fun _ => rfl⟩, ht⟩
    rw [map_vaddr_pageTrackers haddr, hcount]
    rfl

theorem mapNew_isSome_iff (s : AddrSpace) (env : MmapEnv) (args : MmapArgs) (file addr : Nat) :
    (s.mapNew env args (some file) addr args.alignedLen).isSome ↔ Frames env args := by
  unfold mapNew Frames
  rw [round_up_eq_divCeil args.alignedLen_mod]
  cases hshared : args.shared with
  | true => simp [mapFrames]
  | false =>
    dsimp only
    rw [if_neg (by decide), Option.isSome_map]
    unfold frameAlloc
    split
    · rename_i hmany
      cases env.frameAllocMuch (divCeil args.alignedLen pageSize) with
      | some frame => simp
      | none => simp [hmany.2]
    · rename_i hone
      have hone : ¬ 1 < divCeil args.alignedLen pageSize := fun h => hone ⟨rfl, h⟩
      simp [mapFrames, hone]

theorem install_pt_of_not_mem {a : MemArea} {flags : MappingFlags}
    (hp : p ∉ a.mtrackers.map (·.vaddr)) : (s.install addr a flags).pt p = s.pt p := by
  show s.mapArea addr a flags p = s.pt p
  unfold mapArea
  split
  · apply PageTable.mapTrackers_of_not_mem
    intro t ht heq
    exact hp (List.mem_map.mpr ⟨t, (List.mem_filter.mp ht).1, heq⟩)
  · rfl

theorem mmapAddr_ne_zero (s : AddrSpace) (start : Nat) : s.mmapAddr start ≠ 0 := by
  unfold mmapAddr
  split
  · split <;> omega
  · assumption

/-! ## How the call ends -/

section Ends

variable {s t : AddrSpace} {env : MmapEnv} {args : MmapArgs} {answers : MmapAnswers}
  {file addr len : Nat} {err : Errno} {touched : List (Nat × FaultEnv)}

theorem reserve_of_room (h : ¬ s.Overlaps args) :
    s.reserve false (s.mmapAddr args.start)
      ((s.mmapAddr args.start + args.alignedLen) % 2 ^ 64) = some s :=
  if_neg h

/-- `map` does not panic. The faults of the read lie in the mapping, so they ask for nothing new. -/
theorem all_maps_iff (tables : Nat → Bool) (hlen : len % pageSize = 0)
    (hne : divCeil len pageSize ≠ 0) (htouched : ∀ x ∈ touched, addr ≤ x.1 ∧ x.1 < addr + len) :
    (pagesOf addr len ++ touched.map (fun x => floor x.1)).all
        (fun v => v % pageSize == 0 && tables v) = true
      ↔ addr % pageSize = 0 ∧ ∀ v ∈ pagesOf addr len, tables v = true := by
  simp only [List.all_eq_true, List.forall_mem_append, Bool.and_eq_true, beq_iff_eq]
  constructor
  · rintro ⟨hpages, -⟩
    have hfirst := hpages addr (mem_pagesOf.mpr ⟨0, Nat.pos_of_ne_zero hne, by omega⟩)
    exact ⟨hfirst.1, fun v hv => (hpages v hv).2⟩
  · rintro ⟨haddr, htables⟩
    refine ⟨fun v hv => ⟨?_, htables v hv⟩, fun v hv => ?_⟩
    · obtain ⟨i, -, rfl⟩ := mem_pagesOf.mp hv
      rw [Nat.add_mul_mod_self_right, haddr]
    obtain ⟨x, hx, rfl⟩ := List.mem_map.mp hv
    have hin := htouched x hx
    exact ⟨floor_mod x.1, htables _ (floor_mem_pagesOf haddr hlen hin.1 hin.2)⟩

theorem divCeil_ne_zero (hlen : len ≠ 0) : divCeil len pageSize ≠ 0 := by
  intro h
  have hceil := le_mul_divCeil len pageSize_pos
  rw [h, Nat.mul_zero] at hceil
  exact hlen (Nat.le_zero.mp hceil)

/-- The read has failed, and the area is taken out again. -/
theorem sysMmapEnd_of_read (hfixed : args.fixed = false) (hfile : args.file env = some file)
    (herr : env.readErr = some err) (hlen : args.alignedLen ≠ 0) (h : ¬ s.Overlaps args)
    (hnew : s.mapNew env args (some file) (s.mmapAddr args.start) args.alignedLen = some t)
    (htouched : ∀ x ∈ env.touched, s.mmapAddr args.start ≤ x.1
      ∧ x.1 < s.mmapAddr args.start + args.alignedLen) :
    s.FailsClean env args answers err
      ↔ (s.mmapAddr args.start % pageSize = 0
          ∧ ∀ v ∈ pagesOf (s.mmapAddr args.start) args.alignedLen, answers.tables v = true)
        ∧ (t.touch env.touched).subArea (s.mmapAddr args.start)
          ((s.mmapAddr args.start + args.alignedLen) % 2 ^ 64) = s
        ∧ (t.touch env.touched).memset.subAreaWrites (s.mmapAddr args.start)
          ((s.mmapAddr args.start + args.alignedLen) % 2 ^ 64) = [] := by
  have hmaps : s.sysMmapMaps env args = pagesOf (s.mmapAddr args.start) args.alignedLen
      ++ env.touched.map (fun x => floor x.1) := by
    simp only [sysMmapMaps, hlen, if_false, hfixed, reserve_of_room h, hfile, hnew, mapNewMaps,
      Option.isSome_some, Bool.or_true, if_true, Option.isNone_some, Bool.false_eq_true]
  have hwrites : s.sysMmapWrites env args
      = (t.touch env.touched).memset.subAreaWrites (s.mmapAddr args.start)
        ((s.mmapAddr args.start + args.alignedLen) % 2 ^ 64) := by
    simp only [sysMmapWrites, hlen, if_false, hfixed, reserve_of_room h, hfile, hnew, herr,
      Bool.false_and, Bool.false_eq_true, List.nil_append, Option.isNone_some, Bool.or_self]
  have hcall : s.sysMmap env args
      = (.error err, (t.touch env.touched).subArea (s.mmapAddr args.start)
        ((s.mmapAddr args.start + args.alignedLen) % 2 ^ 64)) := by
    simp only [sysMmap, hlen, if_false, hfixed, reserve_of_room h, hfile, hnew, herr,
      Option.isNone_some, Bool.false_eq_true]
  have hmap := all_maps_iff answers.tables args.alignedLen_mod (divCeil_ne_zero hlen) htouched
  unfold FailsClean sysMmapEnd
  rw [hmaps, hwrites, hcall]
  generalize MemSet.subAreaWrites _ _ _ = writes
  constructor
  · intro hend
    split at hend
    · rename_i hok
      rw [Bool.and_eq_true, hmap] at hok
      simp only [Option.some.injEq, Prod.mk.injEq, true_and] at hend
      exact ⟨hok.1, hend⟩
    · cases hend
  · rintro ⟨hok, hspace, rfl⟩
    rw [hmap.mpr hok, hspace]
    rfl

/-- From `s` to `u` there is one more area, the last one; outside of its pages nothing was mapped. -/
structure Added (s u : AddrSpace) (addr len : Nat) (b : MemArea) : Prop where
  start : b.start = addr
  length : b.len = len
  pages : b.mtrackers.map (·.vaddr) = pagesOf addr len
  memset : u.memset = ⟨s.memset.areas ++ [b]⟩
  pt : ∀ p, p ∉ pagesOf addr len → u.pt p = s.pt p
  shms : u.shms = s.shms

section Added

variable {u : AddrSpace} {b : MemArea} (h : Added s u addr len b) (hlen : len ≠ 0)
  (hother : ∀ c ∈ s.memset.areas, c.overlapping addr (addr + len) = false)

include h hlen hother

/-- The new area is taken out, and with it everything that was mapped in its range. -/
theorem Added.subArea_eq :
    u.subArea addr (addr + len)
      = ⟨⟨s.memset.areas.filter (·.len != 0)⟩,
        fun p => if p ∈ pagesOf addr len then none else s.pt p, s.shms⟩ := by
  obtain ⟨rfl, rfl, hpages, hmemset, hpt, hshms⟩ := h
  have hareas : u.memset.subArea b.start b.stop
      = ⟨s.memset.areas.filter (·.len != 0)⟩ := by
    rw [hmemset, MemSet.subArea_last hother hlen]
  have hptEq : u.memset.subAreaPt b.start b.stop u.pt
      = fun p => if p ∈ pagesOf b.start b.len then none else s.pt p := by
    funext p
    rw [hmemset, MemSet.subAreaPt_last hother hlen, PageTable.unmapPages_apply, hpages]
    split
    · rfl
    · rename_i hp
      exact hpt p hp
  show (⟨u.memset.subArea b.start b.stop, u.memset.subAreaPt b.start b.stop u.pt, u.shms⟩ : AddrSpace)
    = _
  rw [hareas, hptEq, hshms]

theorem Added.subArea_eq_iff :
    u.subArea addr (addr + len) = s
      ↔ (∀ p ∈ pagesOf addr len, s.pt p = none) ∧ ∀ a ∈ s.memset.areas, a.len ≠ 0 := by
  rw [h.subArea_eq hlen hother]
  constructor
  · intro hspace
    have hpt := congrArg AddrSpace.pt hspace
    have hareas := congrArg (·.memset.areas) hspace
    refine ⟨?_, ?_⟩
    · intro p hp
      rw [← hpt]
      exact if_pos hp
    · intro c hc hzero
      have hcne := List.filter_eq_self.mp hareas c hc
      simp [hzero] at hcne
  · intro hrest
    obtain ⟨hunmapped, hnonempty⟩ := hrest
    have hareas : s.memset.areas.filter (·.len != 0) = s.memset.areas :=
      List.filter_eq_self.mpr (fun c hc => by simpa using hnonempty c hc)
    have hpt : (fun p => if p ∈ pagesOf addr len then none else s.pt p) = s.pt := by
      funext p
      split
      · rename_i hp
        exact (hunmapped p hp).symm
      · rfl
    rw [hareas, hpt]

/-- With no empty area among the others, only the new one can write, and its first page does. -/
theorem Added.subAreaWrites_eq_nil_iff (hnonempty : ∀ a ∈ s.memset.areas, a.len ≠ 0) :
    u.memset.subAreaWrites addr (addr + len) = [] ↔ b.file = none := by
  obtain ⟨rfl, rfl, hpages, hmemset, -, -⟩ := h
  have hothers : s.memset.areas.flatMap
      (fun a => if a.len = 0 then a.dropWrites (fun _ => 1) else []) = [] := by
    rw [List.flatMap_eq_nil_iff]
    intro c hc
    exact if_neg (hnonempty c hc)
  show u.memset.subAreaWrites b.start b.stop = [] ↔ _
  rw [hmemset, MemSet.subAreaWrites_last hother hlen, hothers, List.nil_append,
    MemArea.subWrites_whole hlen]
  cases hfile : b.file with
  | none => exact ⟨fun _ => rfl, fun _ => rfl⟩
  | some file =>
    refine iff_of_false ?_ (by simp)
    intro hnone
    have hfirst : b.start ∈ b.mtrackers.map (·.vaddr) := by
      rw [hpages]
      exact mem_pagesOf.mpr ⟨0, Nat.pos_of_ne_zero (divCeil_ne_zero hlen), by omega⟩
    obtain ⟨x, hx, hxv⟩ := List.mem_map.mp hfirst
    have hin : inRange b.start b.stop x.vaddr = true := by
      have hstop : b.stop = b.start + b.len := rfl
      rw [inRange_iff]
      omega
    have hmem : x ∈ b.mtrackers.filter (fun t => inRange b.start b.stop t.vaddr) :=
      List.mem_filter.mpr ⟨hx, hin⟩
    rw [List.map_eq_nil_iff.mp hnone] at hmem
    cases hmem

end Added

/-- The area of a file, after the faults of the read. -/
theorem mapNew_added (hne : addr ≠ 0) (haddr : addr % pageSize = 0)
    (hroom : s.memset.overlapping addr (addr + args.alignedLen) = false)
    (hnew : s.mapNew env args (some file) addr args.alignedLen = some t)
    (htouched : ∀ x ∈ touched, addr ≤ x.1 ∧ x.1 < addr + args.alignedLen) :
    ∃ b, Added s (t.touch touched) addr args.alignedLen b ∧ (b.file = none ↔ args.shared = false) := by
  obtain ⟨a, flags, harea, rfl⟩ := mapNew_file hne args.alignedLen_mod hnew
  obtain ⟨ts, hts, hmemset, hpt, hshms⟩ := touch_fresh (MemSet.free_of_not_overlapping hroom)
    (fun v => floor_mem_pagesOf haddr args.alignedLen_mod) htouched
    (s.install addr a flags) a harea.start harea.len harea.pages rfl
  refine ⟨{ a with mtrackers := ts }, ⟨harea.start, harea.len, hts, hmemset, ?_, hshms⟩, ?_⟩
  · intro p hp
    rw [hpt p hp]
    exact install_pt_of_not_mem (by rw [harea.pages]; exact hp)
  · show a.file = none ↔ _
    cases hshared : args.shared with
    | true =>
      rw [harea.shared hshared]
      simp
    | false =>
      rw [harea.priv hshared]
      simp

/-- The undoing leaves nothing behind exactly for a private mapping of pages that were free. -/
theorem undone_iff (hne : addr ≠ 0) (haddr : addr % pageSize = 0) (hlen : args.alignedLen ≠ 0)
    (hroom : s.memset.overlapping addr (addr + args.alignedLen) = false)
    (hnew : s.mapNew env args (some file) addr args.alignedLen = some t)
    (htouched : ∀ x ∈ touched, addr ≤ x.1 ∧ x.1 < addr + args.alignedLen) :
    ((t.touch touched).subArea addr (addr + args.alignedLen) = s
        ∧ (t.touch touched).memset.subAreaWrites addr (addr + args.alignedLen) = [])
      ↔ args.shared = false ∧ (∀ v ∈ pagesOf addr args.alignedLen, s.pt v = none)
        ∧ ∀ a ∈ s.memset.areas, a.len ≠ 0 := by
  obtain ⟨b, hadded, hfile⟩ := mapNew_added hne haddr hroom hnew htouched
  have hother : ∀ c ∈ s.memset.areas, c.overlapping addr (addr + args.alignedLen) = false := by
    intro c hc
    unfold MemSet.overlapping at hroom
    simpa using List.any_eq_false.mp hroom c hc
  rw [hadded.subArea_eq_iff hlen hother, ← hfile]
  constructor
  · rintro ⟨⟨hunmapped, hnonempty⟩, hwrites⟩
    exact ⟨(hadded.subAreaWrites_eq_nil_iff hlen hother hnonempty).mp hwrites, hunmapped, hnonempty⟩
  · rintro ⟨hnone, hunmapped, hnonempty⟩
    exact ⟨⟨hunmapped, hnonempty⟩,
      (hadded.subAreaWrites_eq_nil_iff hlen hother hnonempty).mpr hnone⟩

end Ends

/-- A kernel with a file that cannot be read, behind descriptor 3. -/
def unreadable (err : Errno) : MmapEnv where
  getFd := fun fd => if fd = 3 then some 0 else none
  frameAllocMuch := fun _ => some 0x80000000
  segments := fun _ => none
  touched := []
  readErr := some err

/-- A file that takes no write, and an allocator with a frame for every table. -/
def readOnly : MmapAnswers := ⟨fun _ => false, fun _ => true⟩

end AddrSpace

end MonkeyOS
