import MonkeyOS.Mem.Mmap

/-!
# MonkeyOS — what a shared file mapping writes to its file (`kernel/src/tasks/memset.rs`)

A `ShareFile` area writes its pages to the file in two places: `MemArea::sub` calls `write_page` for
the pages a `munmap` takes out, at `vaddr + offset - start`, and `Drop` writes what is left, at
`vaddr - start`. `start` and `offset` change when an area is trimmed or split.

* `MemArea.subWrites`, `MemArea.dropWrites` — the two, with the subtractions on `usize`;
* `WrittenBack` — every page where it came from, every page at least once, no subtraction below zero,
  and later faults from the same place;
* `Tame` — the calls for which that holds: each takes the end of what is left, and what is left in the
  end was mapped from the file's start (`writtenBack_iff_tame`);
* `sysMmap_writtenBack_iff` — for every area of `sys_mmap`.

Positions are `usize`: a sum wraps at `2^64`. The trackers are held by this area only
(`Arc::strong_count` is 1), as after `sys_mmap`; other areas keep to their own files and pages.
-/

namespace MonkeyOS

open Lib

/-! ## The writes -/

/-- A page-aligned range of addresses. -/
structure PageRange where
  start : Nat
  stop : Nat
  start_aligned : start % pageSize = 0
  stop_aligned : stop % pageSize = 0
  le : start ≤ stop

/-- `file.writeat(pos, frame[..len])`. -/
structure FileWrite where
  file : Nat
  frame : Nat
  pos : Nat
  len : Nat
  /-- a subtraction on the way went below zero -/
  underflows : Bool
  deriving DecidableEq

namespace MemArea

/-- `write_page`. -/
def pageWrite (a : MemArea) (file : Nat) (t : MapTrack) : FileWrite where
  file := file
  frame := t.tracker
  pos := (t.vaddr + a.offset + 2 ^ 64 - a.start) % 2 ^ 64
  len := pageSize
  underflows := t.vaddr + a.offset < a.start

/-- The bounds `write_page` finds when `sub` calls it: in one branch they are the new ones. -/
def subWriter (a : MemArea) (s e : Nat) : MemArea :=
  if inRange a.start a.stop s then a
  else if inRange s e a.start && inRange s e a.stop then a
  else if inRange s e a.start then { a with len := a.stop - e, start := e }
  else a

/-- The pages `sub` writes. -/
def subWrites (a : MemArea) (s e : Nat) : List FileWrite :=
  match a.file with
  | some file =>
    if a.overlapping s e then
      (a.mtrackers.filter (fun t => inRange s e t.vaddr)).map ((a.subWriter s e).pageWrite file)
    else []
  | none => []

/-- One iteration of the loop of `MemArea::drop`. -/
def dropWrite (a : MemArea) (file : Nat) (t : MapTrack) : FileWrite :=
  let offset := (t.vaddr + 2 ^ 64 - a.start) % 2 ^ 64
  { file := file
    frame := t.tracker
    pos := offset
    len := min ((a.len + 2 ^ 64 - offset) % 2 ^ 64) pageSize
    underflows := t.vaddr < a.start ∨ a.len < offset }

/-- The pages `MemArea::drop` writes: of a shared file, those that no one else holds. -/
def dropWrites (a : MemArea) (strongCount : Nat → Nat) : List FileWrite :=
  match a.mtype, a.file with
  | .shareFile, some file =>
    (a.mtrackers.filter (fun t => !decide (strongCount t.tracker > 1))).map (a.dropWrite file)
  | _, _ => []

theorem sub_written (a : MemArea) (s e : Nat) :
    (a.sub s e).written = if a.overlapping s e then (a.subWriter s e).writeBack s e else [] := by
  by_cases hover : a.overlapping s e = true
  · unfold sub subTo subWriter
    rw [if_pos hover, if_neg (by simp [hover])]
    by_cases hs : inRange a.start a.stop s = true
    · -- the bounds `write_page` looks at are the old ones
      rw [if_pos hs]
      split
      · rfl
      split
      · rfl
      · simp only
        rfl
    · rw [if_neg hs, if_neg (by simp [hs])]
      split
      · rfl
      · simp only
  · unfold sub subTo
    rw [if_neg hover, if_pos (by simpa using hover)]

/-- They are the writes of `sub`. -/
theorem subWrites_written (a : MemArea) (s e : Nat) :
    (a.subWrites s e).map (fun w => MemEvent.writePage w.file w.pos w.frame)
      = (a.sub s e).written := by
  have hfile : (a.subWriter s e).file = a.file := by
    unfold subWriter
    split_ifs <;> rfl
  have htrackers : (a.subWriter s e).mtrackers = a.mtrackers := by
    unfold subWriter
    split_ifs <;> rfl
  rw [sub_written]
  unfold subWrites writeBack
  rw [hfile, htrackers]
  cases a.file with
  | none => simp
  | some file =>
    simp only
    split
    · rw [List.map_map]
      rfl
    · rfl

end MemArea

namespace MemSet

/-- The writes of `sub_area`: an area of which nothing is left is dropped. -/
def subAreaWrites (m : MemSet) (s e : Nat) : List FileWrite :=
  m.areas.flatMap (fun a =>
    let r := a.sub s e
    a.subWrites s e ++ if r.area.len = 0 then r.area.dropWrites (fun _ => 1) else [])

/-- `sys_munmap` for each range. -/
def after (m : MemSet) (rs : List PageRange) : MemSet :=
  rs.foldl (fun m r => m.subArea r.start r.stop) m

/-- The writes of `sys_munmap` for each range, and of dropping what remains. -/
def writes (m : MemSet) : List PageRange → List FileWrite
  | [] => m.areas.flatMap (fun a => a.dropWrites (fun _ => 1))
  | r :: rs => m.subAreaWrites r.start r.stop ++ (m.subArea r.start r.stop).writes rs

end MemSet

/-! ## The law -/

/-- The area `sys_mmap` makes for a shared file: page `i` from `a` on is in `frames[i]`. -/
def shareArea (file off a : Nat) (frames : List Nat) : MemArea :=
  ⟨.shareFile, pageTrackers a frames, some file, off, a, frames.length * pageSize⟩

/-- A fault that brings in a page reads it from the file as a mapping from `off` on, at `a`, does. -/
def MemSet.ReadsFrom (m : MemSet) (off a : Nat) : Prop :=
  ∀ pt env vaddr r frame source pos, userCowInt m pt env vaddr = some r →
    r.effect = .filled frame (some (source, pos)) → pos = (off + (floor vaddr - a)) % 2 ^ 64

/-- The mapping of `file` from `off` on, at `a`, under `munmap` of each range and the final drop. Page
`i` has address `a + i * PAGE_SIZE`. -/
structure WrittenBack (file off a : Nat) (frames : List Nat) (rs : List PageRange) : Prop where
  /-- a page is written only where it came from -/
  placed : ∀ w ∈ MemSet.writes ⟨[shareArea file off a frames]⟩ rs, ∀ i,
    frames[i]? = some w.frame → w.pos = (off + i * pageSize) % 2 ^ 64
  /-- every page is written, and all of it -/
  written : ∀ (i p : Nat), frames[i]? = some p →
    ∃ w ∈ MemSet.writes ⟨[shareArea file off a frames]⟩ rs, w.frame = p ∧ w.len = pageSize
  exact : ∀ w ∈ MemSet.writes ⟨[shareArea file off a frames]⟩ rs, w.underflows = false
  /-- a fault at any time in between reads the page from where it came -/
  reads : ∀ pre, pre <+: rs → (MemSet.after ⟨[shareArea file off a frames]⟩ pre).ReadsFrom off a

/-- The range has nothing of `[a, c)`. -/
def PageRange.Misses (r : PageRange) (a c : Nat) : Prop := r.stop ≤ a ∨ c ≤ r.start

instance (r : PageRange) (a c : Nat) : Decidable (r.Misses a c) :=
  inferInstanceAs (Decidable (_ ∨ _))

/-- The range takes the end of `[a, c)` and leaves its front. -/
def PageRange.Trims (r : PageRange) (a c : Nat) : Prop := a < r.start ∧ c ≤ r.stop

instance (r : PageRange) (a c : Nat) : Decidable (r.Trims a c) :=
  inferInstanceAs (Decidable (_ ∧ _))

/-- The range takes all of `[a, c)`: exactly that, or it goes on behind it. -/
def PageRange.Takes (r : PageRange) (a c : Nat) : Prop :=
  r.start ≤ a ∧ c < r.stop ∨ r.start = a ∧ r.stop = c

instance (r : PageRange) (a c : Nat) : Decidable (r.Takes a c) :=
  inferInstanceAs (Decidable (_ ∨ _))

/-- The calls that leave `[a, c)` whole at its front until it is gone; if it is not gone in the end,
it is a mapping of the file's start. -/
def Tame (off a : Nat) : Nat → List PageRange → Prop
  | _, [] => off = 0
  | c, r :: rs =>
    if r.Misses a c then Tame off a c rs
    else if r.Trims a c then Tame off a r.start rs
    else r.Takes a c

instance decidableTame (off a : Nat) : (c : Nat) → (rs : List PageRange) → Decidable (Tame off a c rs)
  | _, [] => inferInstanceAs (Decidable (off = 0))
  | c, r :: rs =>
    have : Decidable (Tame off a c rs) := decidableTame off a c rs
    have : Decidable (Tame off a r.start rs) := decidableTame off a r.start rs
    inferInstanceAs (Decidable (if r.Misses a c then Tame off a c rs
      else if r.Trims a c then Tame off a r.start rs else r.Takes a c))

/-! ## The pages of the area -/

section Pages

variable {a : Nat} {frames : List Nat}

theorem mem_pageTrackers_iff (hv : a ≠ 0) {t : MapTrack} :
    t ∈ pageTrackers a frames ↔ ∃ i p, frames[i]? = some p ∧ t = ⟨a + i * pageSize, p, 0⟩ := by
  unfold pageTrackers
  rw [List.mem_mapIdx]
  constructor
  · rintro ⟨i, hi, rfl⟩
    exact ⟨i, frames[i], List.getElem?_eq_getElem hi, by rw [if_neg hv]⟩
  · rintro ⟨i, p, hp, rfl⟩
    obtain ⟨hi, rfl⟩ := List.getElem?_eq_some_iff.mp hp
    exact ⟨i, hi, by rw [if_neg hv]⟩

theorem pageTrackers_append (hv : a ≠ 0) (frames more : List Nat) :
    pageTrackers a (frames ++ more)
      = pageTrackers a frames ++ pageTrackers (a + frames.length * pageSize) more := by
  unfold pageTrackers
  rw [List.mapIdx_append]
  congr 1
  apply List.mapIdx_eq_mapIdx_iff.mpr
  intro i hi
  have hne : a + frames.length * pageSize ≠ 0 := by omega
  rw [if_neg hv, if_neg hne, Nat.add_mul]
  congr 1
  omega

/-- The pages below the `k`-th. -/
theorem filter_pageTrackers (hv : a ≠ 0) {k : Nat} (hk : k ≤ frames.length) :
    (pageTrackers a frames).filter (fun t => inRange a (a + k * pageSize) t.vaddr)
      = pageTrackers a (frames.take k) := by
  have hlen : (frames.take k).length = k := by rw [List.length_take]; omega
  conv_lhs => rw [← List.take_append_drop k frames]
  rw [pageTrackers_append hv, List.filter_append, hlen]
  have hfront : ∀ t ∈ pageTrackers a (frames.take k),
      inRange a (a + k * pageSize) t.vaddr = true := by
    intro t ht
    obtain ⟨i, hi, hti⟩ := mem_pageTrackers hv ht
    have hmul : (i + 1) * pageSize ≤ k * pageSize := Nat.mul_le_mul_right _ (by omega)
    have hpos := pageSize_pos
    rw [Nat.succ_mul] at hmul
    rw [inRange_iff]
    omega
  have hback : ∀ t ∈ pageTrackers (a + k * pageSize) (frames.drop k),
      ¬ inRange a (a + k * pageSize) t.vaddr = true := by
    intro t ht
    obtain ⟨i, -, hti⟩ := mem_pageTrackers (by omega) ht
    rw [inRange_iff]
    omega
  rw [List.filter_eq_self.mpr hfront, List.filter_eq_nil_iff.mpr hback, List.append_nil]

/-- A page-aligned address of the mapping is the address of a page. -/
theorem exists_page {v : Nat} (ha : a % pageSize = 0) (hv : v % pageSize = 0) (hle : a ≤ v)
    (hlt : v < a + frames.length * pageSize) :
    ∃ i p, frames[i]? = some p ∧ v = a + i * pageSize := by
  have hv' : v = a + (v - a) / pageSize * pageSize := by
    unfold pageSize at *
    omega
  have hi : (v - a) / pageSize < frames.length := by
    unfold pageSize at *
    omega
  exact ⟨(v - a) / pageSize, frames[(v - a) / pageSize], List.getElem?_eq_getElem hi, hv'⟩

theorem eq_of_getElem? (hnodup : frames.Nodup) {i j p : Nat} (hi : frames[i]? = some p)
    (hj : frames[j]? = some p) : i = j := by
  obtain ⟨hi, hip⟩ := List.getElem?_eq_some_iff.mp hi
  obtain ⟨hj, hjp⟩ := List.getElem?_eq_some_iff.mp hj
  exact (List.Nodup.getElem_inj_iff hnodup).mp (hip.trans hjp.symm)

end Pages

/-! ## A file write is of a page that is there -/

theorem MemArea.sub_mtrackers (a : MemArea) (s e : Nat) :
    (∀ t ∈ (a.sub s e).area.mtrackers, t ∈ a.mtrackers)
      ∧ ∀ b, (a.sub s e).split = some b → ∀ t ∈ b.mtrackers, t ∈ a.mtrackers := by
  unfold sub subTo
  split
  · exact ⟨fun t ht => ht, fun b hb => by cases hb⟩
  split
  · refine ⟨fun t ht => (List.mem_filter.mp (List.mem_filter.mp ht).1).1, fun b hb t ht => ?_⟩
    cases hb
    exact (List.mem_filter.mp (List.mem_filter.mp ht).1).1
  · split
    · exact ⟨fun t ht => absurd ht List.not_mem_nil, fun b hb => by cases hb⟩
    · exact ⟨fun t ht => (List.mem_filter.mp ht).1, fun b hb => by cases hb⟩

theorem MemArea.dropWrites_frame {a : MemArea} {strongCount : Nat → Nat} {w : FileWrite}
    (h : w ∈ a.dropWrites strongCount) : ∃ t ∈ a.mtrackers, t.tracker = w.frame := by
  unfold dropWrites at h
  split at h
  · obtain ⟨t, ht, rfl⟩ := List.mem_map.mp h
    exact ⟨t, (List.mem_filter.mp ht).1, rfl⟩
  · cases h

theorem MemArea.subWrites_frame {a : MemArea} {s e : Nat} {w : FileWrite}
    (h : w ∈ a.subWrites s e) : ∃ t ∈ a.mtrackers, t.tracker = w.frame := by
  unfold subWrites at h
  split at h
  · split at h
    · obtain ⟨t, ht, rfl⟩ := List.mem_map.mp h
      exact ⟨t, (List.mem_filter.mp ht).1, rfl⟩
    · cases h
  · cases h

theorem MemSet.writes_frame {rs : List PageRange} : ∀ {m : MemSet} {w : FileWrite},
    w ∈ m.writes rs → ∃ a ∈ m.areas, ∃ t ∈ a.mtrackers, t.tracker = w.frame := by
  induction rs with
  | nil =>
    intro m w h
    obtain ⟨a, ha, hw⟩ := List.mem_flatMap.mp h
    exact ⟨a, ha, MemArea.dropWrites_frame hw⟩
  | cons r rs ih =>
    intro m w h
    rcases List.mem_append.mp h with h | h
    · obtain ⟨a, ha, hw⟩ := List.mem_flatMap.mp h
      rcases List.mem_append.mp hw with hw | hw
      · exact ⟨a, ha, MemArea.subWrites_frame hw⟩
      · split at hw
        · obtain ⟨t, ht, hframe⟩ := MemArea.dropWrites_frame hw
          exact ⟨a, ha, t, (a.sub_mtrackers _ _).1 t ht, hframe⟩
        · cases hw
    · obtain ⟨b, hb, t, ht, hframe⟩ := ih h
      obtain ⟨a, ha, hpiece⟩ := MemSet.mem_subArea.mp hb
      obtain ⟨harea, hsplit⟩ := a.sub_mtrackers r.start r.stop
      refine ⟨a, ha, t, ?_, hframe⟩
      rcases hpiece with ⟨rfl, -⟩ | hb
      · exact harea t ht
      · exact hsplit b hb t ht

theorem MemSet.writes_empty (rs : List PageRange) : MemSet.writes ⟨[]⟩ rs = [] := by
  induction rs with
  | nil => rfl
  | cons r rs ih => exact ih

theorem MemSet.after_empty (rs : List PageRange) : MemSet.after ⟨[]⟩ rs = ⟨[]⟩ := by
  induction rs with
  | nil => rfl
  | cons r rs ih => exact ih

/-! ## One call -/

section Call

variable {file off a : Nat} {frames : List Nat} {r : PageRange}

theorem shareArea_stop : (shareArea file off a frames).stop = a + frames.length * pageSize := rfl

variable (file off) in
theorem shareArea_overlapping (h : ¬ r.Misses a (a + frames.length * pageSize)) :
    (shareArea file off a frames).overlapping r.start r.stop = true := by
  have hle := r.le
  unfold PageRange.Misses at h
  rw [MemArea.overlapping_iff, shareArea_stop]
  show ¬ (r.start ≤ a ∧ r.stop ≤ a) ∧ _
  omega

/-- The write of page `i`, by `write_page` with the bounds of the mapping. -/
def sharePage (file off i p : Nat) : FileWrite := ⟨file, p, (off + i * pageSize) % 2 ^ 64, pageSize, false⟩

/-- Where the bounds have not moved, every page of the range is written where it came from. -/
theorem mem_subWrites_share (hv : a ≠ 0)
    (hover : (shareArea file off a frames).overlapping r.start r.stop = true)
    (hbounds : (shareArea file off a frames).subWriter r.start r.stop = shareArea file off a frames)
    {w : FileWrite} :
    w ∈ (shareArea file off a frames).subWrites r.start r.stop
      ↔ ∃ i p, frames[i]? = some p ∧ r.start ≤ a + i * pageSize ∧ a + i * pageSize < r.stop
        ∧ w = sharePage file off i p := by
  have hpage : ∀ i p, (shareArea file off a frames).pageWrite file ⟨a + i * pageSize, p, 0⟩
      = sharePage file off i p := by
    intro i p
    have hpos : (a + i * pageSize + off + 2 ^ 64 - a) % 2 ^ 64 = (off + i * pageSize) % 2 ^ 64 := by
      rw [show a + i * pageSize + off + 2 ^ 64 - a = off + i * pageSize + 2 ^ 64 by omega,
        Nat.add_mod_right]
    have hflag : decide (a + i * pageSize + off < a) = false := by
      rw [decide_eq_false_iff_not]
      omega
    show (⟨file, p, (a + i * pageSize + off + 2 ^ 64 - a) % 2 ^ 64, pageSize,
      decide (a + i * pageSize + off < a)⟩ : FileWrite) = _
    rw [hpos, hflag]
    rfl
  show w ∈ (if _ then _ else _) ↔ _
  rw [if_pos hover, hbounds, List.mem_map]
  constructor
  · rintro ⟨t, ht, rfl⟩
    obtain ⟨hmem, hin⟩ := List.mem_filter.mp ht
    obtain ⟨i, p, hp, rfl⟩ := (mem_pageTrackers_iff hv).mp hmem
    obtain ⟨hlo, hhi⟩ := inRange_iff.mp hin
    exact ⟨i, p, hp, hlo, hhi, hpage i p⟩
  · rintro ⟨i, p, hp, hlo, hhi, rfl⟩
    refine ⟨⟨a + i * pageSize, p, 0⟩, List.mem_filter.mpr ⟨?_, ?_⟩, hpage i p⟩
    · exact (mem_pageTrackers_iff hv).mpr ⟨i, p, hp, rfl⟩
    · exact inRange_iff.mpr ⟨hlo, hhi⟩

theorem subArea_single (b : MemArea) (s e : Nat) :
    MemSet.subArea ⟨[b]⟩ s e
      = ⟨(if (b.sub s e).area.len ≠ 0 then [(b.sub s e).area] else []) ++ (b.sub s e).split.toList⟩ := by
  unfold MemSet.subArea MemSet.ofResults
  simp only [List.map_cons, List.map_nil, List.filter_cons, List.filter_nil, bne_iff_ne,
    List.filterMap_cons, List.filterMap_nil]
  cases (b.sub s e).split with
  | none => rfl
  | some c => rfl

theorem subAreaWrites_single (b : MemArea) (s e : Nat) :
    MemSet.subAreaWrites ⟨[b]⟩ s e
      = b.subWrites s e
        ++ if (b.sub s e).area.len = 0 then (b.sub s e).area.dropWrites (fun _ => 1) else [] := by
  unfold MemSet.subAreaWrites
  rw [List.flatMap_cons, List.flatMap_nil, List.append_nil]

variable (file off a) in
theorem len_ne_zero (hframes : frames ≠ []) : (shareArea file off a frames).len ≠ 0 := by
  have hlen : 0 < frames.length := List.length_pos_iff.mpr hframes
  have hpos := Nat.mul_pos hlen pageSize_pos
  show frames.length * pageSize ≠ 0
  omega

/-! ### A range that misses the mapping -/

theorem sub_of_misses (h : r.Misses a (a + frames.length * pageSize)) :
    (shareArea file off a frames).sub r.start r.stop = ⟨shareArea file off a frames, none, [], []⟩ := by
  have hover : (shareArea file off a frames).overlapping r.start r.stop = false := by
    have hle := r.le
    unfold PageRange.Misses at h
    rw [← Bool.not_eq_true, MemArea.overlapping_iff, shareArea_stop]
    show ¬ (¬ (r.start ≤ a ∧ r.stop ≤ a) ∧ _)
    omega
  unfold MemArea.sub MemArea.subTo
  rw [hover]
  rfl

theorem subArea_of_misses (hframes : frames ≠ []) (h : r.Misses a (a + frames.length * pageSize)) :
    MemSet.subArea ⟨[shareArea file off a frames]⟩ r.start r.stop
      = ⟨[shareArea file off a frames]⟩ := by
  rw [subArea_single, sub_of_misses h, if_pos (len_ne_zero file off a hframes)]
  rfl

theorem subAreaWrites_of_misses (hframes : frames ≠ [])
    (h : r.Misses a (a + frames.length * pageSize)) :
    MemSet.subAreaWrites ⟨[shareArea file off a frames]⟩ r.start r.stop = [] := by
  have hnone : (shareArea file off a frames).subWrites r.start r.stop = [] := by
    have hwritten := MemArea.subWrites_written (shareArea file off a frames) r.start r.stop
    rw [sub_of_misses h] at hwritten
    exact List.map_eq_nil_iff.mp hwritten
  rw [subAreaWrites_single, hnone, sub_of_misses h, if_neg (len_ne_zero file off a hframes)]
  rfl

/-! ### A range that takes the end of the mapping -/

variable {p i k e s : Nat} {b : MemArea}

theorem MemArea.sub_of_end (hover : b.overlapping s e = true) (hs : inRange b.start b.stop s = true)
    (he : inRange b.start b.stop e = false)
    (hswallow : (inRange s e b.start && inRange s e b.stop) = false) :
    (b.sub s e).area = { b with
        len := s - b.start
        mtrackers := b.mtrackers.filter (fun t => inRange b.start (b.start + (s - b.start)) t.vaddr) }
      ∧ (b.sub s e).split = none := by
  simp only [sub, subTo, hover, hs, he, hswallow, Bool.not_true, Bool.false_eq_true, if_false,
    Bool.and_false, if_true, and_true]
  rfl

variable (file off) in
theorem sub_of_trims (hv : a ≠ 0) (ha : a % pageSize = 0)
    (hmeets : ¬ r.Misses a (a + frames.length * pageSize))
    (h : r.Trims a (a + frames.length * pageSize)) :
    ∃ k, 0 < k ∧ k < frames.length ∧ r.start = a + k * pageSize
      ∧ ((shareArea file off a frames).sub r.start r.stop).area = shareArea file off a (frames.take k)
      ∧ ((shareArea file off a frames).sub r.start r.stop).split = none
      ∧ (shareArea file off a frames).subWriter r.start r.stop = shareArea file off a frames := by
  have hover := shareArea_overlapping file off hmeets
  obtain ⟨hlt, hend⟩ := h
  unfold PageRange.Misses at hmeets
  have hstart := r.start_aligned
  have hk : r.start = a + (r.start - a) / pageSize * pageSize := by
    unfold pageSize at *
    omega
  have hklt : (r.start - a) / pageSize < frames.length := by
    unfold pageSize at *
    omega
  have hkpos : 0 < (r.start - a) / pageSize := by
    unfold pageSize at *
    omega
  have hin : inRange a (a + frames.length * pageSize) r.start = true := by
    rw [inRange_iff]
    omega
  have hout : inRange a (a + frames.length * pageSize) r.stop = false := by
    rw [← Bool.not_eq_true, inRange_iff]
    omega
  have hfirst : inRange r.start r.stop a = false := by
    rw [← Bool.not_eq_true, inRange_iff]
    omega
  generalize (r.start - a) / pageSize = k at hk hklt hkpos
  obtain ⟨harea, hsplit⟩ := MemArea.sub_of_end hover hin (by rw [shareArea_stop]; exact hout)
    (by rw [show (shareArea file off a frames).start = a from rfl, hfirst, Bool.false_and])
  refine ⟨k, hkpos, hklt, hk, ?_, ?_, ?_⟩
  · have hlen : r.start - a = k * pageSize := by omega
    rw [harea]
    unfold shareArea
    simp only
    rw [hlen, filter_pageTrackers hv (by omega), List.length_take, Nat.min_eq_left (by omega)]
  · exact hsplit
  · unfold MemArea.subWriter
    exact if_pos hin

/-! ### A range that takes all of the mapping -/

theorem MemArea.sub_of_all (hover : b.overlapping s e = true)
    (he : inRange b.start b.stop e = false)
    (hswallow : (inRange s e b.start && inRange s e b.stop) = true) :
    (b.sub s e).area = { b with len := 0, mtrackers := [] } ∧ (b.sub s e).split = none := by
  simp only [sub, subTo, hover, he, hswallow, Bool.not_true, Bool.false_eq_true, if_false,
    Bool.and_false, if_true, and_self]

variable (file off) in
theorem sub_of_takes (hframes : frames ≠ []) (h : r.Takes a (a + frames.length * pageSize)) :
    (shareArea file off a frames).overlapping r.start r.stop = true
      ∧ ((shareArea file off a frames).sub r.start r.stop).area
        = { shareArea file off a frames with len := 0, mtrackers := [] }
      ∧ ((shareArea file off a frames).sub r.start r.stop).split = none
      ∧ (shareArea file off a frames).subWriter r.start r.stop = shareArea file off a frames := by
  have hlen := len_ne_zero file off a hframes
  have hpos : 0 < frames.length * pageSize := Nat.pos_of_ne_zero hlen
  have hover : (shareArea file off a frames).overlapping r.start r.stop = true := by
    apply shareArea_overlapping
    unfold PageRange.Misses
    unfold PageRange.Takes at h
    omega
  have hout : inRange a (a + frames.length * pageSize) r.stop = false := by
    rw [← Bool.not_eq_true, inRange_iff]
    unfold PageRange.Takes at h
    omega
  rcases h with ⟨hstart, hstop⟩ | ⟨hstart, hstop⟩
  · -- it goes on behind the mapping
    have hswallow : (inRange r.start r.stop a
        && inRange r.start r.stop (a + frames.length * pageSize)) = true := by
      rw [Bool.and_eq_true, inRange_iff, inRange_iff]
      omega
    obtain ⟨harea, hsplit⟩ := MemArea.sub_of_all hover hout hswallow
    refine ⟨hover, harea, hsplit, ?_⟩
    unfold MemArea.subWriter
    split
    · rfl
    · exact if_pos hswallow
  · -- it is the mapping: nothing is left of it in front of the range
    have hin : inRange a (a + frames.length * pageSize) r.start = true := by
      rw [inRange_iff]
      omega
    have hswallow : (inRange r.start r.stop a
        && inRange r.start r.stop (a + frames.length * pageSize)) = false := by
      rw [← Bool.not_eq_true, Bool.and_eq_true, inRange_iff, inRange_iff]
      omega
    obtain ⟨harea, hsplit⟩ := MemArea.sub_of_end hover hin hout hswallow
    refine ⟨hover, ?_, hsplit, if_pos hin⟩
    have hnone : ∀ t ∈ pageTrackers a frames,
        ¬ inRange a (a + (r.start - a)) t.vaddr = true := by
      intro t _
      rw [inRange_iff]
      omega
    rw [harea]
    unfold shareArea
    simp only
    rw [List.filter_eq_nil_iff.mpr hnone, hstart, Nat.sub_self]

/-! ### A range that comes from before the mapping and does not go on behind it -/

variable (file off) in
/-- The first page is written as if the mapping started where the range ends. -/
theorem exists_misplaced (hv : a ≠ 0) (hlen : frames.length * pageSize < 2 ^ 64)
    (hbefore : r.start < a) (hmeets : a < r.stop) (hend : r.stop ≤ a + frames.length * pageSize) :
    ∃ w ∈ (shareArea file off a frames).subWrites r.start r.stop, frames[0]? = some w.frame
      ∧ w.pos ≠ (off + 0 * pageSize) % 2 ^ 64 := by
  have hover : (shareArea file off a frames).overlapping r.start r.stop = true := by
    apply shareArea_overlapping
    unfold PageRange.Misses
    omega
  have hout : ¬ inRange a (a + frames.length * pageSize) r.start = true := by
    rw [inRange_iff]
    omega
  have hswallow : ¬ (inRange r.start r.stop a
      && inRange r.start r.stop (a + frames.length * pageSize)) = true := by
    rw [Bool.and_eq_true, inRange_iff, inRange_iff]
    omega
  have hfirst : inRange r.start r.stop a = true := by
    rw [inRange_iff]
    omega
  -- `start` has moved to the end of the range and `offset` has not moved with it
  have hwriter : ((shareArea file off a frames).subWriter r.start r.stop).start = r.stop
      ∧ ((shareArea file off a frames).subWriter r.start r.stop).offset = off := by
    have heq : (shareArea file off a frames).subWriter r.start r.stop
        = { shareArea file off a frames with
            len := a + frames.length * pageSize - r.stop, start := r.stop } :=
      (if_neg hout).trans ((if_neg hswallow).trans (if_pos hfirst))
    rw [heq]
    exact ⟨rfl, rfl⟩
  cases frames with
  | nil =>
    rw [List.length_nil] at hend
    omega
  | cons p frames =>
    have hmem : (⟨a, p, 0⟩ : MapTrack) ∈ pageTrackers a (p :: frames) :=
      (mem_pageTrackers_iff hv).mpr ⟨0, p, rfl, by rw [Nat.zero_mul, Nat.add_zero]⟩
    refine ⟨((shareArea file off a (p :: frames)).subWriter r.start r.stop).pageWrite file ⟨a, p, 0⟩,
      ?_, rfl, ?_⟩
    · show _ ∈ (if _ then _ else _)
      rw [if_pos hover]
      exact List.mem_map_of_mem (List.mem_filter.mpr ⟨hmem, hfirst⟩)
    · show (a + _ + 2 ^ 64 - _) % 2 ^ 64 ≠ _
      rw [hwriter.1, hwriter.2]
      omega

/-! ### A range inside the mapping -/

variable (file off) in
/-- The page behind the range is dropped, and nothing writes it. -/
theorem exists_unwritten (hv : a ≠ 0) (ha : a % pageSize = 0) (hnodup : frames.Nodup)
    (hstart : a ≤ r.start) (hmeets : a < r.stop) (hstop : r.stop < a + frames.length * pageSize)
    (rs : List PageRange) :
    ∃ i p : Nat, frames[i]? = some p
      ∧ ∀ w ∈ MemSet.writes ⟨[shareArea file off a frames]⟩ (r :: rs), w.frame ≠ p := by
  have hle := r.le
  have hsplits : (shareArea file off a frames).Splits r.start r.stop := by
    refine ⟨shareArea_overlapping file off ?_, ?_, ?_⟩
    · unfold PageRange.Misses
      omega
    · show inRange a (a + frames.length * pageSize) r.start = true
      rw [inRange_iff]
      omega
    · show inRange a (a + frames.length * pageSize) r.stop = true
      rw [inRange_iff]
      omega
  obtain ⟨harea, hsplit, -⟩ := MemArea.sub_of_splits hsplits
  obtain ⟨i, p, hp, hpage⟩ := exists_page ha r.stop_aligned (Nat.le_of_lt hmeets) hstop
  -- a tracker of the frame is the one at the range's end
  have hvaddr : ∀ t ∈ pageTrackers a frames, t.tracker = p → t.vaddr = r.stop := by
    intro t ht htp
    obtain ⟨j, q, hq, rfl⟩ := (mem_pageTrackers_iff hv).mp ht
    have htp : q = p := htp
    rw [htp] at hq
    rw [eq_of_getElem? hnodup hq hp, hpage]
  have hfront : ∀ t ∈ ((shareArea file off a frames).sub r.start r.stop).area.mtrackers,
      t.tracker ≠ p := by
    intro t ht htp
    rw [harea] at ht
    obtain ⟨hmem, hout⟩ := List.mem_filter.mp ht
    rw [hvaddr t hmem htp, Bool.not_eq_true', ← Bool.not_eq_true, inRange_iff, shareArea_stop] at hout
    omega
  refine ⟨i, p, hp, fun w hw hwp => ?_⟩
  rcases List.mem_append.mp hw with hw | hw
  · rw [subAreaWrites_single] at hw
    rcases List.mem_append.mp hw with hw | hw
    · have hw : w ∈ (if _ then _ else _) := hw
      rw [if_pos hsplits.overlapping] at hw
      obtain ⟨t, ht, rfl⟩ := List.mem_map.mp hw
      obtain ⟨hmem, hin⟩ := List.mem_filter.mp ht
      rw [hvaddr t hmem hwp, inRange_iff] at hin
      omega
    · split at hw
      · obtain ⟨t, ht, hframe⟩ := MemArea.dropWrites_frame hw
        exact hfront t ht (hframe.trans hwp)
      · cases hw
  · obtain ⟨b, hb, t, ht, hframe⟩ := MemSet.writes_frame hw
    obtain ⟨c, hc, hpiece⟩ := MemSet.mem_subArea.mp hb
    rw [List.mem_singleton.mp hc] at hpiece
    rcases hpiece with ⟨rfl, -⟩ | hb
    · exact hfront t ht (hframe.trans hwp)
    · rw [hsplit] at hb
      cases hb
      cases ht

/-! ## The law, call by call -/

/-- While every page is resident no fault reads the file. -/
theorem readsFrom_shareArea (hv : a ≠ 0) (ha : a % pageSize = 0) :
    MemSet.ReadsFrom ⟨[shareArea file off a frames]⟩ off a := by
  intro pt env vaddr res frame source pos hfault heffect
  obtain ⟨pre, b, post, hareas, hcontains, hfaulted⟩ := userCowInt_faulted hfault
  have hb : b = shareArea file off a frames := by
    have hmem : b ∈ pre ++ b :: post := List.mem_append_cons_self
    rw [← hareas] at hmem
    exact List.mem_singleton.mp hmem
  subst hb
  -- only a page without a tracker is filled, and every page has one
  cases hfaulted with
  | segv => cases heffect
  | remapped => cases heffect
  | copied => cases heffect
  | filled hnone =>
    have hfloor := MemArea.contains_floor ha hcontains
    rw [MemArea.contains_iff, shareArea_stop] at hfloor
    obtain ⟨i, p, hp, hpage⟩ := exists_page ha (floor_mod vaddr) hfloor.1 hfloor.2
    exact absurd hpage.symm
      (hnone ⟨a + i * pageSize, p, 0⟩ ((mem_pageTrackers_iff hv).mpr ⟨i, p, hp, rfl⟩))

theorem readsFrom_empty : MemSet.ReadsFrom ⟨[]⟩ off a := by
  intro pt env vaddr res frame source pos hfault
  cases hfault

variable (file off frames r) in
/-- What one call leaves decides about the reads. -/
theorem reads_cons (hv : a ≠ 0) (ha : a % pageSize = 0) (rs : List PageRange) :
    (∀ pre, pre <+: r :: rs → (MemSet.after ⟨[shareArea file off a frames]⟩ pre).ReadsFrom off a)
      ↔ ∀ pre, pre <+: rs →
        ((MemSet.subArea ⟨[shareArea file off a frames]⟩ r.start r.stop).after pre).ReadsFrom off a := by
  constructor
  · intro h pre hpre
    exact h (r :: pre) ((List.prefix_cons_inj r).mpr hpre)
  · intro h pre hpre
    rcases List.prefix_cons_iff.mp hpre with rfl | ⟨rest, rfl, hrest⟩
    · exact readsFrom_shareArea hv ha
    · exact h rest hrest

/-- A range that misses the mapping neither writes nor drops a page. -/
theorem writtenBack_of_misses (hv : a ≠ 0) (ha : a % pageSize = 0) (hframes : frames ≠ [])
    (h : r.Misses a (a + frames.length * pageSize)) {rs : List PageRange} :
    WrittenBack file off a frames (r :: rs) ↔ WrittenBack file off a frames rs := by
  have hwrites : MemSet.writes ⟨[shareArea file off a frames]⟩ (r :: rs)
      = MemSet.writes ⟨[shareArea file off a frames]⟩ rs := by
    show MemSet.subAreaWrites _ _ _ ++ MemSet.writes _ _ = _
    rw [subAreaWrites_of_misses hframes h, subArea_of_misses hframes h, List.nil_append]
  have hreads := reads_cons file off frames r hv ha rs
  rw [subArea_of_misses hframes h] at hreads
  constructor
  · rintro ⟨hplaced, hwritten, hexact, hread⟩
    rw [hwrites] at hplaced hwritten hexact
    exact ⟨hplaced, hwritten, hexact, hreads.mp hread⟩
  · rintro ⟨hplaced, hwritten, hexact, hread⟩
    rw [← hwrites] at hplaced hwritten hexact
    exact ⟨hplaced, hwritten, hexact, hreads.mpr hread⟩

theorem sharePage_placed (hnodup : frames.Nodup) {j : Nat} (hi : frames[i]? = some p)
    (hj : frames[j]? = some (sharePage file off i p).frame) :
    (sharePage file off i p).pos = (off + j * pageSize) % 2 ^ 64 := by
  rw [eq_of_getElem? hnodup hj hi]
  rfl

/-- One range over the whole mapping writes every page, and no later call finds one. -/
theorem writtenBack_of_takes (hv : a ≠ 0) (ha : a % pageSize = 0) (hframes : frames ≠ [])
    (hnodup : frames.Nodup) (h : r.Takes a (a + frames.length * pageSize)) (rs : List PageRange) :
    WrittenBack file off a frames (r :: rs) := by
  obtain ⟨hover, harea, hsplit, hbounds⟩ := sub_of_takes file off hframes h
  have hsub : MemSet.subArea ⟨[shareArea file off a frames]⟩ r.start r.stop = ⟨[]⟩ := by
    rw [subArea_single, harea, hsplit]
    rfl
  have hmem : ∀ w, w ∈ MemSet.writes ⟨[shareArea file off a frames]⟩ (r :: rs)
      ↔ ∃ i p, frames[i]? = some p ∧ w = sharePage file off i p := by
    intro w
    have hpage : ∀ i p, frames[i]? = some p →
        r.start ≤ a + i * pageSize ∧ a + i * pageSize < r.stop := by
      intro i p hp
      obtain ⟨hi, -⟩ := List.getElem?_eq_some_iff.mp hp
      have hmul : (i + 1) * pageSize ≤ frames.length * pageSize := Nat.mul_le_mul_right _ hi
      have hpos := pageSize_pos
      rw [Nat.succ_mul] at hmul
      unfold PageRange.Takes at h
      omega
    show w ∈ MemSet.subAreaWrites _ _ _ ++ MemSet.writes _ _ ↔ _
    rw [hsub, MemSet.writes_empty, List.append_nil, subAreaWrites_single, harea, List.mem_append,
      mem_subWrites_share hv hover hbounds]
    constructor
    · rintro (⟨i, p, hp, -, -, rfl⟩ | hw)
      · exact ⟨i, p, hp, rfl⟩
      · cases hw
    · rintro ⟨i, p, hp, rfl⟩
      exact .inl ⟨i, p, hp, (hpage i p hp).1, (hpage i p hp).2, rfl⟩
  refine ⟨?_, ?_, ?_, (reads_cons file off frames r hv ha rs).mpr ?_⟩
  · intro w hw j hj
    obtain ⟨i, p, hp, rfl⟩ := (hmem w).mp hw
    exact sharePage_placed hnodup hp hj
  · intro i p hp
    exact ⟨sharePage file off i p, (hmem _).mpr ⟨i, p, hp, rfl⟩, rfl, rfl⟩
  · intro w hw
    obtain ⟨i, p, hp, rfl⟩ := (hmem w).mp hw
    rfl
  · intro pre _
    rw [hsub, MemSet.after_empty]
    exact readsFrom_empty

/-- A range that takes pages off the end writes the pages from the `k`-th on. -/
theorem mem_subAreaWrites_of_trims (hv : a ≠ 0)
    (hmeets : ¬ r.Misses a (a + frames.length * pageSize))
    (h : r.Trims a (a + frames.length * pageSize)) (hk : r.start = a + k * pageSize)
    (hframes : frames.take k ≠ []) (harea : ((shareArea file off a frames).sub r.start r.stop).area
      = shareArea file off a (frames.take k))
    (hbounds : (shareArea file off a frames).subWriter r.start r.stop = shareArea file off a frames)
    (w : FileWrite) :
    w ∈ MemSet.subAreaWrites ⟨[shareArea file off a frames]⟩ r.start r.stop
      ↔ ∃ i p, frames[i]? = some p ∧ k ≤ i ∧ w = sharePage file off i p := by
  rw [subAreaWrites_single, harea, if_neg (len_ne_zero file off a hframes), List.append_nil,
    mem_subWrites_share hv (shareArea_overlapping file off hmeets) hbounds]
  constructor
  · rintro ⟨i, p, hp, hlo, -, rfl⟩
    refine ⟨i, p, hp, ?_, rfl⟩
    by_contra hlt
    have hmul : (i + 1) * pageSize ≤ k * pageSize := Nat.mul_le_mul_right _ (by omega)
    have hpos := pageSize_pos
    rw [Nat.succ_mul] at hmul
    omega
  · rintro ⟨i, p, hp, hki, rfl⟩
    obtain ⟨hi, -⟩ := List.getElem?_eq_some_iff.mp hp
    have hlo : k * pageSize ≤ i * pageSize := Nat.mul_le_mul_right _ hki
    have hhi : (i + 1) * pageSize ≤ frames.length * pageSize := Nat.mul_le_mul_right _ hi
    have hpos := pageSize_pos
    have hend := h.2
    rw [Nat.succ_mul] at hhi
    exact ⟨i, p, hp, by omega, by omega, rfl⟩

theorem getElem?_take_eq_some :
    (frames.take k)[i]? = some p ↔ frames[i]? = some p ∧ i < k := by
  rw [List.getElem?_take]
  split
  · rename_i hi
    exact ⟨fun hp => ⟨hp, hi⟩, And.left⟩
  · rename_i hi
    exact ⟨fun hp => (by cases hp), fun hp => absurd hp.2 hi⟩

/-- When the first call writes the pages from the `k`-th on and leaves the others, the law is about
those from then on. -/
theorem writtenBack_cons_iff (hv : a ≠ 0) (ha : a % pageSize = 0) (hnodup : frames.Nodup)
    (hsub : MemSet.subArea ⟨[shareArea file off a frames]⟩ r.start r.stop
      = ⟨[shareArea file off a (frames.take k)]⟩)
    (hcall : ∀ w, w ∈ MemSet.subAreaWrites ⟨[shareArea file off a frames]⟩ r.start r.stop
      ↔ ∃ i p, frames[i]? = some p ∧ k ≤ i ∧ w = sharePage file off i p) (rs : List PageRange) :
    WrittenBack file off a frames (r :: rs) ↔ WrittenBack file off a (frames.take k) rs := by
  have hwrites : MemSet.writes ⟨[shareArea file off a frames]⟩ (r :: rs)
      = MemSet.subAreaWrites ⟨[shareArea file off a frames]⟩ r.start r.stop
        ++ MemSet.writes ⟨[shareArea file off a (frames.take k)]⟩ rs := by
    show MemSet.subAreaWrites _ _ _ ++ MemSet.writes _ _ = _
    rw [hsub]
  have hreads := reads_cons file off frames r hv ha rs
  rw [hsub] at hreads
  constructor
  · rintro ⟨hplaced, hwritten, hexact, hread⟩
    rw [hwrites] at hplaced hwritten hexact
    refine ⟨?_, ?_, ?_, hreads.mp hread⟩
    · intro w hw i hi
      exact hplaced w (List.mem_append_right _ hw) i (getElem?_take_eq_some.mp hi).1
    · intro i p hp
      obtain ⟨hp, hi⟩ := getElem?_take_eq_some.mp hp
      obtain ⟨w, hw, hframe, hlen⟩ := hwritten i p hp
      rcases List.mem_append.mp hw with hw | hw
      · -- the call has not written this page
        obtain ⟨j, q, hq, hkj, rfl⟩ := (hcall w).mp hw
        have hframe : q = p := hframe
        rw [hframe] at hq
        have hij := eq_of_getElem? hnodup hp hq
        omega
      · exact ⟨w, hw, hframe, hlen⟩
    · exact fun w hw => hexact w (List.mem_append_right _ hw)
  · rintro ⟨hplaced, hwritten, hexact, hread⟩
    refine ⟨?_, ?_, ?_, hreads.mpr hread⟩
    · intro w hw i hi
      rw [hwrites] at hw
      rcases List.mem_append.mp hw with hw | hw
      · obtain ⟨j, q, hq, -, rfl⟩ := (hcall w).mp hw
        exact sharePage_placed hnodup hq hi
      · -- a later write is of a page that is still there
        obtain ⟨b, hb, t, ht, hframe⟩ := MemSet.writes_frame hw
        rw [List.mem_singleton.mp hb] at ht
        obtain ⟨j, q, hq, rfl⟩ := (mem_pageTrackers_iff hv).mp ht
        have hframe : q = w.frame := hframe
        obtain ⟨hq', hj⟩ := getElem?_take_eq_some.mp hq
        rw [hframe] at hq'
        have hij := eq_of_getElem? hnodup hi hq'
        exact hplaced w hw i (getElem?_take_eq_some.mpr ⟨hi, by omega⟩)
    · intro i p hp
      rw [hwrites]
      rcases Nat.lt_or_ge i k with hi | hi
      · obtain ⟨w, hw, hrest⟩ := hwritten i p (getElem?_take_eq_some.mpr ⟨hp, hi⟩)
        exact ⟨w, List.mem_append_right _ hw, hrest⟩
      · exact ⟨sharePage file off i p,
          List.mem_append_left _ ((hcall _).mpr ⟨i, p, hp, hi, rfl⟩), rfl, rfl⟩
    · intro w hw
      rw [hwrites] at hw
      rcases List.mem_append.mp hw with hw | hw
      · obtain ⟨j, q, hq, -, rfl⟩ := (hcall w).mp hw
        rfl
      · exact hexact w hw

variable (file off) in
/-- The pages a range takes off the end are written; the law is about the others from then on. -/
theorem writtenBack_of_trims (hv : a ≠ 0) (ha : a % pageSize = 0) (hnodup : frames.Nodup)
    (hmeets : ¬ r.Misses a (a + frames.length * pageSize))
    (h : r.Trims a (a + frames.length * pageSize)) :
    ∃ k, 0 < k ∧ k < frames.length ∧ r.start = a + k * pageSize ∧ ∀ rs : List PageRange,
      (WrittenBack file off a frames (r :: rs) ↔ WrittenBack file off a (frames.take k) rs) := by
  obtain ⟨k, hkpos, hklt, hk, harea, hsplit, hbounds⟩ := sub_of_trims file off hv ha hmeets h
  have hframes : frames.take k ≠ [] := by
    rw [← List.length_pos_iff, List.length_take]
    omega
  have hsub : MemSet.subArea ⟨[shareArea file off a frames]⟩ r.start r.stop
      = ⟨[shareArea file off a (frames.take k)]⟩ := by
    rw [subArea_single, harea, hsplit, if_pos (len_ne_zero file off a hframes)]
    rfl
  exact ⟨k, hkpos, hklt, hk, writtenBack_cons_iff hv ha hnodup hsub
    (mem_subAreaWrites_of_trims hv hmeets h hk hframes harea hbounds)⟩

variable (file off) in
/-- A page that is dropped with its area goes to where it is in the area. -/
theorem dropWrite_share (hlen : frames.length * pageSize < 2 ^ 64) (hp : frames[i]? = some p) :
    (shareArea file off a frames).dropWrite file ⟨a + i * pageSize, p, 0⟩
      = ⟨file, p, i * pageSize, pageSize, false⟩ := by
  obtain ⟨hi, -⟩ := List.getElem?_eq_some_iff.mp hp
  have hmul : (i + 1) * pageSize ≤ frames.length * pageSize := Nat.mul_le_mul_right _ hi
  rw [Nat.succ_mul] at hmul
  have hpos : (a + i * pageSize + 2 ^ 64 - a) % 2 ^ 64 = i * pageSize := by
    rw [show a + i * pageSize + 2 ^ 64 - a = i * pageSize + 2 ^ 64 by omega, Nat.add_mod_right]
    exact Nat.mod_eq_of_lt (by have := pageSize_pos; omega)
  have hwlen : (frames.length * pageSize + 2 ^ 64 - i * pageSize) % 2 ^ 64
      = frames.length * pageSize - i * pageSize := by
    rw [show frames.length * pageSize + 2 ^ 64 - i * pageSize
      = frames.length * pageSize - i * pageSize + 2 ^ 64 by omega, Nat.add_mod_right]
    exact Nat.mod_eq_of_lt (by omega)
  unfold MemArea.dropWrite
  simp only
  show (⟨file, p, (a + i * pageSize + 2 ^ 64 - a) % 2 ^ 64,
    min ((frames.length * pageSize + 2 ^ 64 - (a + i * pageSize + 2 ^ 64 - a) % 2 ^ 64) % 2 ^ 64)
      pageSize, decide (a + i * pageSize < a ∨ frames.length * pageSize
        < (a + i * pageSize + 2 ^ 64 - a) % 2 ^ 64)⟩ : FileWrite) = _
  rw [hpos, hwlen, Nat.min_eq_right (by omega), decide_eq_false (by omega)]

variable (file off) in
theorem mem_writes_nil (hv : a ≠ 0) (hlen : frames.length * pageSize < 2 ^ 64) (w : FileWrite) :
    w ∈ MemSet.writes ⟨[shareArea file off a frames]⟩ []
      ↔ ∃ i p, frames[i]? = some p ∧ w = ⟨file, p, i * pageSize, pageSize, false⟩ := by
  show w ∈ List.flatMap _ [_] ↔ _
  rw [List.flatMap_cons, List.flatMap_nil, List.append_nil]
  show w ∈ ((pageTrackers a frames).filter _).map _ ↔ _
  rw [List.filter_eq_self.mpr (by simp), List.mem_map]
  constructor
  · rintro ⟨t, ht, rfl⟩
    obtain ⟨i, p, hp, rfl⟩ := (mem_pageTrackers_iff hv).mp ht
    exact ⟨i, p, hp, dropWrite_share file off hlen hp⟩
  · rintro ⟨i, p, hp, rfl⟩
    exact ⟨_, (mem_pageTrackers_iff hv).mpr ⟨i, p, hp, rfl⟩, dropWrite_share file off hlen hp⟩

/-- Dropped as it is, a mapping is written to the file's start. -/
theorem writtenBack_nil (hv : a ≠ 0) (ha : a % pageSize = 0) (hoff : off < 2 ^ 64)
    (hframes : frames ≠ []) (hnodup : frames.Nodup) (hlen : frames.length * pageSize < 2 ^ 64) :
    WrittenBack file off a frames [] ↔ off = 0 := by
  have hmem := mem_writes_nil file off hv hlen
  constructor
  · intro hback
    obtain ⟨p, hp⟩ : ∃ p, frames[0]? = some p := by
      cases frames with
      | nil => exact absurd rfl hframes
      | cons p frames => exact ⟨p, rfl⟩
    have hzero := hback.placed _ ((hmem _).mpr ⟨0, p, hp, rfl⟩) 0 hp
    rw [Nat.zero_mul, Nat.add_zero, Nat.mod_eq_of_lt hoff] at hzero
    exact hzero.symm
  · rintro rfl
    refine ⟨?_, ?_, ?_, ?_⟩
    · intro w hw j hj
      obtain ⟨i, p, hp, rfl⟩ := (hmem w).mp hw
      rw [eq_of_getElem? hnodup hj hp]
      obtain ⟨hi, -⟩ := List.getElem?_eq_some_iff.mp hp
      have hmul : i * pageSize ≤ frames.length * pageSize := Nat.mul_le_mul_right _ (by omega)
      rw [Nat.zero_add, Nat.mod_eq_of_lt (by omega)]
    · intro i p hp
      exact ⟨_, (hmem _).mpr ⟨i, p, hp, rfl⟩, rfl, rfl⟩
    · intro w hw
      obtain ⟨i, p, hp, rfl⟩ := (hmem w).mp hw
      rfl
    · intro pre hpre
      rw [List.prefix_nil.mp hpre]
      exact readsFrom_shareArea hv ha

/-- A range that neither misses the mapping nor takes its end or all of it: a page is misplaced, or
lost. -/
theorem not_writtenBack (hv : a ≠ 0) (ha : a % pageSize = 0) (hnodup : frames.Nodup)
    (hlen : frames.length * pageSize < 2 ^ 64) (hmeets : ¬ r.Misses a (a + frames.length * pageSize))
    (htrims : ¬ r.Trims a (a + frames.length * pageSize))
    (htakes : ¬ r.Takes a (a + frames.length * pageSize)) (rs : List PageRange) :
    ¬ WrittenBack file off a frames (r :: rs) := by
  intro hback
  unfold PageRange.Misses at hmeets
  unfold PageRange.Trims at htrims
  unfold PageRange.Takes at htakes
  by_cases hbefore : r.start < a
  · obtain ⟨w, hw, hframe, hpos⟩ := exists_misplaced file off hv hlen hbefore (by omega) (by omega)
    apply hpos
    apply hback.placed w _ 0 hframe
    apply List.mem_append_left
    rw [subAreaWrites_single]
    exact List.mem_append_left _ hw
  · obtain ⟨i, p, hp, hnone⟩ := exists_unwritten file off hv ha hnodup (r := r) (by omega) (by omega)
      (by omega) rs
    obtain ⟨w, hw, hframe, -⟩ := hback.written i p hp
    exact hnone w hw hframe

end Call

/-- The law holds for exactly the tame calls. -/
theorem writtenBack_iff_tame (file : Nat) {off a : Nat} (hv : a ≠ 0) (ha : a % pageSize = 0)
    (hoff : off < 2 ^ 64) (rs : List PageRange) :
    ∀ frames : List Nat, frames ≠ [] → frames.Nodup → frames.length * pageSize < 2 ^ 64 →
      (WrittenBack file off a frames rs ↔ Tame off a (a + frames.length * pageSize) rs) := by
  induction rs with
  | nil =>
    intro frames hframes hnodup hlen
    exact writtenBack_nil hv ha hoff hframes hnodup hlen
  | cons r rs ih =>
    intro frames hframes hnodup hlen
    unfold Tame
    by_cases hmisses : r.Misses a (a + frames.length * pageSize)
    · rw [if_pos hmisses, writtenBack_of_misses hv ha hframes hmisses]
      exact ih frames hframes hnodup hlen
    rw [if_neg hmisses]
    by_cases htrims : r.Trims a (a + frames.length * pageSize)
    · obtain ⟨k, hkpos, hklt, hk, hiff⟩ :=
        writtenBack_of_trims file off hv ha hnodup hmisses htrims
      have hlength : (frames.take k).length = k := by
        rw [List.length_take]
        omega
      have hmul : k * pageSize ≤ frames.length * pageSize := Nat.mul_le_mul_right _ (by omega)
      rw [if_pos htrims, hiff, hk]
      have hrest := ih (frames.take k) (by rw [← List.length_pos_iff]; omega)
        (hnodup.sublist (List.take_sublist k frames)) (by rw [hlength]; omega)
      rw [hlength] at hrest
      exact hrest
    · rw [if_neg htrims]
      constructor
      · intro hback
        by_contra htakes
        exact not_writtenBack hv ha hnodup hlen hmisses htrims htakes rs hback
      · exact fun htakes => writtenBack_of_takes hv ha hframes hnodup htakes rs

theorem mapNew_shareFile {s t : AddrSpace} {env : MmapEnv} {args : MmapArgs} {file addr len : Nat}
    (hshared : args.shared = true) (h : s.mapNew env args (some file) addr len = some t) :
    ∃ ppn, t.memset = s.memset.push ⟨.shareFile,
      pageTrackers addr (contiguous ppn ((len + pageSize - 1) / pageSize)), some file, args.off, addr,
      len⟩ := by
  unfold AddrSpace.mapNew at h
  rw [if_pos hshared] at h
  obtain ⟨res, hres, rfl⟩ := Option.map_eq_some_iff.mp h
  rw [AddrSpace.mapFrames_cases (by decide) hres]
  exact ⟨res.1, rfl⟩

theorem nodup_contiguous (ppn count : Nat) : (contiguous ppn count).Nodup := by
  apply List.Nodup.map _ List.nodup_range
  intro i j hij
  have hij : ppn + i * pageSize = ppn + j * pageSize := hij
  exact Nat.eq_of_mul_eq_mul_right pageSize_pos (by omega)

/-- **What is written back, and where.** `sys_mmap` has mapped a file, shared, from `off` on. Under
`munmap` of page-aligned ranges and the final drop, each page is written only to where it came from,
each is written, no position comes from below zero and later faults read from the same place: exactly
if the ranges take the mapping from its end on, leaving its front whole until they take all of it
(and do not end with it, if they come from before it), and unless they have taken all of it in the
end, `off` is `0`. -/
theorem sysMmap_writtenBack_iff {s t : AddrSpace} {env : MmapEnv} {args : MmapArgs} {file addr : Nat}
    (h : s.sysMmap env args = (.ok addr, t)) (hshared : args.shared = true)
    (hfile : args.file env = some file) (hlen : args.alignedLen ≠ 0) (haddr : addr % pageSize = 0)
    (hoff : args.off < 2 ^ 64) (rs : List PageRange) :
    ∃ (s' t' : AddrSpace) (frames : List Nat), s'.mapNew env args (some file) addr args.alignedLen = some t'
      ∧ t'.memset = s'.memset.push (shareArea file args.off addr frames)
      ∧ (WrittenBack file args.off addr frames rs
        ↔ Tame args.off addr (addr + args.alignedLen) rs) := by
  unfold AddrSpace.sysMmap at h
  simp only at h
  rw [if_neg hlen, hfile] at h
  split at h
  · cases h
  rename_i s' _
  split at h
  · cases h
  rename_i t' hmap
  have heq : s.mmapAddr args.start = addr := by
    rw [if_neg (by simp)] at h
    split at h
    · exact Except.ok.inj (congrArg Prod.fst h)
    · cases h
  rw [heq] at hmap
  have hv : addr ≠ 0 := by
    rw [← heq]
    unfold AddrSpace.mmapAddr
    split
    · split
      · omega
      · decide
    · assumption
  obtain ⟨ppn, hpush⟩ := mapNew_shareFile hshared hmap
  have hcount : (args.alignedLen + pageSize - 1) / pageSize * pageSize = args.alignedLen := by
    have hmod := args.alignedLen_mod
    unfold pageSize at *
    omega
  generalize (args.alignedLen + pageSize - 1) / pageSize = count at hpush hcount
  have hlength : (contiguous ppn count).length = count := by simp [contiguous]
  have hlt : args.alignedLen < 2 ^ 64 := Nat.mod_lt _ (by decide)
  have hframes : contiguous ppn count ≠ [] := by
    rw [← List.length_pos_iff, hlength]
    apply Nat.pos_of_ne_zero
    rintro rfl
    rw [Nat.zero_mul] at hcount
    exact hlen hcount.symm
  have hiff := writtenBack_iff_tame file hv haddr hoff rs (contiguous ppn count) hframes
    (nodup_contiguous ppn count) (by rw [hlength, hcount]; exact hlt)
  rw [hlength, hcount] at hiff
  refine ⟨s', t', contiguous ppn count, hmap, ?_, hiff⟩
  unfold shareArea
  rw [hlength, hcount]
  exact hpush

/-- Three pages, from the second page of the file on: the last one is unmapped, then the other two. -/
theorem sysMmap_writtenBack_iff_two_calls :
    ∃ frames, WrittenBack 7 0x1000 0x20000 frames
      [⟨0x22000, 0x23000, rfl, rfl, by decide⟩, ⟨0x20000, 0x22000, rfl, rfl, by decide⟩] := by
  let env : MmapEnv := ⟨fun _ => some 7, fun _ => some 0x80000000, fun _ => none, [], none⟩
  let args : MmapArgs := ⟨0x20000, 0x3000, 3, 1, 3, 0x1000⟩
  have hcall : AddrSpace.empty.sysMmap env args
      = (.ok 0x20000, (AddrSpace.empty.sysMmap env args).2) :=
    Prod.ext (by decide +kernel) rfl
  have hfile : args.file env = some 7 := by decide +kernel
  have hlen : args.alignedLen ≠ 0 := by decide +kernel
  obtain ⟨_, _, frames, -, -, hiff⟩ := sysMmap_writtenBack_iff hcall (by decide +kernel) hfile hlen
    (by decide) (by decide) [⟨0x22000, 0x23000, rfl, rfl, by decide⟩, ⟨0x20000, 0x22000, rfl, rfl, by decide⟩]
  exact ⟨frames, hiff.mpr (by decide +kernel)⟩

/-- Two pages from the second page of the file on, dropped: they go to the file's start. Three pages of
the file's start, the middle one unmapped: the last one is written nowhere. Two pages of the file's
start, the first one unmapped by a range that begins before it: it is written at the end of the
address space. -/
theorem shareFile_misplaced :
    (MemSet.writes ⟨[shareArea 7 0x1000 0x20000 [0x80000000, 0x80001000]]⟩ []
        = [⟨7, 0x80000000, 0, 0x1000, false⟩, ⟨7, 0x80001000, 0x1000, 0x1000, false⟩]
      ∧ ¬ WrittenBack 7 0x1000 0x20000 [0x80000000, 0x80001000] [])
    ∧ (MemSet.writes ⟨[shareArea 7 0 0x20000 [0x80000000, 0x80001000, 0x80002000]]⟩
          [⟨0x21000, 0x22000, rfl, rfl, by decide⟩]
        = [⟨7, 0x80001000, 0x1000, 0x1000, false⟩, ⟨7, 0x80000000, 0, 0x1000, false⟩,
          ⟨7, 0x80001000, 0x1000, 0, false⟩]
      ∧ ¬ WrittenBack 7 0 0x20000 [0x80000000, 0x80001000, 0x80002000]
          [⟨0x21000, 0x22000, rfl, rfl, by decide⟩])
    ∧ (MemSet.writes ⟨[shareArea 7 0 0x20000 [0x80000000, 0x80001000]]⟩
          [⟨0x1f000, 0x21000, rfl, rfl, by decide⟩]
        = [⟨7, 0x80000000, 0xfffffffffffff000, 0x1000, true⟩, ⟨7, 0x80001000, 0, 0x1000, false⟩]
      ∧ ¬ WrittenBack 7 0 0x20000 [0x80000000, 0x80001000]
          [⟨0x1f000, 0x21000, rfl, rfl, by decide⟩]) := by
  refine ⟨⟨by decide +kernel, ?_⟩, ⟨by decide +kernel, ?_⟩, ⟨by decide +kernel, ?_⟩⟩
  · rw [writtenBack_iff_tame 7 (by decide) (by decide) (by decide) _ _ (by decide) (by decide)
      (by decide)]
    decide
  · rw [writtenBack_iff_tame 7 (by decide) (by decide) (by decide) _ _ (by decide) (by decide)
      (by decide)]
    decide
  · rw [writtenBack_iff_tame 7 (by decide) (by decide) (by decide) _ _ (by decide) (by decide)
      (by decide)]
    decide

end MonkeyOS
