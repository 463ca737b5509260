import MonkeyOS.Mem.Mmap
import MonkeyOS.Runtime.FrameRun

/-!
# MonkeyOS — pages for a user task, all or nothing (`kernel/src/tasks/task.rs`)

`frame_alloc` gets its frames in one piece (`frame_alloc_much`), or, for several pages of an `Mmap`
area, in segments of at most 16; it maps them and adds an area. `MonkeyOS/Mem/Mmap.lean` leaves the
allocator's answers open. Here they come from the bitmaps of `MonkeyOS/Runtime/Frame.lean`, and the
trackers that are dropped on the way out give their frames back.

* `Acquired` — between two allocator states, exactly these frames were taken; it composes, and
  dropping the frames undoes it (`Acquired.release`);
* `gatherSegments_acquired` — the loop over the segments: all its frames, or none;
* `frameAlloc_all_or_nothing` — the call, from any reachable allocator state;
* `frameAlloc_wraps` — a range past the end of the address space, of which the last page is not mapped;
* `frameAlloc_eq_answered` — the call is that of `MonkeyOS/Mem/Mmap.lean`, with these answers.

Addresses are 64-bit: `vaddr + i * PAGE_SIZE` wraps. The frames of the page table's own nodes are not
counted.
-/

namespace MonkeyOS

open Lib

/-! ## The frames of a caller -/

namespace FrameState

/-- `frame_alloc_much`: the frames of the new trackers are held. -/
def frameAllocMuch (s : FrameState) (pages : Nat) : Option (List Nat × FrameState) :=
  (s.fa.allocMuch pages).map (fun (ps, fa) => (ps, ⟨fa, ps ++ s.held⟩))

/-- `FrameTracker::drop` of each tracker, in order. -/
def release (s : FrameState) (frames : List Nat) : FrameState :=
  frames.foldl (fun s p => s.call (.dealloc p)) s

end FrameState

/-- A frame of a region whose bit is clear. -/
def FrameAllocator.Free (fa : FrameAllocator) (p : Nat) : Prop :=
  ∃ r ∈ fa.regions, ∃ i, i < r.frames ∧ getBit r.bits i = false ∧ p = r.addr i

/-- From `s` to `s'`, exactly `frames` were taken. -/
structure Acquired (ms : List (Nat × Nat)) (s s' : FrameState) (frames : List Nat) : Prop where
  inv : s'.fa.Inv ms s'.held
  held : s'.held.Perm (frames ++ s.held)

/-! ## The task's address space over the allocator -/

/-- `va!(vaddr.raw() + i * PAGE_SIZE)`, and `vaddr` itself if it is `0`. -/
def pageAddr (vaddr i : Nat) : Nat := if vaddr = 0 then vaddr else (vaddr + i * pageSize) % 2 ^ 64

/-- One `MapTrack` for each frame. -/
def mapTracks (vaddr : Nat) (frames : List Nat) : List MapTrack :=
  frames.mapIdx (fun i frame => ⟨pageAddr vaddr i, frame, 0⟩)

/-- `(remaining / 2).max(1).min(16)`. -/
def segmentSize (remaining : Nat) : Nat := min (max (remaining / 2) 1) 16

theorem segmentSize_pos (remaining : Nat) : 0 < segmentSize remaining := by
  unfold segmentSize
  omega

theorem segmentSize_le {remaining : Nat} (h : remaining ≠ 0) : segmentSize remaining ≤ remaining := by
  unfold segmentSize
  omega

/-- `while remaining > 0`: the trackers of all segments, or nothing, the trackers dropped. -/
def gatherSegments (remaining currentVaddr : Nat) (allocated : List MapTrack) (s : FrameState) :
    Option (List MapTrack) × FrameState :=
  if remaining = 0 then (some allocated, s)
  else
    match s.frameAllocMuch (segmentSize remaining) with
    | some (ps, s) =>
      gatherSegments (remaining - segmentSize remaining)
        (pageAddr currentVaddr (segmentSize remaining)) (allocated ++ mapTracks currentVaddr ps) s
    | none => (none, s.release (allocated.map (·.tracker)))
termination_by remaining
decreasing_by
  have hpos := segmentSize_pos remaining
  omega

/-- The areas with new trackers: those of a stack go to its one area. -/
def MemSet.addTracks (m : MemSet) (mtype : MemType) (ts : List MapTrack) (vaddr len : Nat) : MemSet :=
  if mtype = .stack then
    match updateFirst (·.mtype == .stack)
        (fun b => { b with mtrackers := b.mtrackers ++ ts }) m.areas with
    | some areas => ⟨areas⟩
    | none => m.push ⟨mtype, ts, none, 0, 0x70000000, 0x10000000⟩
  else m.push ⟨mtype, ts, none, 0, vaddr, len⟩

structure UserSpace where
  space : AddrSpace
  frames : FrameState

namespace UserSpace

/-- The assertions of `UserTask::map`, for the trackers it is called with. -/
def Mappable (vaddr : Nat) (ts : List MapTrack) : Prop :=
  vaddr ≠ 0 → ∀ t ∈ ts, t.vaddr ≠ 0 → t.tracker % pageSize = 0 ∧ t.vaddr % pageSize = 0

instance (vaddr : Nat) (ts : List MapTrack) : Decidable (Mappable vaddr ts) :=
  inferInstanceAs (Decidable (vaddr ≠ 0 → ∀ t ∈ ts, t.vaddr ≠ 0 → _))

/-- Map an area's trackers and push the area: the first frame and the new state. `none` is a failed
assertion. -/
def pushArea (s : UserSpace) (frames : FrameState) (vaddr : Nat) (a : MemArea)
    (flags : MappingFlags) : Option (Option Nat × UserSpace) :=
  if Mappable vaddr a.mtrackers then
    some (a.mtrackers.head?.map (·.tracker), ⟨s.space.install vaddr a flags, frames⟩)
  else none

/-- `map_frames`; `none` is a failed assertion. -/
def mapFrames (s : UserSpace) (vaddr : Nat) (mtype : MemType) (count : Nat) (file : Option Nat)
    (offset start len : Nat) (flags : MappingFlags) : Option (Option Nat × UserSpace) :=
  if count = 0 then none
  else
    match s.frames.frameAllocMuch count with
    | none => some (none, s)
    | some (ps, frames) =>
      let a : MemArea := ⟨mtype, mapTracks vaddr ps, file, offset, start, len⟩
      if mtype = .stack then
        match updateFirst (·.mtype == .stack)
            (fun b => { b with mtrackers := b.mtrackers ++ a.mtrackers }) s.space.memset.areas with
        | some areas =>
          if Mappable vaddr a.mtrackers then
            some (ps.head?, ⟨{ s.space with
              pt := s.space.mapArea vaddr a flags, memset := ⟨areas⟩ }, frames⟩)
          else none
        | none => s.pushArea frames vaddr
            { a with file := none, offset := 0, start := 0x70000000, len := 0x10000000 } flags
      else s.pushArea frames vaddr a flags

/-- `frame_alloc`; `none` is a failed assertion. -/
def frameAlloc (s : UserSpace) (vaddr : Nat) (mtype : MemType) (count : Nat) :
    Option (Option Nat × UserSpace) :=
  let len := count * pageSize % 2 ^ 64
  if mtype = .mmap ∧ count > 1 then
    match s.frames.frameAllocMuch count with
    | some (ps, frames) =>
      s.pushArea frames vaddr ⟨mtype, mapTracks vaddr ps, none, 0, vaddr, len⟩ mtype.allocFlags
    | none =>
      match gatherSegments count vaddr [] s.frames with
      | (none, frames) => some (none, { s with frames := frames })
      | (some trackers, frames) =>
        if trackers ≠ [] then
          s.pushArea frames vaddr ⟨mtype, trackers, none, 0, vaddr, len⟩ mtype.allocFlags
        else { s with frames := frames }.mapFrames vaddr mtype count none 0 vaddr len mtype.allocFlags
  else s.mapFrames vaddr mtype count none 0 vaddr len mtype.allocFlags

/-- What a granted request for `count` pages from `vaddr` on leaves: one more area, with the frames
in order, each of its pages mapped to its frame. -/
structure Granted (s : UserSpace) (vaddr : Nat) (mtype : MemType) (count : Nat) (t : UserSpace)
    (frames : List Nat) : Prop where
  length : frames.length = count
  nodup : frames.Nodup
  free : ∀ p ∈ frames, s.frames.fa.Free p
  area : t.space.memset.areas = s.space.memset.areas
    ++ [⟨mtype, frames.mapIdx (fun i p => ⟨vaddr + i * pageSize, p, 0⟩), none, 0, vaddr,
      count * pageSize⟩]
  mapped : ∀ i p, frames[i]? = some p →
    t.space.pt (vaddr + i * pageSize) = some ⟨p, mtype.allocFlags⟩
  elsewhere : ∀ v, (∀ i, i < count → v ≠ vaddr + i * pageSize) → t.space.pt v = s.space.pt v
  left : ∀ p, t.frames.fa.Free p ↔ s.frames.fa.Free p ∧ p ∉ frames

/-- What a refused request leaves: everything as it was. -/
structure Refused (s t : UserSpace) : Prop where
  memset : t.space.memset = s.space.memset
  pt : t.space.pt = s.space.pt
  free : ∀ p, t.frames.fa.Free p ↔ s.frames.fa.Free p

end UserSpace

/-! ## Taking frames and giving them back -/

section Frames

variable {ms : List (Nat × Nat)} {s s' s'' : FrameState} {frames : List Nat}

variable {held : List Nat} {pages : Nat} {fa : FrameAllocator}

theorem FrameAllocator.Inv.free_iff (hinv : fa.Inv ms held) (p : Nat) :
    fa.Free p ↔ (∃ b ∈ ms, ∃ i, i < (b.2 - b.1) / pageSize ∧ p = b.1 + i * pageSize) ∧ p ∉ held := by
  rw [← hinv.bounds]
  constructor
  · rintro ⟨r, hr, i, hi, hbit, rfl⟩
    refine ⟨⟨_, List.mem_map_of_mem hr, i, hi, rfl⟩, fun hheld => ?_⟩
    rw [(hinv.getBit_iff hr hi).mpr hheld] at hbit
    cases hbit
  · rintro ⟨⟨b, hb, i, hi, rfl⟩, hheld⟩
    obtain ⟨r, hr, rfl⟩ := List.mem_map.mp hb
    refine ⟨r, hr, i, hi, ?_, rfl⟩
    rw [Bool.eq_false_iff]
    exact fun hbit => hheld ((hinv.getBit_iff hr hi).mp hbit)

/-- The held frames decide which are free. -/
theorem FrameAllocator.Inv.free_congr {fa' : FrameAllocator} {held' : List Nat}
    (hinv : fa.Inv ms held) (hinv' : fa'.Inv ms held') (hheld : held'.Perm held) (p : Nat) :
    fa'.Free p ↔ fa.Free p := by
  rw [hinv.free_iff, hinv'.free_iff, hheld.mem_iff]

theorem FrameAllocator.Inv.held_aligned (hinv : fa.Inv ms held) {p : Nat}
    (hp : p ∈ held) : p % pageSize = 0 := by
  obtain ⟨r, hr, i, -, -, rfl⟩ := (hinv.mem_held p).mp hp
  exact (hinv.wf r hr).addr_aligned i

/-- Consecutive frames of one region, however the search went. -/
theorem FrameRegionMap.allocMuch_range {r r' : FrameRegionMap} {ps : List Nat}
    (h : r.allocMuch pages = some (ps, r')) :
    ∃ start, ps = (List.range' start pages).map (fun x => (r.paddr / pageSize + x) * pageSize) := by
  unfold allocMuch at h
  simp only at h
  split at h
  · cases h
  split at h
  · cases h
  split at h
  · cases h
    exact ⟨_, rfl⟩
  · cases h

theorem FrameState.frameAllocMuch_range (h : s.frameAllocMuch pages = some (frames, s')) :
    ∃ ppn, frames = (List.range pages).map (fun i => (ppn + i) * pageSize) := by
  obtain ⟨⟨ps, fa⟩, hmuch, heq⟩ := Option.map_eq_some_iff.mp h
  cases heq
  obtain ⟨⟨ps', rs⟩, hfirst, heq'⟩ := Option.map_eq_some_iff.mp hmuch
  cases heq'
  obtain ⟨_, r, _, r', -, -, hr, -⟩ := firstRegion_eq_some hfirst
  obtain ⟨start, rfl⟩ := FrameRegionMap.allocMuch_range hr
  refine ⟨r.paddr / pageSize + start, ?_⟩
  rw [List.range'_eq_map_range, List.map_map]
  apply List.map_congr_left
  intro i _
  rw [Function.comp_apply, Nat.add_assoc]

theorem FrameState.frameAllocMuch_length
    (h : s.frameAllocMuch pages = some (frames, s')) : frames.length = pages := by
  obtain ⟨ppn, rfl⟩ := frameAllocMuch_range h
  rw [List.length_map, List.length_range]

namespace Acquired

theorem refl (hinv : s.fa.Inv ms s.held) : Acquired ms s s [] :=
  ⟨hinv, .refl _⟩

theorem frameAllocMuch (hinv : s.fa.Inv ms s.held) {pages : Nat}
    (h : s.frameAllocMuch pages = some (frames, s')) : Acquired ms s s' frames := by
  obtain ⟨⟨ps, fa⟩, hmuch, heq⟩ := Option.map_eq_some_iff.mp h
  cases heq
  exact ⟨hinv.allocMuch hmuch, .refl _⟩

theorem trans {more : List Nat} (h : Acquired ms s s' frames) (h' : Acquired ms s' s'' more) :
    Acquired ms s s'' (frames ++ more) := by
  have hmore : s''.held.Perm (more ++ (frames ++ s.held)) :=
    h'.held.trans (h.held.append_left more)
  rw [← List.append_assoc] at hmore
  exact ⟨h'.inv, hmore.trans (List.perm_append_comm.append_right s.held)⟩

theorem nodup (h : Acquired ms s s' frames) : (frames ++ s.held).Nodup :=
  h.held.nodup_iff.mp h.inv.nodup

/-- What is taken was free, and is not free any more. -/
theorem free_iff (hinv : s.fa.Inv ms s.held) (h : Acquired ms s s' frames) (p : Nat) :
    s'.fa.Free p ↔ s.fa.Free p ∧ p ∉ frames := by
  rw [h.inv.free_iff, hinv.free_iff, h.held.mem_iff, List.mem_append]
  tauto

theorem free (hinv : s.fa.Inv ms s.held) (h : Acquired ms s s' frames) {p : Nat} (hp : p ∈ frames) :
    s.fa.Free p := by
  have hnot : p ∉ s.held := fun hheld => (List.nodup_append'.mp h.nodup).2.2 hp hheld
  have hheld : p ∈ s'.held := h.held.mem_iff.mpr (List.mem_append_left _ hp)
  obtain ⟨r, hr, i, hi, -, rfl⟩ := (h.inv.mem_held p).mp hheld
  rw [hinv.free_iff]
  refine ⟨⟨(r.paddr, r.paddrEnd), ?_, i, hi, rfl⟩, hnot⟩
  rw [← h.inv.bounds]
  exact List.mem_map_of_mem (f := fun r : FrameRegionMap => (r.paddr, r.paddrEnd)) hr

/-- Dropping the trackers gives back what was taken. -/
theorem release (h : Acquired ms s s' frames) :
    (s'.release frames).fa.Inv ms (s'.release frames).held
      ∧ (s'.release frames).held.Perm s.held := by
  obtain ⟨hinv, hheld⟩ := h
  induction frames generalizing s' with
  | nil => exact ⟨hinv, hheld⟩
  | cons p frames ih =>
    have hp : p ∈ s'.held := hheld.mem_iff.mpr List.mem_cons_self
    have herase : (s'.held.erase p).Perm (frames ++ s.held) := by
      have hperm := hheld.erase p
      rwa [List.cons_append, List.erase_cons_head] at hperm
    show (FrameState.release (s'.call (.dealloc p)) frames).fa.Inv ms _ ∧ _
    exact ih (hinv.dealloc hp) herase

end Acquired

end Frames

/-! ## The trackers -/

section Tracks

variable {vaddr : Nat} {frames : List Nat}

theorem mapTracks_frames (vaddr : Nat) (frames : List Nat) :
    (mapTracks vaddr frames).map (·.tracker) = frames := by
  apply List.ext_getElem
  · simp [mapTracks]
  · intro i hi hi'
    simp [mapTracks]

theorem pageAddr_of_lt (hv : vaddr ≠ 0) {i : Nat} (h : vaddr + i * pageSize < 2 ^ 64) :
    pageAddr vaddr i = vaddr + i * pageSize := by
  unfold pageAddr
  rw [if_neg hv, Nat.mod_eq_of_lt h]

theorem pageAddr_mod (halign : vaddr % pageSize = 0) (i : Nat) : pageAddr vaddr i % pageSize = 0 := by
  unfold pageAddr
  split
  · exact halign
  · rw [Nat.mod_mod_of_dvd _ (by decide), Nat.add_mul_mod_self_right]
    exact halign

/-- Inside the address space nothing wraps. -/
theorem mapTracks_eq (hv : vaddr ≠ 0) (hfits : vaddr + frames.length * pageSize ≤ 2 ^ 64) :
    mapTracks vaddr frames = pageTrackers vaddr frames := by
  unfold mapTracks pageTrackers
  apply List.ext_getElem
  · simp
  intro i hi hi'
  rw [List.length_mapIdx] at hi
  have hmul : (i + 1) * pageSize ≤ frames.length * pageSize := Nat.mul_le_mul_right _ hi
  have hpos := pageSize_pos
  rw [Nat.succ_mul] at hmul
  simp only [List.getElem_mapIdx]
  rw [pageAddr_of_lt hv (by omega), if_neg hv]

theorem mapTracks_append (hv : vaddr ≠ 0) (frames more : List Nat) :
    mapTracks vaddr (frames ++ more)
      = mapTracks vaddr frames ++ mapTracks (vaddr + frames.length * pageSize) more := by
  unfold mapTracks
  rw [List.mapIdx_append]
  congr 1
  apply List.mapIdx_eq_mapIdx_iff.mpr
  intro i hi
  have hne : vaddr + frames.length * pageSize ≠ 0 := by omega
  unfold pageAddr
  rw [if_neg hv, if_neg hne, Nat.add_mul]
  congr 2
  omega

theorem mapTracks_mod (halign : vaddr % pageSize = 0) {t : MapTrack}
    (h : t ∈ mapTracks vaddr frames) : t.vaddr % pageSize = 0 := by
  obtain ⟨i, -, rfl⟩ := List.mem_mapIdx.mp h
  exact pageAddr_mod halign i

end Tracks

/-! ## The segments -/

section Segments

variable {ms : List (Nat × Nat)} {s₀ s s' : FrameState} {remaining cur vaddr : Nat}
  {allocated ts : List MapTrack}

variable (remaining cur allocated) in
/-- Whatever was taken before: a failed segment gives back all of it. -/
theorem gatherSegments_acquired (h : Acquired ms s₀ s (allocated.map (·.tracker))) :
    Acquired ms s₀ (gatherSegments remaining cur allocated s).2
      (((gatherSegments remaining cur allocated s).1.getD []).map (·.tracker)) := by
  fun_induction gatherSegments remaining cur allocated s with
  | case1 cur allocated s => exact h
  | case2 remaining cur allocated s hne ps s' hmuch ih =>
    apply ih
    rw [List.map_append, mapTracks_frames]
    exact h.trans (.frameAllocMuch h.inv hmuch)
  | case3 remaining cur allocated s hne hmuch =>
    obtain ⟨hinv, hheld⟩ := h.release
    exact ⟨hinv, hheld⟩

/-- A tracker for each page, at a page's address. -/
theorem gatherSegments_length (h : gatherSegments remaining cur allocated s = (some ts, s'))
    (hcur : cur % pageSize = 0) (hpages : ∀ t ∈ allocated, t.vaddr % pageSize = 0) :
    ts.length = allocated.length + remaining ∧ ∀ t ∈ ts, t.vaddr % pageSize = 0 := by
  fun_induction gatherSegments remaining cur allocated s with
  | case1 cur allocated s =>
    cases h
    exact ⟨rfl, hpages⟩
  | case2 remaining cur allocated s hne ps s' hmuch ih =>
    have hlen := FrameState.frameAllocMuch_length hmuch
    have hle := segmentSize_le hne
    have hnew : ∀ t ∈ allocated ++ mapTracks cur ps, t.vaddr % pageSize = 0 := by
      intro t ht
      rcases List.mem_append.mp ht with ht | ht
      · exact hpages t ht
      · exact mapTracks_mod hcur ht
    obtain ⟨hlength, hts⟩ := ih h (pageAddr_mod hcur _) hnew
    rw [List.length_append, show (mapTracks cur ps).length = ps.length by simp [mapTracks]] at hlength
    exact ⟨by omega, hts⟩
  | case3 remaining cur allocated s hne hmuch => cases h

/-- Segment after segment, the addresses go on where the last one ended. -/
theorem gatherSegments_tracks (hv : vaddr ≠ 0)
    (h : gatherSegments remaining cur allocated s = (some ts, s')) (fs : List Nat)
    (hallocated : allocated = mapTracks vaddr fs)
    (hcur : remaining ≠ 0 → cur = vaddr + fs.length * pageSize)
    (hfits : vaddr + (fs.length + remaining) * pageSize ≤ 2 ^ 64) :
    ∃ frames, ts = mapTracks vaddr frames := by
  fun_induction gatherSegments remaining cur allocated s generalizing fs with
  | case1 cur allocated s =>
    cases h
    exact ⟨fs, hallocated⟩
  | case2 remaining cur allocated s hne ps s' hmuch ih =>
    have hlen := FrameState.frameAllocMuch_length hmuch
    have hle := segmentSize_le hne
    have hcur := hcur hne
    apply ih h (fs ++ ps)
    · rw [mapTracks_append hv, hallocated, hcur]
    · intro hmore
      -- a page is still to come, so this one's address is below `2^64`
      have hend : vaddr + (fs.length + ps.length) * pageSize < 2 ^ 64 := by
        have hmul : (fs.length + ps.length + 1) * pageSize ≤ (fs.length + remaining) * pageSize :=
          Nat.mul_le_mul_right _ (by omega)
        have hpos := pageSize_pos
        rw [Nat.succ_mul] at hmul
        omega
      rw [Nat.add_mul] at hend
      rw [List.length_append, Nat.add_mul, ← hlen, hcur, pageAddr_of_lt (by omega) (by omega)]
      omega
    · rw [List.length_append, hlen, Nat.add_assoc, Nat.add_sub_cancel' hle]
      exact hfits
  | case3 remaining cur allocated s hne hmuch => cases h

end Segments

/-! ## The call -/

namespace UserSpace

variable {ms : List (Nat × Nat)} {s t : UserSpace} {vaddr count : Nat} {mtype : MemType}

/-- How `frame_alloc` ends, for every kind of area and every page: with nothing taken, or with trackers
that are new. At page `0` nothing is mapped, and the trackers are all at `0`. -/
inductive Took (ms : List (Nat × Nat)) (s : UserSpace) (vaddr : Nat) (mtype : MemType)
    (count : Nat) : Option Nat → UserSpace → Prop where
  | refused {frames : FrameState} (hnone : Acquired ms s.frames frames []) :
      Took ms s vaddr mtype count none { s with frames := frames }
  | granted {frames : FrameState} {ts : List MapTrack}
      (hall : Acquired ms s.frames frames (ts.map (·.tracker)))
      (hlength : ts.length = count)
      (htracks : vaddr ≠ 0 → vaddr + count * pageSize ≤ 2 ^ 64 →
        ∃ frames, ts = mapTracks vaddr frames) :
      Took ms s vaddr mtype count (ts.head?.map (·.tracker))
        ⟨{ s.space with
            pt := s.space.mapArea vaddr ⟨mtype, ts, none, 0, vaddr, count * pageSize % 2 ^ 64⟩
              mtype.allocFlags
            memset := s.space.memset.addTracks mtype ts vaddr (count * pageSize % 2 ^ 64) }, frames⟩

/-- How `frame_alloc` ends: with nothing taken, or with the trackers of an area that is new. -/
inductive Outcome (ms : List (Nat × Nat)) (s : UserSpace) (vaddr : Nat) (mtype : MemType)
    (count : Nat) : Option Nat → UserSpace → Prop where
  | refused {frames : FrameState} (hnone : Acquired ms s.frames frames []) :
      Outcome ms s vaddr mtype count none { s with frames := frames }
  | granted {frames : FrameState} {ts : List MapTrack}
      (hall : Acquired ms s.frames frames (ts.map (·.tracker)))
      (hlength : ts.length = count)
      (htracks : vaddr + count * pageSize ≤ 2 ^ 64 →
        ∃ frames, ts = mapTracks vaddr frames) :
      Outcome ms s vaddr mtype count (ts.head?.map (·.tracker))
        ⟨s.space.install vaddr ⟨mtype, ts, none, 0, vaddr, count * pageSize % 2 ^ 64⟩
          mtype.allocFlags, frames⟩

variable {ps : List Nat} {ts : List MapTrack} {frames : FrameState}

/-- Frames of the allocator, at pages' addresses: the assertions of `map` hold. -/
theorem mappable_of_acquired (hall : Acquired ms s.frames frames (ts.map (·.tracker)))
    (hpages : ∀ t ∈ ts, t.vaddr % pageSize = 0) : Mappable vaddr ts := by
  intro _ t ht _
  have hheld : t.tracker ∈ frames.held := by
    rw [hall.held.mem_iff]
    exact List.mem_append_left _ (List.mem_map_of_mem (f := fun t : MapTrack => t.tracker) ht)
  exact ⟨hall.inv.held_aligned hheld, hpages t ht⟩

theorem mappable_mapTracks (hinv : s.frames.fa.Inv ms s.frames.held) (halign : vaddr % pageSize = 0)
    (h : s.frames.frameAllocMuch count = some (ps, frames)) : Mappable vaddr (mapTracks vaddr ps) := by
  have hall : Acquired ms s.frames frames ((mapTracks vaddr ps).map (·.tracker)) := by
    rw [mapTracks_frames]
    exact .frameAllocMuch hinv h
  exact mappable_of_acquired hall (fun t ht => mapTracks_mod halign ht)

/-- A new area, of any kind but a stack. -/
theorem pushArea_took (hmtype : mtype ≠ .stack)
    (hall : Acquired ms s.frames frames (ts.map (·.tracker)))
    (hpages : ∀ t ∈ ts, t.vaddr % pageSize = 0) (hlength : ts.length = count)
    (htracks : vaddr ≠ 0 → vaddr + count * pageSize ≤ 2 ^ 64 → ∃ frames, ts = mapTracks vaddr frames) :
    ∃ r t, s.pushArea frames vaddr ⟨mtype, ts, none, 0, vaddr, count * pageSize % 2 ^ 64⟩
        mtype.allocFlags = some (r, t)
      ∧ Took ms s vaddr mtype count r t := by
  have htook : Took ms s vaddr mtype count _ _ := .granted hall hlength htracks
  unfold MemSet.addTracks at htook
  rw [if_neg hmtype] at htook
  exact ⟨_, _, if_pos (mappable_of_acquired hall hpages), htook⟩

variable (vaddr) in
/-- Frames in one piece. -/
theorem acquired_mapTracks (hinv : s.frames.fa.Inv ms s.frames.held)
    (h : s.frames.frameAllocMuch count = some (ps, frames)) :
    Acquired ms s.frames frames ((mapTracks vaddr ps).map (·.tracker))
      ∧ (mapTracks vaddr ps).length = count := by
  rw [mapTracks_frames, show (mapTracks vaddr ps).length = ps.length by simp [mapTracks]]
  exact ⟨.frameAllocMuch hinv h, FrameState.frameAllocMuch_length h⟩

theorem pushArea_frameAllocMuch (hinv : s.frames.fa.Inv ms s.frames.held)
    (halign : vaddr % pageSize = 0) (hmtype : mtype ≠ .stack)
    (h : s.frames.frameAllocMuch count = some (ps, frames)) :
    ∃ r t, s.pushArea frames vaddr
        ⟨mtype, mapTracks vaddr ps, none, 0, vaddr, count * pageSize % 2 ^ 64⟩
        mtype.allocFlags = some (r, t)
      ∧ Took ms s vaddr mtype count r t := by
  obtain ⟨hall, hlength⟩ := acquired_mapTracks vaddr hinv h
  exact pushArea_took hmtype hall (fun t ht => mapTracks_mod halign ht) hlength
    (fun _ _ => ⟨ps, rfl⟩)

theorem mapFrames_of_refused (hcount : 1 ≤ count) (h : s.frames.frameAllocMuch count = none)
    (file : Option Nat) (offset start len : Nat) (flags : MappingFlags) :
    s.mapFrames vaddr mtype count file offset start len flags = some (none, s) := by
  unfold mapFrames
  rw [if_neg (by omega), h]

theorem mapFrames_of_taken (hmtype : mtype ≠ .stack) (hcount : 1 ≤ count)
    (h : s.frames.frameAllocMuch count = some (ps, frames)) (file : Option Nat)
    (offset start len : Nat) (flags : MappingFlags) :
    s.mapFrames vaddr mtype count file offset start len flags
      = s.pushArea frames vaddr ⟨mtype, mapTracks vaddr ps, file, offset, start, len⟩ flags := by
  unfold mapFrames
  rw [if_neg (by omega), h]
  exact if_neg hmtype

/-- A stack's frames, with an area for it there or not. -/
theorem mapFrames_stack_took (hinv : s.frames.fa.Inv ms s.frames.held)
    (halign : vaddr % pageSize = 0) (hcount : 1 ≤ count)
    (h : s.frames.frameAllocMuch count = some (ps, frames)) :
    ∃ r t, s.mapFrames vaddr .stack count none 0 vaddr (count * pageSize % 2 ^ 64)
        MemType.stack.allocFlags = some (r, t)
      ∧ Took ms s vaddr .stack count r t := by
  obtain ⟨hall, hlength⟩ := acquired_mapTracks vaddr hinv h
  have hmappable := mappable_mapTracks hinv halign h
  have hhead : ps.head? = (mapTracks vaddr ps).head?.map (·.tracker) := by
    rw [← List.head?_map, mapTracks_frames]
  have htook : Took ms s vaddr .stack count _ _ := .granted hall hlength (fun _ _ => ⟨ps, rfl⟩)
  unfold MemSet.addTracks at htook
  rw [if_pos rfl] at htook
  unfold mapFrames
  rw [if_neg (by omega), h]
  simp only [if_true]
  cases hup : updateFirst (·.mtype == .stack)
      (fun b => { b with mtrackers := b.mtrackers ++ mapTracks vaddr ps }) s.space.memset.areas with
  | some areas =>
    rw [hup] at htook
    simp only
    rw [if_pos hmappable, hhead]
    exact ⟨_, _, rfl, htook⟩
  | none =>
    rw [hup] at htook
    exact ⟨_, _, if_pos hmappable, htook⟩

variable (mtype) in
theorem frameAlloc_took (hinv : s.frames.fa.Inv ms s.frames.held) (halign : vaddr % pageSize = 0)
    (hcount : 1 ≤ count) :
    ∃ r t, s.frameAlloc vaddr mtype count = some (r, t) ∧ Took ms s vaddr mtype count r t := by
  unfold frameAlloc
  simp only
  split
  · rename_i hmmap
    have hmtype : mtype ≠ .stack := by
      rw [hmmap.1]
      decide
    cases hmuch : s.frames.frameAllocMuch count with
    | some res => exact pushArea_frameAllocMuch hinv halign hmtype hmuch
    | none =>
      have hgather := gatherSegments_acquired count vaddr [] (Acquired.refl hinv)
      cases hres : gatherSegments count vaddr [] s.frames with
      | mk res frames =>
        rw [hres] at hgather
        cases res with
        | none => exact ⟨none, _, rfl, .refused hgather⟩
        | some ts =>
          obtain ⟨hlength, hpages⟩ := gatherSegments_length hres halign (by simp)
          rw [List.length_nil, Nat.zero_add] at hlength
          have hne : ts ≠ [] := by
            intro hnil
            rw [hnil, List.length_nil] at hlength
            omega
          simp only
          rw [if_pos hne]
          apply pushArea_took hmtype hgather hpages hlength
          intro hv hfits
          exact gatherSegments_tracks hv hres [] rfl (fun _ => by simp) (by simpa using hfits)
  · cases hmuch : s.frames.frameAllocMuch count with
    | none =>
      rw [mapFrames_of_refused hcount hmuch]
      exact ⟨none, s, rfl, .refused (Acquired.refl hinv)⟩
    | some res =>
      by_cases hmtype : mtype = .stack
      · subst hmtype
        exact mapFrames_stack_took hinv halign hcount hmuch
      · rw [mapFrames_of_taken hmtype hcount hmuch]
        exact pushArea_frameAllocMuch hinv halign hmtype hmuch

theorem frameAlloc_outcome (hinv : s.frames.fa.Inv ms s.frames.held) (hv : vaddr ≠ 0)
    (halign : vaddr % pageSize = 0) (hmtype : mtype ≠ .stack) (hcount : 1 ≤ count) :
    ∃ r t, s.frameAlloc vaddr mtype count = some (r, t) ∧ Outcome ms s vaddr mtype count r t := by
  obtain ⟨r, t, heq, htook⟩ := frameAlloc_took mtype hinv halign hcount
  refine ⟨r, t, heq, ?_⟩
  cases htook with
  | refused hnone => exact .refused hnone
  | granted hall hlength htracks =>
    unfold MemSet.addTracks
    rw [if_neg hmtype]
    exact .granted hall hlength (htracks hv)

/-- The trackers of a granted request, each at its page. -/
theorem install_mapTracks (s : AddrSpace) (hv : vaddr ≠ 0) {frames : List Nat}
    (hlength : frames.length = count) (hfits : vaddr + count * pageSize ≤ 2 ^ 64) :
    s.install vaddr ⟨mtype, mapTracks vaddr frames, none, 0, vaddr, count * pageSize % 2 ^ 64⟩
        mtype.allocFlags
      = { s with
          memset := s.memset.push ⟨mtype, pageTrackers vaddr frames, none, 0, vaddr,
            count * pageSize⟩
          pt := s.pt.mapTrackers (pageTrackers vaddr frames) mtype.allocFlags } := by
  rw [mapTracks_eq hv (by rw [hlength]; exact hfits), Nat.mod_eq_of_lt (by omega)]
  have hplaced : (pageTrackers vaddr frames).filter (·.vaddr ≠ 0)
      = pageTrackers vaddr frames := by
    rw [List.filter_eq_self]
    intro t ht
    obtain ⟨i, -, hi⟩ := mem_pageTrackers hv ht
    rw [hi]
    simp only [ne_eq, decide_not, Bool.not_eq_true', decide_eq_false_iff_not]
    omega
  unfold AddrSpace.install AddrSpace.mapArea
  rw [if_pos hv, hplaced]

theorem Outcome.granted_of_some (hinv : s.frames.fa.Inv ms s.frames.held) (hv : vaddr ≠ 0)
    (hfits : vaddr + count * pageSize ≤ 2 ^ 64) {ppn : Nat}
    (h : Outcome ms s vaddr mtype count (some ppn) t) :
    ∃ frames, frames.head? = some ppn ∧ s.Granted vaddr mtype count t frames := by
  generalize hr : some ppn = r at h
  cases h with
  | refused hnone => cases hr
  | granted hall hlength htracks =>
    rename_i after ts
    obtain ⟨frames, rfl⟩ := htracks hfits
    rw [mapTracks_frames] at hall
    have hlen : frames.length = count := by rw [← hlength]; simp [mapTracks]
    have hpages : pageTrackers vaddr frames
        = frames.mapIdx (fun i p => ⟨vaddr + i * pageSize, p, 0⟩) := by
      unfold pageTrackers
      simp only [if_neg hv]
    refine ⟨frames, ?_, ?_⟩
    · rw [← List.head?_map, mapTracks_frames]
    rw [install_mapTracks s.space hv hlen hfits]
    refine ⟨hlen, (List.nodup_append'.mp hall.nodup).1, fun p hp => hall.free hinv hp, ?_, ?_, ?_,
      hall.free_iff hinv⟩
    · rw [← hpages]
      rfl
    · intro i p hi
      have hmem : (⟨vaddr + i * pageSize, p, 0⟩ : MapTrack) ∈ pageTrackers vaddr frames := by
        rw [hpages]
        apply List.mem_iff_getElem?.mpr
        exact ⟨i, by rw [List.getElem?_mapIdx, hi]; rfl⟩
      exact PageTable.mapTrackers_of_mem (nodup_pageTrackers hv frames) hmem _ _
    · intro v hother
      apply PageTable.mapTrackers_of_not_mem
      intro u hu heq
      obtain ⟨i, hi, hui⟩ := mem_pageTrackers hv hu
      exact hother i (by rw [← hlen]; exact hi) (heq.symm.trans hui)

theorem Outcome.refused_of_none (hinv : s.frames.fa.Inv ms s.frames.held) (hcount : 1 ≤ count)
    (h : Outcome ms s vaddr mtype count none t) : s.Refused t := by
  generalize hr : none = r at h
  cases h with
  | refused hnone => exact ⟨rfl, rfl, fun p => hinv.free_congr hnone.inv hnone.held p⟩
  | granted hall hlength htracks =>
    -- an area has at least one tracker
    rename_i after ts
    cases ts with
    | nil =>
      rw [List.length_nil] at hlength
      omega
    | cons t ts => cases hr

end UserSpace

/-- **Page allocation is all or nothing.** From every reachable allocator state, for every page-aligned
address but `0`, every kind of area but a stack and at least one page, `frame_alloc` ends without a
failed assertion. Refused, it leaves the areas, the page table and the free frames as they were.
Granted, with the pages inside the address space, it has taken distinct free frames, one for each
page in order, added their area and mapped its pages to them, and nothing else. -/
theorem frameAlloc_all_or_nothing (regions : List MemRegion)
    (hdisj : regions.Pairwise MemRegion.Disjoint) {calls : List FrameCall} {s : UserSpace}
    (hrun : Run FrameStep ⟨.ofRegions regions, []⟩ calls s.frames) (vaddr count : Nat)
    (mtype : MemType) (hv : vaddr ≠ 0) (halign : vaddr % pageSize = 0) (hmtype : mtype ≠ .stack)
    (hcount : 1 ≤ count) :
    ∃ r t, s.frameAlloc vaddr mtype count = some (r, t)
      ∧ (r = none → s.Refused t)
      ∧ ∀ ppn, r = some ppn → vaddr + count * pageSize ≤ 2 ^ 64 →
        ∃ frames, frames.head? = some ppn ∧ s.Granted vaddr mtype count t frames := by
  have hinv : s.frames.fa.Inv (regions.map (fun m => (m.start, m.stop))) s.frames.held :=
    hrun.invariant (I := fun s => s.fa.Inv (regions.map (fun m => (m.start, m.stop))) s.held)
      (fun _ _ _ => FrameStep.inv) (FrameAllocator.inv_ofRegions hdisj)
  obtain ⟨r, t, heq, hout⟩ := UserSpace.frameAlloc_outcome hinv hv halign hmtype hcount
  refine ⟨r, t, heq, ?_, ?_⟩
  · rintro rfl
    exact hout.refused_of_none hinv hcount
  · rintro ppn rfl hfits
    exact hout.granted_of_some hinv hv hfits

/-- Four frames, of which the second is taken. -/
def fragmented : UserSpace :=
  ⟨.empty, ⟨⟨[⟨[0xfffffffffffffff2#64], 0x80000000, 0x80004000⟩]⟩, [0x80001000]⟩⟩

/-- Three pages are found in segments; four are not, and what was found of them is given back. -/
theorem frameAlloc_all_or_nothing_fragmented :
    Run FrameStep ⟨.ofRegions [⟨0x80000000, 0x80004000, rfl, rfl, by decide⟩], []⟩
        [.alloc, .alloc, .dealloc 0x80000000] fragmented.frames
      ∧ (∃ t frames, fragmented.frameAlloc 0x10000 .mmap 3 = some (some 0x80000000, t)
        ∧ fragmented.Granted 0x10000 .mmap 3 t frames)
      ∧ ∃ t, fragmented.frameAlloc 0x10000 .mmap 4 = some (none, t) ∧ fragmented.Refused t := by
  have hrun : Run FrameStep ⟨.ofRegions [⟨0x80000000, 0x80004000, rfl, rfl, by decide⟩], []⟩
      [.alloc, .alloc, .dealloc 0x80000000] fragmented.frames :=
    .cons ⟨trivial, rfl⟩ (.cons ⟨trivial, rfl⟩
      (.cons ⟨by show _ ∈ _; decide +kernel, by decide +kernel⟩ (.nil _)))
  have hcall := fun count hcount => frameAlloc_all_or_nothing _ (List.pairwise_singleton _ _) hrun
    0x10000 count .mmap (by decide) (by decide) (by decide) hcount
  refine ⟨hrun, ?_, ?_⟩
  · have hthree : (fragmented.frameAlloc 0x10000 .mmap 3).map Prod.fst = some (some 0x80000000) := by
      decide +kernel
    obtain ⟨r, t, heq, -, hsome⟩ := hcall 3 (by decide)
    rw [heq] at hthree
    cases hthree
    obtain ⟨frames, -, hgranted⟩ := hsome _ rfl (by decide)
    exact ⟨t, frames, heq, hgranted⟩
  · have hfour : (fragmented.frameAlloc 0x10000 .mmap 4).map Prod.fst = some none := by
      decide +kernel
    obtain ⟨r, t, heq, hnone, -⟩ := hcall 4 (by decide)
    rw [heq] at hfour
    cases hfour
    exact ⟨t, heq, hnone rfl⟩

/-- Two pages from the last one of the address space on: the second tracker is at address `0`, which
`frame_alloc` takes for "not placed", and its page is not mapped. -/
theorem frameAlloc_wraps :
    let s : UserSpace := ⟨.empty, ⟨.ofRegions [⟨0x80000000, 0x80002000, rfl, rfl, by decide⟩], []⟩⟩
    ∃ t, s.frameAlloc 0xfffffffffffff000 .mmap 2 = some (some 0x80000000, t)
      ∧ t.space.memset.areas = [⟨.mmap, [⟨0xfffffffffffff000, 0x80000000, 0⟩, ⟨0, 0x80001000, 0⟩],
        none, 0, 0xfffffffffffff000, 0x2000⟩]
      ∧ t.space.pt 0 = none
      ∧ ¬ ∃ frames, s.Granted 0xfffffffffffff000 .mmap 2 t frames := by
  intro s
  have hval : (s.frameAlloc 0xfffffffffffff000 .mmap 2).map
        (fun r => (r.1, r.2.space.memset.areas, r.2.space.pt 0))
      = some (some 0x80000000, [⟨.mmap, [⟨0xfffffffffffff000, 0x80000000, 0⟩, ⟨0, 0x80001000, 0⟩],
        none, 0, 0xfffffffffffff000, 0x2000⟩], none) := by
    decide +kernel
  obtain ⟨⟨r, t⟩, heq, hrt⟩ := Option.map_eq_some_iff.mp hval
  simp only [Prod.mk.injEq] at hrt
  obtain ⟨rfl, hareas, hpt⟩ := hrt
  refine ⟨t, heq, hareas, hpt, ?_⟩
  rintro ⟨frames, hgranted⟩
  have harea := hgranted.area
  rw [hareas] at harea
  have htracks := congrArg MemArea.mtrackers (List.singleton_inj.mp harea)
  -- the claimed address of the second page is `2^64`
  have hsecond := congrArg (fun ts => (ts[1]?).map MapTrack.vaddr) htracks
  simp only [List.getElem?_mapIdx, Option.map_map] at hsecond
  cases hframe : frames[1]? with
  | none =>
    rw [hframe] at hsecond
    cases hsecond
  | some p =>
    rw [hframe] at hsecond
    have hzero : 0 = 0xfffffffffffff000 + 1 * pageSize := Option.some.inj hsecond
    exact absurd hzero (by decide)

/-! ## The answers of the allocator -/

namespace UserSpace

/-- What `MonkeyOS/Mem/Mmap.lean` asks of the allocator, from its bitmaps. -/
def answers (s : UserSpace) (vaddr : Nat) (env : MmapEnv) : MmapEnv :=
  { env with
    frameAllocMuch := fun count => (s.frames.frameAllocMuch count).bind (·.1.head?)
    segments := fun count =>
      match (gatherSegments count vaddr [] s.frames).1 with
      | some ts =>
        if h : (ts.map (·.tracker)).length = count then
          some ⟨ts.map (·.tracker), h⟩
        else none
      | none => none }

theorem frameAllocMuch_contiguous {s s' : FrameState} {pages : Nat} {ps : List Nat}
    (hpages : 1 ≤ pages) (h : s.frameAllocMuch pages = some (ps, s')) :
    ∃ ppn, ps.head? = some ppn ∧ ps = contiguous ppn pages := by
  obtain ⟨ppn, rfl⟩ := FrameState.frameAllocMuch_range h
  refine ⟨ppn * pageSize, ?_, ?_⟩
  · rw [List.head?_map, List.head?_range, if_neg (by omega)]
    simp
  unfold contiguous
  apply List.map_congr_left
  intro i _
  rw [Nat.add_mul]

variable {s : UserSpace} {ms : List (Nat × Nat)} {vaddr count : Nat} {mtype : MemType}

/-- A piece of contiguous frames, pushed as an area: what `MonkeyOS/Mem/Mmap.lean` pushes. -/
theorem pushArea_contiguous (hinv : s.frames.fa.Inv ms s.frames.held) (hv : vaddr ≠ 0)
    (halign : vaddr % pageSize = 0) (hfits : vaddr + count * pageSize ≤ 2 ^ 64) (hcount : 1 ≤ count)
    {ps : List Nat} {frames : FrameState} (h : s.frames.frameAllocMuch count = some (ps, frames)) :
    ∃ ppn, ps.head? = some ppn
      ∧ s.pushArea frames vaddr
          ⟨mtype, mapTracks vaddr ps, none, 0, vaddr, count * pageSize % 2 ^ 64⟩ mtype.allocFlags
        = some (some ppn, ⟨s.space.install vaddr
          ⟨mtype, pageTrackers vaddr (contiguous ppn count), none, 0, vaddr, count * pageSize⟩
          mtype.allocFlags, frames⟩) := by
  obtain ⟨ppn, hhead, hps⟩ := frameAllocMuch_contiguous hcount h
  have hlen := FrameState.frameAllocMuch_length h
  refine ⟨ppn, hhead, (if_pos (mappable_mapTracks hinv halign h)).trans ?_⟩
  show some ((mapTracks vaddr ps).head?.map (·.tracker), _) = _
  rw [← List.head?_map, mapTracks_frames, hhead, mapTracks_eq hv (by rw [hlen]; exact hfits),
    Nat.mod_eq_of_lt (by omega), ← hps]

theorem answers_segments_some (env : MmapEnv) {ts : List MapTrack}
    (h : (gatherSegments count vaddr [] s.frames).1 = some ts)
    (hlength : (ts.map (·.tracker)).length = count) :
    (s.answers vaddr env).segments count = some ⟨ts.map (·.tracker), hlength⟩ := by
  unfold answers
  simp only [h]
  exact dif_pos hlength

theorem answers_segments_none (env : MmapEnv)
    (h : (gatherSegments count vaddr [] s.frames).1 = none) :
    (s.answers vaddr env).segments count = none := by
  unfold answers
  simp only [h]

/-- Frames gathered in segments, pushed as an area. -/
theorem pushArea_segments (hinv : s.frames.fa.Inv ms s.frames.held) (hv : vaddr ≠ 0)
    (halign : vaddr % pageSize = 0) (hfits : vaddr + count * pageSize ≤ 2 ^ 64) (hcount : 1 ≤ count)
    {ts : List MapTrack} {frames : FrameState}
    (h : gatherSegments count vaddr [] s.frames = (some ts, frames)) (env : MmapEnv) :
    ts ≠ [] ∧ ∃ segments, (s.answers vaddr env).segments count = some segments
      ∧ s.pushArea frames vaddr ⟨mtype, ts, none, 0, vaddr, count * pageSize % 2 ^ 64⟩ mtype.allocFlags
        = some (some (segments.val.headD 0), ⟨s.space.install vaddr
          ⟨mtype, pageTrackers vaddr segments.val, none, 0, vaddr, count * pageSize⟩
          mtype.allocFlags, frames⟩) := by
  have hgather := gatherSegments_acquired count vaddr [] (Acquired.refl hinv)
  rw [h] at hgather
  obtain ⟨hlength, hpages⟩ := gatherSegments_length h halign (by simp)
  rw [List.length_nil, Nat.zero_add] at hlength
  obtain ⟨fs, rfl⟩ :=
    gatherSegments_tracks hv h [] rfl (fun _ => by simp) (by simpa using hfits)
  have hfs : fs.length = count := by rw [← hlength]; simp [mapTracks]
  have hne : mapTracks vaddr fs ≠ [] := by
    intro hnil
    rw [hnil, List.length_nil] at hlength
    omega
  refine ⟨hne, _, answers_segments_some env (by rw [h]) (by rw [mapTracks_frames]; exact hfs),
    (if_pos (mappable_of_acquired hgather hpages)).trans ?_⟩
  show some ((mapTracks vaddr fs).head?.map (·.tracker), _) = _
  simp only [← List.head?_map, mapTracks_frames]
  cases fs with
  | nil => exact absurd rfl hne
  | cons p fs =>
    rw [mapTracks_eq hv (by rw [hfs]; exact hfits), Nat.mod_eq_of_lt (by omega)]
    rfl

/-- `frame_alloc` is the one of `MonkeyOS/Mem/Mmap.lean`, given the allocator's answers. -/
theorem frameAlloc_eq_answered (hinv : s.frames.fa.Inv ms s.frames.held) (hv : vaddr ≠ 0)
    (halign : vaddr % pageSize = 0) (hfits : vaddr + count * pageSize ≤ 2 ^ 64)
    (hmtype : mtype ≠ .stack) (hcount : 1 ≤ count) (env : MmapEnv) :
    ∃ r t, s.frameAlloc vaddr mtype count = some (r, t)
      ∧ s.space.frameAlloc (s.answers vaddr env) vaddr mtype count
        = r.map (fun ppn => (ppn, t.space)) := by
  unfold frameAlloc AddrSpace.frameAlloc
  simp only
  have hanswer : (s.answers vaddr env).frameAllocMuch count
    = (s.frames.frameAllocMuch count).bind (·.1.head?) := rfl
  split
  · rw [hanswer]
    cases hmuch : s.frames.frameAllocMuch count with
    | some res =>
      obtain ⟨ppn, hhead, hpush⟩ := pushArea_contiguous hinv hv halign hfits hcount hmuch
      refine ⟨_, _, hpush, ?_⟩
      rw [Option.bind_some, hhead]
      rfl
    | none =>
      rw [Option.bind_none]
      cases hres : gatherSegments count vaddr [] s.frames with
      | mk res frames =>
        cases res with
        | none =>
          refine ⟨none, _, rfl, ?_⟩
          simp only
          rw [answers_segments_none env (by rw [hres])]
          rfl
        | some ts =>
          obtain ⟨hne, segments, hsegments, hpush⟩ :=
            pushArea_segments hinv hv halign hfits hcount hres env
          refine ⟨_, _, (if_pos hne).trans hpush, ?_⟩
          simp only [hsegments, Option.map_some]
  · cases hmuch : s.frames.frameAllocMuch count with
    | none =>
      rw [mapFrames_of_refused hcount hmuch]
      refine ⟨none, s, rfl, ?_⟩
      unfold AddrSpace.mapFrames
      rw [hanswer, hmuch]
      rfl
    | some res =>
      obtain ⟨ppn, hhead, hpush⟩ := pushArea_contiguous hinv hv halign hfits hcount hmuch
      rw [mapFrames_of_taken hmtype hcount hmuch]
      refine ⟨_, _, hpush, ?_⟩
      unfold AddrSpace.mapFrames
      rw [hanswer, hmuch, Option.bind_some, hhead]
      exact congrArg some (if_neg hmtype)

end UserSpace

end MonkeyOS
