import MonkeyOS.Runtime.Frame

/-!
# MonkeyOS — the frame allocator over whole runs

`MonkeyOS/Runtime/Frame.lean` says what one call does to one region. This module ties the
regions' bitmaps to the frames the callers hold (`FrameAllocator.Inv`), shows that every
call keeps the tie, and reads the guarantees of the allocator off it for every run of
calls from freshly registered regions.
-/

namespace MonkeyOS

open Lib

/-! ## The allocator's invariant

`held` is the list of frames handed out and not yet returned. The invariant ties it to the
bitmaps of all regions and to the free-page count; `Inv.replace` is the one place where a
change of a single region is lifted to the whole allocator. -/

variable {β : Type} {f : FrameRegionMap → Option (β × FrameRegionMap)}

/-- A served request: some region served it, and none of the regions before it did. -/
theorem firstRegion_eq_some {b : β} :
    ∀ {rs rs' : List FrameRegionMap}, firstRegion f rs = some (b, rs') →
      ∃ pre r post r', rs = pre ++ r :: post ∧ rs' = pre ++ r' :: post ∧ f r = some (b, r')
        ∧ ∀ q ∈ pre, f q = none
  | [], _, h => by simp [firstRegion] at h
  | r :: rs, _, h => by
      unfold firstRegion at h
      split at h
      · rename_i b' r' hf
        cases h
        exact ⟨[], r, rs, r', rfl, rfl, hf, by simp⟩
      · rename_i hnone
        obtain ⟨⟨b', rs''⟩, hrec, heq⟩ := Option.map_eq_some_iff.mp h
        cases heq
        obtain ⟨pre, r₁, post, r₁', hrs, hrs', hf, hpre⟩ := firstRegion_eq_some hrec
        refine ⟨r :: pre, r₁, post, r₁', by rw [hrs]; rfl, by rw [hrs']; rfl, hf, fun q hq => ?_⟩
        rcases List.mem_cons.mp hq with rfl | hq
        · exact hnone
        · exact hpre q hq

theorem firstRegion_eq_none :
    ∀ {rs : List FrameRegionMap}, firstRegion f rs = none → ∀ r ∈ rs, f r = none
  | [], _, r, hr => absurd hr (by simp)
  | q :: rs, h, r, hr => by
      unfold firstRegion at h
      split at h
      · cases h
      rename_i hnone
      rw [Option.map_eq_none_iff] at h
      rcases List.mem_cons.mp hr with rfl | hr
      · exact hnone
      · exact firstRegion_eq_none h r hr

namespace FrameAllocator

/-- The bounds of the regions; no call changes them. -/
def bounds (fa : FrameAllocator) : List (Nat × Nat) :=
  fa.regions.map (fun r => (r.paddr, r.paddrEnd))

/-- The number of frames of all regions. -/
def total (fa : FrameAllocator) : Nat := (fa.regions.map FrameRegionMap.frames).sum

structure Inv (fa : FrameAllocator) (ms : List (Nat × Nat)) (held : List Nat) : Prop where
  bounds : fa.bounds = ms
  wf : ∀ r ∈ fa.regions, r.WF
  disjoint : fa.regions.Pairwise (fun r q => ∀ p, r.Contains p → ¬ q.Contains p)
  nodup : held.Nodup
  mem_held : ∀ p, p ∈ held ↔
    ∃ r ∈ fa.regions, ∃ i, i < r.frames ∧ getBit r.bits i = true ∧ p = r.addr i
  count : fa.getFreePageCount + held.length = fa.total

theorem getFreePageCount_eq_sum (fa : FrameAllocator) :
    fa.getFreePageCount = (fa.regions.map FrameRegionMap.getFreePageCount).sum := by
  unfold getFreePageCount
  rw [← List.foldl_map, List.sum_eq_foldl]

variable {fa fa' : FrameAllocator} {ms : List (Nat × Nat)} {held : List Nat} {pre post : List FrameRegionMap}
  {r r' : FrameRegionMap}

variable {p : Nat} {ps : List Nat}

/-- No other region contains an address of `r`. -/
theorem Inv.not_contains_other (hinv : fa.Inv ms held) (hsplit : fa.regions = pre ++ r :: post)
    {q : FrameRegionMap} (hq : q ∈ pre ++ post) (hp : q.Contains p) : ¬ r.Contains p := by
  have hdisj := hinv.disjoint
  rw [hsplit, List.pairwise_append, List.pairwise_cons] at hdisj
  obtain ⟨-, ⟨hpost, -⟩, hpre⟩ := hdisj
  rcases List.mem_append.mp hq with hq | hq
  · exact hpre q hq r (by simp) p hp
  · exact fun hr => hpost q hq p hr hp

/-- Inside region `r`, the held frames are exactly those whose bit is set. -/
theorem Inv.mem_held_in (hinv : fa.Inv ms held) (hsplit : fa.regions = pre ++ r :: post)
    (hp : r.Contains p) :
    p ∈ held ↔ ∃ i, i < r.frames ∧ getBit r.bits i = true ∧ p = r.addr i := by
  rw [hinv.mem_held]
  constructor
  · rintro ⟨q, hq, i, hi, hbit, rfl⟩
    rw [hsplit] at hq
    by_cases hqr : q = r
    · subst hqr
      exact ⟨i, hi, hbit, rfl⟩
    have hother : q ∈ pre ++ post := by
      simp only [List.mem_append, List.mem_cons] at hq ⊢
      tauto
    have hwf : q.WF := hinv.wf q (by rw [hsplit]; exact hq)
    exact absurd hp (hinv.not_contains_other hsplit hother (hwf.contains_addr hi))
  · rintro ⟨i, hi, hbit, rfl⟩
    exact ⟨r, by rw [hsplit]; simp, i, hi, hbit, rfl⟩

section Replace

variable (hinv : fa.Inv ms held) (hsplit : fa.regions = pre ++ r :: post)
  (hstart : r'.paddr = r.paddr) (hend : r'.paddrEnd = r.paddrEnd)

include hsplit in
theorem mem_regions_of_mem_rest : ∀ q ∈ pre ++ post, q ∈ fa.regions := by
  intro q hq
  rw [hsplit]
  simp only [List.mem_append, List.mem_cons] at hq ⊢
  tauto

include hinv hsplit hstart hend

theorem Inv.disjoint_replace :
    (pre ++ r' :: post).Pairwise (fun r q => ∀ p, r.Contains p → ¬ q.Contains p) := by
  have hcontains : r'.Contains = r.Contains := by
    unfold FrameRegionMap.Contains
    rw [hstart, hend]
  have hdisj := hinv.disjoint
  rw [hsplit, List.pairwise_append, List.pairwise_cons] at hdisj
  obtain ⟨hp, ⟨hpost, hposts⟩, hpre⟩ := hdisj
  rw [List.pairwise_append, List.pairwise_cons, hcontains]
  refine ⟨hp, ⟨hpost, hposts⟩, ?_⟩
  intro q hq q' hq' p hqp
  rcases List.mem_cons.mp hq' with rfl | hq'
  · rw [hcontains]
    exact hpre q hq r (by simp) p hqp
  · exact hpre q hq q' (by simp [hq']) p hqp

/-- The frames with a set bit after the change: those outside the region as before, and the set
bits of `r'`. -/
theorem Inv.set_bits_replace (p : Nat) :
    (∃ q ∈ pre ++ r' :: post, ∃ i, i < q.frames ∧ getBit q.bits i = true ∧ p = q.addr i)
      ↔ (p ∈ held ∧ ¬ r.Contains p) ∨
        ∃ i, i < r.frames ∧ getBit r'.bits i = true ∧ p = r.addr i := by
  have hframes : r'.frames = r.frames := by
    unfold FrameRegionMap.frames
    rw [hstart, hend]
  have haddr : ∀ i, r'.addr i = r.addr i := by
    intro i
    unfold FrameRegionMap.addr
    rw [hstart]
  have hother := mem_regions_of_mem_rest hsplit
  constructor
  · rintro ⟨q, hq, i, hi, hbit, rfl⟩
    by_cases hqr : q ∈ pre ++ post
    · have hwf := hinv.wf q (hother q hqr)
      refine Or.inl ⟨(hinv.mem_held _).mpr ⟨q, hother q hqr, i, hi, hbit, rfl⟩, ?_⟩
      exact hinv.not_contains_other hsplit hqr (hwf.contains_addr hi)
    · have hq' : q = r' := by
        simp only [List.mem_append, List.mem_cons] at hq hqr
        tauto
      subst hq'
      exact Or.inr ⟨i, by rw [← hframes]; exact hi, hbit, haddr i⟩
  · rintro (⟨hp, hnot⟩ | ⟨i, hi, hbit, rfl⟩)
    · obtain ⟨q, hq, i, hi, hbit, rfl⟩ := (hinv.mem_held p).mp hp
      have hwf := hinv.wf q hq
      refine ⟨q, ?_, i, hi, hbit, rfl⟩
      rw [hsplit] at hq
      have hqr : q ≠ r := fun h => hnot (h ▸ hwf.contains_addr hi)
      simp only [List.mem_append, List.mem_cons] at hq ⊢
      tauto
    · exact ⟨r', by simp, i, by rw [hframes]; exact hi, hbit, (haddr i).symm⟩

/-- **One region changed.** If `r'` replaces `r` with the same bounds, and the new held list
keeps the frames outside the region and holds exactly the set bits of `r'` inside it, the
invariant carries over. -/
theorem Inv.replace (hsplit' : fa'.regions = pre ++ r' :: post) (hwf' : r'.WF) {held' : List Nat}
    (hnodup' : held'.Nodup)
    (hmem' : ∀ p, p ∈ held' ↔ (p ∈ held ∧ ¬ r.Contains p) ∨
      ∃ i, i < r.frames ∧ getBit r'.bits i = true ∧ p = r.addr i)
    (hcount' : r'.getFreePageCount + held'.length = r.getFreePageCount + held.length) :
    fa'.Inv ms held' := by
  refine ⟨?_, ?_, ?_, hnodup', ?_, ?_⟩
  · rw [← hinv.bounds]
    unfold FrameAllocator.bounds
    rw [hsplit, hsplit']
    simp [hstart, hend]
  · intro q hq
    rw [hsplit'] at hq
    by_cases hrest : q ∈ pre ++ post
    · exact hinv.wf q (mem_regions_of_mem_rest hsplit q hrest)
    have hqr : q = r' := by
      simp only [List.mem_append, List.mem_cons] at hq hrest
      tauto
    rw [hqr]
    exact hwf'
  · rw [hsplit']
    exact hinv.disjoint_replace hsplit hstart hend
  · intro p
    rw [hmem', hsplit']
    exact (hinv.set_bits_replace hsplit hstart hend p).symm
  · have hcount := hinv.count
    unfold total FrameRegionMap.frames at hcount ⊢
    rw [getFreePageCount_eq_sum] at hcount ⊢
    rw [hsplit] at hcount
    rw [hsplit']
    simp only [List.map_append, List.map_cons, List.sum_append, List.sum_cons] at hcount ⊢
    rw [hstart, hend]
    omega

end Replace

/-- A served request: the returned addresses join the held frames. -/
theorem Inv.taken (hinv : fa.Inv ms held) (hsplit : fa.regions = pre ++ r :: post)
    (hsplit' : fa'.regions = pre ++ r' :: post) {idxs : List Nat}
    (htaken : r.Taken idxs ps r') : fa'.Inv ms (ps ++ held) := by
  have hwf : r.WF := hinv.wf r (by rw [hsplit]; simp)
  have hps : ∀ p, p ∈ ps ↔ ∃ i ∈ idxs, p = r.addr i := by
    intro p
    rw [htaken.addrs, List.mem_map]
    exact ⟨fun ⟨i, hi, h⟩ => ⟨i, hi, h.symm⟩, fun ⟨i, hi, h⟩ => ⟨i, hi, h.symm⟩⟩
  have hin : ∀ i ∈ idxs, r.Contains (r.addr i) := fun i hi =>
    hwf.contains_addr (htaken.free i hi).1
  refine hinv.replace hsplit (by rw [htaken.result]) (by rw [htaken.result]) hsplit'
    (htaken.wf hwf) ?_ ?_ ?_
  · rw [List.nodup_append']
    refine ⟨?_, hinv.nodup, ?_⟩
    · rw [htaken.addrs]
      exact htaken.nodup.map FrameRegionMap.addr_injective
    -- a held frame of the region has its bit set, a taken one had it clear
    intro p hp hheld
    obtain ⟨i, hi, rfl⟩ := (hps p).mp hp
    obtain ⟨j, -, hbit, haddr⟩ := (hinv.mem_held_in hsplit (hin i hi)).mp hheld
    rw [← FrameRegionMap.addr_injective haddr, (htaken.free i hi).2] at hbit
    exact Bool.noConfusion hbit
  · intro p
    rw [List.mem_append, hps]
    constructor
    · rintro (⟨i, hi, rfl⟩ | hp)
      · refine Or.inr ⟨i, (htaken.free i hi).1, ?_, rfl⟩
        rw [htaken.getBit hwf]
        simp [hi]
      · by_cases hc : r.Contains p
        · obtain ⟨i, hi, hbit, rfl⟩ := (hinv.mem_held_in hsplit hc).mp hp
          refine Or.inr ⟨i, hi, ?_, rfl⟩
          rw [htaken.getBit hwf, hbit, Bool.or_true]
        · exact Or.inl ⟨hp, hc⟩
    · rintro (⟨hp, -⟩ | ⟨i, hi, hbit, rfl⟩)
      · exact Or.inr hp
      · rw [htaken.getBit hwf, Bool.or_eq_true, decide_eq_true_eq] at hbit
        rcases hbit with hmem | hbit
        · exact Or.inl ⟨i, hmem, rfl⟩
        · refine Or.inr ((hinv.mem_held_in hsplit (hwf.contains_addr hi)).mpr ⟨i, hi, hbit, rfl⟩)
  · have hcount := htaken.count hwf
    rw [List.length_append]
    omega

theorem Inv.alloc (hinv : fa.Inv ms held) (h : fa.alloc = some (p, fa')) :
    fa'.Inv ms (p :: held) := by
  unfold FrameAllocator.alloc at h
  obtain ⟨⟨p', rs⟩, hfirst, heq⟩ := Option.map_eq_some_iff.mp h
  cases heq
  obtain ⟨pre, r, post, r', hsplit, hsplit', hr, -⟩ := firstRegion_eq_some hfirst
  obtain ⟨i, htaken⟩ := FrameRegionMap.alloc_taken (hinv.wf r (by rw [hsplit]; simp)) hr
  exact hinv.taken hsplit hsplit' htaken

theorem Inv.allocMuch (hinv : fa.Inv ms held) {pages : Nat}
    (h : fa.allocMuch pages = some (ps, fa')) : fa'.Inv ms (ps ++ held) := by
  unfold FrameAllocator.allocMuch at h
  obtain ⟨⟨ps', rs⟩, hfirst, heq⟩ := Option.map_eq_some_iff.mp h
  cases heq
  obtain ⟨pre, r, post, r', hsplit, hsplit', hr, -⟩ := firstRegion_eq_some hfirst
  obtain ⟨start, -, htaken⟩ := FrameRegionMap.allocMuch_taken (hinv.wf r (by rw [hsplit]; simp)) hr
  exact hinv.taken hsplit hsplit' htaken

/-- The search of `dealloc` ends at the region around the address, if there is one. -/
theorem deallocIn_eq : ∀ {rs : List FrameRegionMap}, (∃ q ∈ rs, q.Contains p) →
    ∃ pre r post, rs = pre ++ r :: post ∧ r.Contains p ∧
      deallocIn p rs = pre ++ r.dealloc p :: post
  | [], h => by obtain ⟨q, hq, -⟩ := h; simp at hq
  | q :: rs, h => by
      unfold deallocIn
      by_cases hc : p ≥ q.paddr ∧ p < q.paddrEnd
      · rw [if_pos hc]
        exact ⟨[], q, rs, rfl, hc, rfl⟩
      rw [if_neg hc]
      have hrest : ∃ q ∈ rs, q.Contains p := by
        obtain ⟨q', hq', hc'⟩ := h
        rcases List.mem_cons.mp hq' with rfl | hq'
        · exact absurd hc' hc
        · exact ⟨q', hq', hc'⟩
      obtain ⟨pre, r, post, hrs, hr, heq⟩ := deallocIn_eq hrest
      exact ⟨q :: pre, r, post, by rw [hrs]; rfl, hr, by rw [heq]; rfl⟩

/-- A held frame returned: exactly it leaves the held frames. -/
theorem Inv.dealloc (hinv : fa.Inv ms held) (hp : p ∈ held) :
    (fa.dealloc p).Inv ms (held.erase p) := by
  have hsome : ∃ q ∈ fa.regions, q.Contains p := by
    obtain ⟨q, hq, i, hi, -, rfl⟩ := (hinv.mem_held p).mp hp
    exact ⟨q, hq, (hinv.wf q hq).contains_addr hi⟩
  obtain ⟨pre, r, post, hsplit, hc, heq⟩ := deallocIn_eq hsome
  have hwf : r.WF := hinv.wf r (by rw [hsplit]; simp)
  obtain ⟨i, hi, hbit, rfl⟩ := (hinv.mem_held_in hsplit hc).mp hp
  have hlt : i < 64 * r.bits.length := Nat.lt_of_lt_of_le hi hwf.frames_le
  have hdealloc := FrameRegionMap.dealloc_addr r i
  have hsplit' : (fa.dealloc (r.addr i)).regions = pre ++ r.dealloc (r.addr i) :: post := heq
  refine hinv.replace hsplit (show (r.dealloc (r.addr i)).paddr = r.paddr from rfl) rfl hsplit'
    (FrameRegionMap.dealloc_wf hwf hi) (hinv.nodup.erase _) ?_ ?_
  · intro q
    rw [hinv.nodup.mem_erase_iff, hdealloc]
    simp only [getBit_setBit r.bits false hlt]
    constructor
    · rintro ⟨hne, hq⟩
      by_cases hqc : r.Contains q
      · obtain ⟨j, hj, hjbit, rfl⟩ := (hinv.mem_held_in hsplit hqc).mp hq
        have hji : j ≠ i := fun h => hne (by rw [h])
        exact Or.inr ⟨j, hj, by rw [if_neg hji]; exact hjbit, rfl⟩
      · exact Or.inl ⟨hq, hqc⟩
    · rintro (⟨hq, hqc⟩ | ⟨j, hj, hjbit, rfl⟩)
      · exact ⟨fun h => hqc (h ▸ hc), hq⟩
      · have hji : j ≠ i := by
          intro h
          rw [if_pos h] at hjbit
          exact Bool.noConfusion hjbit
        rw [if_neg hji] at hjbit
        refine ⟨fun h => hji (FrameRegionMap.addr_injective h), ?_⟩
        exact (hinv.mem_held_in hsplit (hwf.contains_addr hj)).mpr ⟨j, hj, hjbit, rfl⟩
  · rw [FrameRegionMap.dealloc_count hwf hi hbit, List.length_erase_of_mem hp]
    have hpos : 0 < held.length := List.length_pos_of_mem hp
    omega

end FrameAllocator

/-! ## Runs of the allocator

The regions are added first; then frames are requested and returned in any order, a frame
being returned only while it is held. -/

/-- A page-aligned memory region, as `add_frame_map` registers it. -/
structure MemRegion where
  start : Nat
  stop : Nat
  start_aligned : start % pageSize = 0
  stop_aligned : stop % pageSize = 0
  le : start ≤ stop

def MemRegion.Disjoint (a b : MemRegion) : Prop :=
  ∀ p, a.start ≤ p ∧ p < a.stop → ¬ (b.start ≤ p ∧ p < b.stop)

def FrameAllocator.ofRegions (regions : List MemRegion) : FrameAllocator :=
  regions.foldl (fun fa m => fa.addMemoryRegion m.start m.stop) .new

theorem FrameAllocator.regions_ofRegions (regions : List MemRegion) :
    (FrameAllocator.ofRegions regions).regions
      = regions.map (fun m => FrameRegionMap.new m.start m.stop) := by
  have hfold : ∀ (ms : List MemRegion) (fa : FrameAllocator),
      (ms.foldl (fun fa m => fa.addMemoryRegion m.start m.stop) fa).regions
        = fa.regions ++ ms.map (fun m => FrameRegionMap.new m.start m.stop) := by
    intro ms
    induction ms with
    | nil => simp
    | cons m ms ih =>
      intro fa
      rw [List.foldl_cons, ih]
      simp [FrameAllocator.addMemoryRegion]
  have h := hfold regions .new
  rwa [show FrameAllocator.new.regions = [] from rfl, List.nil_append] at h

theorem FrameAllocator.inv_ofRegions {regions : List MemRegion}
    (hdisj : regions.Pairwise MemRegion.Disjoint) :
    (FrameAllocator.ofRegions regions).Inv (regions.map (fun m => (m.start, m.stop))) [] := by
  have hregions := regions_ofRegions regions
  refine ⟨?_, ?_, ?_, List.nodup_nil, ?_, ?_⟩
  · unfold bounds
    rw [hregions, List.map_map]
    rfl
  · intro r hr
    rw [hregions] at hr
    obtain ⟨m, -, rfl⟩ := List.mem_map.mp hr
    exact FrameRegionMap.new_wf m.start_aligned m.stop_aligned m.le
  · rw [hregions, List.pairwise_map]
    exact hdisj
  · -- no bit of a frame is set in a new region
    intro p
    rw [hregions]
    simp only [List.not_mem_nil, false_iff]
    rintro ⟨r, hr, i, hi, hbit, -⟩
    obtain ⟨m, -, rfl⟩ := List.mem_map.mp hr
    have hwf := FrameRegionMap.new_wf m.start_aligned m.stop_aligned m.le
    rw [FrameRegionMap.getBit_new (Nat.lt_of_lt_of_le hi hwf.frames_le)] at hbit
    rw [FrameRegionMap.new_frames] at hi
    exact absurd (of_decide_eq_true hbit) (by omega)
  · rw [getFreePageCount_eq_sum]
    unfold total
    rw [hregions, List.map_map, List.map_map, List.length_nil, Nat.add_zero]
    congr 1
    apply List.map_congr_left
    intro m _
    exact FrameRegionMap.getFreePageCount_new m.start m.stop

/-- The allocator together with the frames its callers hold. -/
structure FrameState where
  fa : FrameAllocator
  held : List Nat
  deriving DecidableEq

inductive FrameCall where
  | alloc
  | allocMuch (pages : Nat)
  | dealloc (paddr : Nat)
  deriving DecidableEq

/-- The state after a call; a refused request changes nothing. -/
def FrameState.call (s : FrameState) : FrameCall → FrameState
  | .alloc =>
    match s.fa.alloc with
    | some (p, fa) => ⟨fa, p :: s.held⟩
    | none => s
  | .allocMuch pages =>
    match s.fa.allocMuch pages with
    | some (ps, fa) => ⟨fa, ps ++ s.held⟩
    | none => s
  | .dealloc paddr => ⟨s.fa.dealloc paddr, s.held.erase paddr⟩

/-- Callers return only frames they hold. -/
def FrameCall.Allowed (s : FrameState) : FrameCall → Prop
  | .dealloc paddr => paddr ∈ s.held
  | _ => True

def FrameStep (s : FrameState) (c : FrameCall) (t : FrameState) : Prop :=
  c.Allowed s ∧ t = s.call c

theorem FrameStep.inv {ms : List (Nat × Nat)} {s t : FrameState} {c : FrameCall}
    (hinv : s.fa.Inv ms s.held) (hstep : FrameStep s c t) : t.fa.Inv ms t.held := by
  obtain ⟨hallowed, rfl⟩ := hstep
  cases c with
  | alloc =>
      unfold FrameState.call
      cases h : s.fa.alloc with
      | none => exact hinv
      | some res => exact hinv.alloc h
  | allocMuch pages =>
      unfold FrameState.call
      cases h : s.fa.allocMuch pages with
      | none => simpa [h] using hinv
      | some res => simpa [h] using hinv.allocMuch h
  | dealloc paddr => exact hinv.dealloc hallowed

namespace FrameAllocator

variable {fa : FrameAllocator} {regions : List MemRegion} {held : List Nat}

theorem Inv.total_eq (hinv : fa.Inv (regions.map (fun m => (m.start, m.stop))) held) :
    fa.total = (regions.map (fun m => (m.stop - m.start) / pageSize)).sum := by
  have hmap : fa.regions.map FrameRegionMap.frames
      = fa.bounds.map (fun b => (b.2 - b.1) / pageSize) := by
    unfold FrameAllocator.bounds
    rw [List.map_map]
    rfl
  unfold FrameAllocator.total
  rw [hmap, hinv.bounds, List.map_map]
  rfl

/-- A held frame lies in a region that was registered. -/
theorem Inv.held_in_region (hinv : fa.Inv (regions.map (fun m => (m.start, m.stop))) held)
    {p : Nat} (hp : p ∈ held) :
    p % pageSize = 0 ∧ ∃ m ∈ regions, m.start ≤ p ∧ p + pageSize ≤ m.stop := by
  obtain ⟨r, hr, i, hi, -, rfl⟩ := (hinv.mem_held p).mp hp
  have hwf := hinv.wf r hr
  refine ⟨hwf.addr_aligned i, ?_⟩
  have hbound : (r.paddr, r.paddrEnd) ∈ fa.bounds :=
    List.mem_map_of_mem (f := fun r : FrameRegionMap => (r.paddr, r.paddrEnd)) hr
  rw [hinv.bounds] at hbound
  obtain ⟨m, hm, heq⟩ := List.mem_map.mp hbound
  simp only [Prod.mk.injEq] at heq
  have hend := hwf.paddrEnd_eq
  have hmul : (i + 1) * pageSize ≤ r.frames * pageSize := Nat.mul_le_mul_right _ hi
  rw [Nat.succ_mul] at hmul
  refine ⟨m, hm, ?_, ?_⟩
  · unfold FrameRegionMap.addr
    omega
  · unfold FrameRegionMap.addr
    omega

theorem Inv.getBit_iff {ms : List (Nat × Nat)} (hinv : fa.Inv ms held) {r : FrameRegionMap}
    (hr : r ∈ fa.regions) {i : Nat} (hi : i < r.frames) :
    getBit r.bits i = true ↔ r.addr i ∈ held := by
  obtain ⟨pre, post, hsplit⟩ := List.append_of_mem hr
  rw [hinv.mem_held_in hsplit ((hinv.wf r hr).contains_addr hi)]
  constructor
  · exact fun hbit => ⟨i, hi, hbit, rfl⟩
  · rintro ⟨j, -, hbit, haddr⟩
    rw [FrameRegionMap.addr_injective haddr]
    exact hbit

end FrameAllocator

/-- **The frame allocator over whole runs.** However `alloc`, `alloc_much` and `dealloc` of
held frames follow each other, the held frames are distinct, page-aligned and inside a
registered region, a frame's bit is set exactly while it is held, the padding bits stay set,
and the free-page count is the number of frames that are not held. -/
theorem frameAllocator_run_sound (regions : List MemRegion)
    (hdisj : regions.Pairwise MemRegion.Disjoint) {calls : List FrameCall} {s : FrameState}
    (hrun : Run FrameStep ⟨.ofRegions regions, []⟩ calls s) :
    s.fa.bounds = regions.map (fun m => (m.start, m.stop))
    ∧ s.held.Nodup
    ∧ (∀ p ∈ s.held, p % pageSize = 0 ∧ ∃ m ∈ regions, m.start ≤ p ∧ p + pageSize ≤ m.stop)
    ∧ (∀ r ∈ s.fa.regions, ∀ i, i < r.frames →
        (getBit r.bits i = true ↔ r.paddr + i * pageSize ∈ s.held))
    ∧ (∀ r ∈ s.fa.regions, ∀ i, r.frames ≤ i → i < 64 * r.bits.length → getBit r.bits i = true)
    ∧ s.held.length ≤ (regions.map (fun m => (m.stop - m.start) / pageSize)).sum
    ∧ s.fa.getFreePageCount
        = (regions.map (fun m => (m.stop - m.start) / pageSize)).sum - s.held.length := by
  have hinv : s.fa.Inv (regions.map (fun m => (m.start, m.stop))) s.held :=
    hrun.invariant (I := fun s => s.fa.Inv (regions.map (fun m => (m.start, m.stop))) s.held)
      (fun _ _ _ => FrameStep.inv) (FrameAllocator.inv_ofRegions hdisj)
  have hcount := hinv.count
  rw [hinv.total_eq] at hcount
  refine ⟨hinv.bounds, hinv.nodup, fun p hp => hinv.held_in_region hp,
    fun r hr i hi => hinv.getBit_iff hr hi, ?_, by omega, by omega⟩
  exact fun r hr i hlo hhi => (hinv.wf r hr).padding i hlo hhi

/-- A region of three frames: one frame alone, two in a row, and the first one returned. -/
theorem frameAllocator_run_sound_three_frames :
    ∃ s : FrameState,
      Run FrameStep ⟨.ofRegions [⟨0x80000000, 0x80003000, rfl, rfl, by decide⟩], []⟩
        [.alloc, .allocMuch 2, .dealloc 0x80000000] s
      ∧ s.held = [0x80001000, 0x80002000]
      ∧ s.fa.getFreePageCount = 3 - 2 := by
  have hrun : Run FrameStep ⟨.ofRegions [⟨0x80000000, 0x80003000, rfl, rfl, by decide⟩], []⟩
      [.alloc, .allocMuch 2, .dealloc 0x80000000] _ :=
    .cons ⟨trivial, rfl⟩ (.cons ⟨trivial, rfl⟩ (.cons ⟨by show _ ∈ _; decide +kernel, rfl⟩ (.nil _)))
  obtain ⟨-, -, -, -, -, -, hcount⟩ :=
    frameAllocator_run_sound _ (List.pairwise_singleton _ _) hrun
  refine ⟨_, hrun, by decide +kernel, hcount.trans (by decide +kernel)⟩

end MonkeyOS
