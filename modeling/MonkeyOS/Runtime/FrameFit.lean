import Mathlib.Order.Interval.Finset.Nat
import MonkeyOS.Runtime.FrameRun

/-!
# MonkeyOS — `alloc` and `alloc_much` are exact first-fit

`MonkeyOS/Runtime/Frame.lean` shows that a served request takes free frames. This module shows the
other half: which frames, and that no request is refused that could have been served.

`alloc_much` slides a window over the bit positions and restarts it after each used frame. Its
invariant is about the runs it has left behind: none of them starts before the window. The two early
exits compare with the size of the region and with its free-page count, and a run of `n` free frames
rules both out.

* `FrameRegionMap.scan_lowest` — the window stops at the lowest run, or has seen that there is none;
* `FrameRegionMap.allocMuch_fits`, `FrameRegionMap.alloc_fits` — one region;
* `FrameAllocator.Serves` — what a request does to all of them;
* `frameAllocator_first_fit` — in every reachable state.
-/

namespace MonkeyOS

open Lib

namespace FrameRegionMap

/-- The frames at the positions `i, …, i + n - 1` are frames of the region, and free. -/
def FreeRun (r : FrameRegionMap) (n i : Nat) : Prop :=
  i + n ≤ r.frames ∧ ∀ x, i ≤ x → x < i + n → getBit r.bits x = false

/-- `r'` is `r` with exactly the frames at `i, …, i + n - 1` marked as used. -/
structure Marked (r : FrameRegionMap) (n i : Nat) (r' : FrameRegionMap) : Prop where
  paddr : r'.paddr = r.paddr
  paddrEnd : r'.paddrEnd = r.paddrEnd
  bits : ∀ x, getBit r'.bits x = (decide (i ≤ x ∧ x < i + n) || getBit r.bits x)

/-- A request for `n` frames served by this region with its lowest run. -/
structure Fits (r : FrameRegionMap) (n : Nat) (ps : List Nat) (r' : FrameRegionMap) (i : Nat) :
    Prop where
  run : r.FreeRun n i
  lowest : ∀ j, r.FreeRun n j → i ≤ j
  addrs : ps = (List.range' i n).map r.addr
  marked : r.Marked n i r'

variable {r r' : FrameRegionMap} {n : Nat} {ps : List Nat}

variable {p j i : Nat} {bits : List (BitVec 64)}

/-- The effect of a served request at consecutive positions. -/
theorem Taken.fits (hwf : r.WF) (htaken : Taken r (List.range' i n) ps r') (hn : 1 ≤ n)
    (hlowest : ∀ j, r.FreeRun n j → i ≤ j) : r.Fits n ps r' i := by
  refine ⟨⟨?_, fun x hlo hhi => ?_⟩, hlowest, htaken.addrs, ?_, ?_, fun x => ?_⟩
  · -- the last frame of the run is a frame of the region
    have hlast := (htaken.free (i + (n - 1)) (List.mem_range'_1.mpr ⟨by omega, by omega⟩)).1
    omega
  · exact (htaken.free x (List.mem_range'_1.mpr ⟨hlo, hhi⟩)).2
  · rw [htaken.result]
  · rw [htaken.result]
  · rw [htaken.getBit hwf]
    simp only [List.mem_range'_1]

/-! ## The sliding window -/

/-- The window invariant of `scan`, for the runs: none starts before the window, and the window is
still too short. A used frame at `i` ends every run that would start inside the window, because a
run that ends before `i` would be no longer than the window. -/
theorem scan_lowest :
    ∀ (remaining i start count : Nat), start + count = i → count < n →
      (∀ j, (∀ x, j ≤ x → x < j + n → getBit bits x = false) → start ≤ j) →
      ∀ j, (∀ x, j ≤ x → x < j + n → getBit bits x = false) → j + n ≤ i + remaining →
        ∃ s, scan bits n remaining i start count = some s ∧ s ≤ j
  | 0, i, start, count, hwindow, hshort, hbefore, j, hrun, hend => by
      have hlo := hbefore j hrun
      omega
  | remaining + 1, i, start, count, hwindow, hshort, hbefore, j, hrun, hend => by
      unfold scan
      by_cases hbit : getBit bits i = true
      · rw [if_pos hbit]
        apply scan_lowest remaining (i + 1) (i + 1) 0 rfl (by omega) _ j hrun (by omega)
        intro k hk
        have hlo := hbefore k hk
        by_contra hle
        -- the run at `k` starts in the window, and is long enough to have reached the used frame
        rw [hk i (by omega) (by omega)] at hbit
        exact Bool.noConfusion hbit
      · rw [if_neg hbit]
        by_cases hfull : count + 1 ≥ n
        · rw [if_pos hfull]
          exact ⟨start, rfl, hbefore j hrun⟩
        rw [if_neg hfull]
        exact scan_lowest remaining (i + 1) start (count + 1) (by omega) (by omega) hbefore j hrun
          (by omega)

/-- A run of free frames is counted by `get_free_page_count`. -/
theorem FreeRun.le_getFreePageCount (hwf : r.WF) (hrun : r.FreeRun n i) :
    n ≤ r.getFreePageCount := by
  obtain ⟨hend, hfree⟩ := hrun
  have hsub : Finset.Ico i (i + n) ⊆ clearBits r.bits := by
    intro x hx
    rw [Finset.mem_Ico] at hx
    have hframes := hwf.frames_le
    exact mem_clearBits.mpr ⟨by omega, hfree x hx.1 hx.2⟩
  calc n = (Finset.Ico i (i + n)).card := by rw [Nat.card_Ico]; omega
    _ ≤ (clearBits r.bits).card := Finset.card_le_card hsub
    _ = r.getFreePageCount := (getFreePageCount_eq r).symm

/-- No request that a region could serve is refused, and its window stops at the lowest run. -/
theorem scan_of_freeRun (hn : 1 ≤ n) (hrun : r.FreeRun n j) :
    ∃ s, scan r.bits n r.frames 0 0 0 = some s ∧ s ≤ j :=
  scan_lowest r.frames 0 0 0 rfl hn (fun k _ => Nat.zero_le k) j hrun.2 (by
    have hend := hrun.1
    omega)

theorem allocMuch_ne_none (hwf : r.WF) (hn : 1 ≤ n) (hrun : r.FreeRun n j) :
    r.allocMuch n ≠ none := by
  have hend := hrun.1
  obtain ⟨s, hscan, -⟩ := scan_of_freeRun hn hrun
  unfold allocMuch
  dsimp only
  -- neither early exit is taken
  rw [hwf.totalPages_eq, if_neg (by omega), if_neg (Nat.not_lt.mpr (hrun.le_getFreePageCount hwf)),
    hscan]
  simp

theorem allocMuch_fits (hwf : r.WF) (hn : 1 ≤ n) (h : r.allocMuch n = some (ps, r')) :
    ∃ i, r.Fits n ps r' i := by
  obtain ⟨start, hscan, htaken⟩ := allocMuch_taken hwf h
  refine ⟨start, htaken.fits hwf hn (fun j hrun => ?_)⟩
  obtain ⟨s, hscan', hle⟩ := scan_of_freeRun hn hrun
  rw [hscan] at hscan'
  cases hscan'
  exact hle

/-! ## Single frames -/

theorem exists_clear_of_ne_allOnes {w : BitVec 64} (h : w ≠ BitVec.allOnes 64) :
    ∃ b, b < 64 ∧ w.getLsbD b = false := by
  by_contra hnone
  apply h
  apply BitVec.eq_of_getLsbD_eq
  intro b hb
  rw [BitVec.getLsbD_allOnes, decide_eq_true hb]
  by_contra hclear
  exact hnone ⟨b, hb, by simpa using hclear⟩

/-- Every position of a full word is used. -/
theorem getBit_of_full {x : Nat}
    (h : (bits.getD (x / 64) 0#64 != BitVec.allOnes 64) = false) : getBit bits x = true := by
  unfold getBit
  rw [bne_eq_false_iff_eq.mp h, BitVec.getLsbD_allOnes]
  exact decide_eq_true (Nat.mod_lt x (by decide))

/-- The first word that is not full, and its first clear bit: every position before is used. -/
theorem alloc_lowest (h : r.alloc = some (p, r')) (hp : p = r.addr i) :
    ∀ j, getBit r.bits j = false → i ≤ j := by
  unfold alloc at h
  split at h
  · rename_i index hindex
    rw [List.find?_range_eq_some] at hindex
    unfold allocInPos at h
    split at h
    · rename_i bitIndex hbit
      rw [List.find?_range_eq_some] at hbit
      simp only [Option.some.injEq, Prod.mk.injEq] at h
      have hi : i = index * 64 + bitIndex := addr_injective (hp.symm.trans h.1.symm)
      intro j hj
      by_contra hlt
      by_cases hword : j / 64 = index
      · -- the same word: the bit was looked at before
        have hset := hbit.2.2 (j % 64) (by omega)
        unfold getBit at hj
        rw [hword] at hj
        rw [hj] at hset
        exact Bool.noConfusion hset
      · -- an earlier word: it is full
        have hb := List.mem_range.mp hbit.2.1
        have hfull := hindex.2.2 (j / 64) (by omega)
        rw [getBit_of_full (by simpa using hfull)] at hj
        exact Bool.noConfusion hj
    · cases h
  · cases h

theorem alloc_ne_none (hwf : r.WF) (hi : i < r.frames) (hclear : getBit r.bits i = false) :
    r.alloc ≠ none := by
  unfold alloc
  split
  · rename_i index hindex
    -- a word that is not full has a clear bit
    obtain ⟨b, hb, hbit⟩ := exists_clear_of_ne_allOnes
      (bne_iff_ne.mp (List.find?_range_eq_some.mp hindex).1)
    unfold allocInPos
    split
    · simp
    rename_i hnone
    have hset := List.find?_eq_none.mp hnone b (List.mem_range.mpr hb)
    rw [hbit] at hset
    exact absurd rfl hset
  · rename_i hnone
    have hframes := hwf.frames_le
    have hfull := List.find?_eq_none.mp hnone (i / 64) (List.mem_range.mpr (by omega))
    rw [getBit_of_full (by simpa using hfull)] at hclear
    exact Bool.noConfusion hclear

theorem FreeRun.clear (hrun : r.FreeRun 1 i) : i < r.frames ∧ getBit r.bits i = false :=
  ⟨hrun.1, hrun.2 i (Nat.le_refl i) (Nat.lt_succ_self i)⟩

theorem alloc_fits (hwf : r.WF) (h : r.alloc = some (p, r')) :
    ∃ i, r.Fits 1 [p] r' i := by
  obtain ⟨i, htaken⟩ := alloc_taken hwf h
  have hp : p = r.addr i := by
    have haddrs := htaken.addrs
    simpa using haddrs
  exact ⟨i, Taken.fits (n := 1) hwf htaken (Nat.le_refl 1)
    (fun j hrun => alloc_lowest h hp j hrun.clear.2)⟩

end FrameRegionMap

/-! ## All regions -/

/-- A request for `n` frames served: by the lowest run of the first region that has one. -/
def FrameAllocator.Serves (fa : FrameAllocator) (n : Nat) (ps : List Nat) (fa' : FrameAllocator) :
    Prop :=
  ∃ pre r post r' i, fa.regions = pre ++ r :: post ∧ fa'.regions = pre ++ r' :: post
    ∧ (∀ q ∈ pre, ∀ j, ¬ q.FreeRun n j) ∧ r.Fits n ps r' i

/-- Some region has `n` consecutive free frames. -/
def FrameAllocator.HasRun (fa : FrameAllocator) (n : Nat) : Prop :=
  ∃ r ∈ fa.regions, ∃ i, r.FreeRun n i

/-- A request for `n` frames that ends with `res`: it is served exactly if it can be, and then by
the first fit. -/
structure FirstFit (fa : FrameAllocator) (n : Nat) (res : Option (List Nat × FrameAllocator)) :
    Prop where
  served_iff : res ≠ none ↔ fa.HasRun n
  serves : ∀ ps fa', res = some (ps, fa') → fa.Serves n ps fa'

namespace FrameAllocator

variable {fa : FrameAllocator} {n : Nat}

/-- Offering a request to the regions in order is first-fit, if each region serves it by its lowest
run and refuses it only when it has none. -/
theorem firstFit_of_regions {β : Type} (f : FrameRegionMap → Option (β × FrameRegionMap))
    (addrs : β → List Nat) (hrefuses : ∀ r ∈ fa.regions, ∀ i, r.FreeRun n i → f r ≠ none)
    (hfits : ∀ r ∈ fa.regions, ∀ b r', f r = some (b, r') → ∃ i, r.Fits n (addrs b) r' i) :
    FirstFit fa n ((firstRegion f fa.regions).map (fun (b, rs) => (addrs b, ⟨rs⟩))) := by
  cases hfirst : firstRegion f fa.regions with
  | none =>
    have hnone := firstRegion_eq_none hfirst
    refine ⟨iff_of_false (by simp) ?_, fun ps fa' h => by cases h⟩
    rintro ⟨r, hr, i, hrun⟩
    exact hrefuses r hr i hrun (hnone r hr)
  | some res =>
    obtain ⟨b, rs⟩ := res
    obtain ⟨pre, r, post, r', hsplit, hsplit', hserved, hpre⟩ := firstRegion_eq_some hfirst
    have hr : r ∈ fa.regions := by
      rw [hsplit]
      simp
    obtain ⟨i, hfit⟩ := hfits r hr b r' hserved
    refine ⟨iff_of_true (by simp) ⟨r, hr, i, hfit.run⟩, fun ps fa' h => ?_⟩
    cases h
    refine ⟨pre, r, post, r', i, hsplit, hsplit', fun q hq j hrun => ?_, hfit⟩
    exact hrefuses q (by rw [hsplit]; simp [hq]) j hrun (hpre q hq)

theorem allocMuch_firstFit (hwf : ∀ r ∈ fa.regions, r.WF) (hn : 1 ≤ n) :
    FirstFit fa n (fa.allocMuch n) :=
  firstFit_of_regions (·.allocMuch n) id
    (fun r hr _ hrun => FrameRegionMap.allocMuch_ne_none (hwf r hr) hn hrun)
    (fun r hr _ _ h => FrameRegionMap.allocMuch_fits (hwf r hr) hn h)

theorem alloc_firstFit (hwf : ∀ r ∈ fa.regions, r.WF) :
    FirstFit fa 1 (fa.alloc.map (fun (p, fa') => ([p], fa'))) := by
  unfold FrameAllocator.alloc
  rw [Option.map_map]
  apply firstFit_of_regions FrameRegionMap.alloc (fun p => [p])
  · intro r hr i hrun
    exact FrameRegionMap.alloc_ne_none (hwf r hr) hrun.clear.1 hrun.clear.2
  · intro r hr p r' h
    exact FrameRegionMap.alloc_fits (hwf r hr) h

end FrameAllocator

/-- **Allocation is exact first-fit.** In every reachable state, `alloc_much(n)` for `n ≥ 1` is
served exactly if some region has `n` consecutive free frames, and then by the lowest such run of the
first such region, of which exactly the frames are marked; and so is `alloc()` for one frame. A
refused request leaves the allocator as it was. -/
theorem frameAllocator_first_fit (regions : List MemRegion)
    (hdisj : regions.Pairwise MemRegion.Disjoint) {calls : List FrameCall} {s : FrameState}
    (hrun : Run FrameStep ⟨.ofRegions regions, []⟩ calls s) :
    (∀ n, 1 ≤ n → FirstFit s.fa n (s.fa.allocMuch n))
    ∧ (∀ n, s.fa.allocMuch n = none → s.call (.allocMuch n) = s)
    ∧ FirstFit s.fa 1 (s.fa.alloc.map (fun (p, fa') => ([p], fa')))
    ∧ (s.fa.alloc = none → s.call .alloc = s) := by
  have hinv : s.fa.Inv (regions.map (fun m => (m.start, m.stop))) s.held :=
    hrun.invariant (I := fun s => s.fa.Inv (regions.map (fun m => (m.start, m.stop))) s.held)
      (fun _ _ _ => FrameStep.inv) (FrameAllocator.inv_ofRegions hdisj)
  refine ⟨fun n hn => FrameAllocator.allocMuch_firstFit hinv.wf hn, fun n hnone => ?_,
    FrameAllocator.alloc_firstFit hinv.wf, fun hnone => ?_⟩
  · unfold FrameState.call
    simp only [hnone]
  · unfold FrameState.call
    simp only [hnone]

/-- Two regions, the first of three frames with the middle one taken: one frame comes from the
first, two from the second. -/
theorem frameAllocator_first_fit_two_regions :
    ∃ s : FrameState,
      Run FrameStep ⟨.ofRegions [⟨0x80000000, 0x80003000, rfl, rfl, by decide⟩,
          ⟨0x90000000, 0x90002000, rfl, rfl, by decide⟩], []⟩
        [.alloc, .alloc, .dealloc 0x80000000] s
      ∧ (s.fa.alloc.map Prod.fst = some 0x80000000)
      ∧ ((s.fa.allocMuch 2).map Prod.fst = some [0x90000000, 0x90001000])
      ∧ ¬ s.fa.HasRun 3 := by
  have hrun : Run FrameStep ⟨.ofRegions [⟨0x80000000, 0x80003000, rfl, rfl, by decide⟩,
      ⟨0x90000000, 0x90002000, rfl, rfl, by decide⟩], []⟩
      [.alloc, .alloc, .dealloc 0x80000000] _ :=
    .cons ⟨trivial, rfl⟩ (.cons ⟨trivial, rfl⟩ (.cons ⟨by show _ ∈ _; decide +kernel, rfl⟩ (.nil _)))
  have hdisj : [(⟨0x80000000, 0x80003000, rfl, rfl, by decide⟩ : MemRegion),
      ⟨0x90000000, 0x90002000, rfl, rfl, by decide⟩].Pairwise MemRegion.Disjoint := by
    simp only [List.pairwise_pair]
    intro p h1 h2
    simp only at h1 h2
    omega
  obtain ⟨hmuch, -⟩ := frameAllocator_first_fit _ hdisj hrun
  refine ⟨_, hrun, by decide +kernel, by decide +kernel, fun hhas => ?_⟩
  exact (hmuch 3 (by decide)).served_iff.mpr hhas (by decide +kernel)

end MonkeyOS
