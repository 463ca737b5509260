import MonkeyOS.Runtime.FrameFit
import MonkeyOS.Runtime.FrameZero

/-!
# MonkeyOS — DMA memory of the virtio drivers (`driver/kvirtio/src/virtio_impl.rs`)

`dma_alloc` puts the trackers of the frames it gets into one list, `VIRTIO_CONTAINER`, and `dma_dealloc`
removes from it those in a range. The range is of page numbers and is compared with byte addresses.

* `DmaSys.Inv` — the frames the allocator has given out are those of the list and those held elsewhere;
* `DmaSys.Exact` — the list has the frames of the live allocations, each once, so that just these and
  the ones held elsewhere are in use;
* `DmaSys.exact_dealloc_iff` — a `dma_dealloc` keeps this exactly if it is of the single frame at
  address 0;
* `dma_exact_iff` — so does a whole run, with the rest of the kernel taking and returning frames
  meanwhile.
-/

namespace MonkeyOS

open Lib

structure DmaSys where
  fa : FrameAllocator
  /-- the frames that the rest of the kernel holds -/
  held : List Nat
  /-- `VIRTIO_CONTAINER` -/
  container : List Nat
  /-- the allocations that have not been given back: their address and number of pages -/
  live : List (Nat × Nat)
  deriving DecidableEq

namespace DmaSys

/-- The frames of an allocation. -/
def framesOf (buffer : Nat × Nat) : List Nat :=
  (List.range buffer.2).map (fun i => buffer.1 + i * pageSize)

variable (s : DmaSys)

/-- `HalImpl::dma_alloc`; `none` is a panic, without memory or at `trackers[0]`. -/
def dmaAlloc (pages : Nat) : Option (Nat × DmaSys) :=
  match s.fa.allocMuch pages with
  | none => none
  | some ([], _) => none
  | some (paddr :: trackers, fa) =>
    some (paddr, { s with
      fa := fa
      container := s.container ++ paddr :: trackers
      live := (paddr, pages) :: s.live })

/-- The test of `retain`: `x` is the address of a frame, and the range is of page numbers. -/
def removes (paddr pages x : Nat) : Bool :=
  let phyPage := paddr >>> 12
  decide (phyPage ≤ x ∧ x < phyPage + pages)

/-- `HalImpl::dma_dealloc`: a tracker that is not retained is dropped and frees its frame. -/
def dmaDealloc (paddr pages : Nat) : DmaSys where
  fa := (s.container.filter (removes paddr pages)).foldl FrameAllocator.dealloc s.fa
  held := s.held
  container := s.container.filter (fun x => !removes paddr pages x)
  live := s.live.erase (paddr, pages)

/-- The rest of the kernel. -/
def other (call : FrameCall) : DmaSys :=
  let t := FrameState.call ⟨s.fa, s.held⟩ call
  { s with fa := t.fa, held := t.held }

/-- Frames of the live allocations. -/
def liveFrames : List Nat := s.live.flatMap framesOf

end DmaSys

inductive DmaEvent where
  | alloc (pages : Nat)
  | dealloc (paddr pages : Nat)
  | other (call : FrameCall)
  deriving DecidableEq

/-- A buffer that is given back is live, and so is a frame that the rest of the kernel returns. -/
def DmaStep (s : DmaSys) (event : DmaEvent) (t : DmaSys) : Prop :=
  match event with
  | .alloc pages => 1 ≤ pages ∧ ∃ paddr, s.dmaAlloc pages = some (paddr, t)
  | .dealloc paddr pages => (paddr, pages) ∈ s.live ∧ t = s.dmaDealloc paddr pages
  | .other call => call.Allowed ⟨s.fa, s.held⟩ ∧ t = s.other call

namespace DmaSys

/-- After boot. -/
def start (regions : List MemRegion) : DmaSys := ⟨.ofRegions regions, [], [], []⟩

/-- One tracker for each frame of each live allocation and no other; the frames in use are these and the
ones held elsewhere. -/
structure Exact (s : DmaSys) : Prop where
  container : s.container.Perm s.liveFrames
  used : ∀ r ∈ s.fa.regions, ∀ i, i < r.frames →
    (getBit r.bits i = true ↔ r.addr i ∈ s.liveFrames ∨ r.addr i ∈ s.held)

/-! ## The frames that are in use -/

structure Inv (ms : List (Nat × Nat)) (s : DmaSys) : Prop where
  frames : s.fa.Inv ms (s.container ++ s.held)
  /-- addresses of allocations are those of frames -/
  aligned : ∀ b ∈ s.live, b.1 % pageSize = 0 ∧ 1 ≤ b.2

section Inv

variable {ms : List (Nat × Nat)} {s t : DmaSys}

theorem deallocAll {fa : FrameAllocator} {ps rest : List Nat} (h : fa.Inv ms (ps ++ rest)) :
    (ps.foldl FrameAllocator.dealloc fa).Inv ms rest := by
  induction ps generalizing fa with
  | nil => exact h
  | cons p ps ih =>
    have hp := h.dealloc (p := p) (List.mem_cons_self ..)
    rw [List.cons_append, List.erase_cons_head] at hp
    exact ih hp

/-- The frames that are found for a request lie in a row. -/
theorem framesOf_allocMuch {fa fa' : FrameAllocator} {held ps : List Nat} {pages paddr : Nat}
    {trackers : List Nat} (hinv : fa.Inv ms held) (hpages : 1 ≤ pages)
    (h : fa.allocMuch pages = some (ps, fa')) (hps : ps = paddr :: trackers) :
    ps = framesOf (paddr, pages) ∧ paddr % pageSize = 0 := by
  obtain ⟨pre, r, post, r', i, hsplit, -, -, hfits⟩ :=
    (FrameAllocator.allocMuch_firstFit hinv.wf hpages).serves ps fa' h
  have hwf : r.WF := hinv.wf r (by rw [hsplit]; simp)
  have haddrs := hfits.addrs
  have hhead : paddr = r.addr i := by
    obtain ⟨n, rfl⟩ : ∃ n, pages = n + 1 := ⟨pages - 1, by omega⟩
    rw [hps, List.range'_succ, List.map_cons] at haddrs
    exact (List.cons.inj haddrs).1
  refine ⟨?_, hhead ▸ hwf.addr_aligned i⟩
  rw [haddrs, hhead, framesOf, List.range'_eq_map_range, List.map_map]
  apply List.map_congr_left
  intro x _
  show r.paddr + (i + x) * pageSize = r.paddr + i * pageSize + x * pageSize
  rw [Nat.add_mul, Nat.add_assoc]

theorem dmaAlloc_eq {pages paddr : Nat} (hs : s.Inv ms) (hpages : 1 ≤ pages)
    (h : s.dmaAlloc pages = some (paddr, t)) :
    ∃ fa, s.fa.allocMuch pages = some (framesOf (paddr, pages), fa) ∧ paddr % pageSize = 0
      ∧ t = { s with
        fa := fa
        container := s.container ++ framesOf (paddr, pages)
        live := (paddr, pages) :: s.live } := by
  unfold dmaAlloc at h
  split at h
  · cases h
  · cases h
  rename_i paddr' trackers fa halloc
  cases h
  obtain ⟨hframes, haligned⟩ := framesOf_allocMuch hs.frames hpages halloc rfl
  rw [← hframes]
  exact ⟨fa, halloc, haligned, rfl⟩

theorem inv_other {call : FrameCall} (hs : s.Inv ms) (hallowed : call.Allowed ⟨s.fa, s.held⟩) :
    (FrameState.call ⟨s.fa, s.held⟩ call).fa.Inv ms
      (s.container ++ (FrameState.call ⟨s.fa, s.held⟩ call).held) := by
  cases call with
  | alloc =>
    cases h : s.fa.alloc with
    | none =>
      simp only [FrameState.call, h]
      exact hs.frames
    | some res =>
      simp only [FrameState.call, h]
      exact (hs.frames.alloc h).perm List.perm_middle.symm
  | allocMuch pages =>
    cases h : s.fa.allocMuch pages with
    | none =>
      simp only [FrameState.call, h]
      exact hs.frames
    | some res =>
      simp only [FrameState.call, h]
      refine (hs.frames.allocMuch h).perm ?_
      rw [← List.append_assoc, ← List.append_assoc]
      exact List.perm_append_comm.append_right _
  | dealloc paddr =>
    -- a frame that is held elsewhere has no tracker in the list
    have hnot : paddr ∉ s.container := by
      intro hmem
      have hnodup := hs.frames.nodup
      rw [List.nodup_append'] at hnodup
      exact hnodup.2.2 hmem hallowed
    have hdealloc := hs.frames.dealloc (List.mem_append_right _ hallowed)
    rw [List.erase_append_right _ hnot] at hdealloc
    exact hdealloc

theorem inv_step {event : DmaEvent} (hs : s.Inv ms) (hstep : DmaStep s event t) : t.Inv ms := by
  cases event with
  | alloc pages =>
    obtain ⟨hpages, paddr, halloc⟩ := hstep
    obtain ⟨fa, hmuch, haligned, rfl⟩ := dmaAlloc_eq hs hpages halloc
    refine ⟨?_, ?_⟩
    · refine (hs.frames.allocMuch hmuch).perm ?_
      rw [← List.append_assoc]
      exact List.perm_append_comm.append_right _
    · intro b hb
      rcases List.mem_cons.mp hb with rfl | hb
      · exact ⟨haligned, hpages⟩
      · exact hs.aligned b hb
  | dealloc paddr pages =>
    obtain ⟨-, rfl⟩ := hstep
    refine ⟨deallocAll (hs.frames.perm ?_), fun b hb => hs.aligned b (List.mem_of_mem_erase hb)⟩
    show (s.container ++ s.held).Perm
      (s.container.filter (removes paddr pages) ++ (s.container.filter _ ++ s.held))
    rw [← List.append_assoc]
    exact (List.filter_append_perm (removes paddr pages) s.container).symm.append_right _
  | other call =>
    obtain ⟨hallowed, rfl⟩ := hstep
    exact ⟨inv_other hs hallowed, hs.aligned⟩

end Inv

/-! ## One tracker for each frame -/

section Exact

variable {ms : List (Nat × Nat)} {s t : DmaSys} {paddr pages : Nat}

theorem exact_of_perm (hs : s.Inv ms) (hperm : s.container.Perm s.liveFrames) : s.Exact := by
  refine ⟨hperm, fun r hr i hi => ?_⟩
  rw [hs.frames.getBit_iff hr hi, List.mem_append, hperm.mem_iff]

theorem exact_start {regions : List MemRegion} (hdisj : regions.Pairwise MemRegion.Disjoint) :
    (start regions).Inv (regions.map (fun m => (m.start, m.stop))) ∧ (start regions).Exact := by
  have hinv : (start regions).Inv (regions.map (fun m => (m.start, m.stop))) :=
    ⟨FrameAllocator.inv_ofRegions hdisj, fun b hb => absurd hb List.not_mem_nil⟩
  exact ⟨hinv, exact_of_perm hinv (.refl _)⟩

/-- The frames of one of the live allocations, and those of the others. -/
theorem liveFrames_perm (hlive : (paddr, pages) ∈ s.live) :
    s.liveFrames.Perm (framesOf (paddr, pages) ++ (s.live.erase (paddr, pages)).flatMap framesOf) :=
  (List.perm_cons_erase hlive).flatMap_right framesOf

theorem removes_iff {x : Nat} :
    removes paddr pages x = true ↔ paddr / 4096 ≤ x ∧ x < paddr / 4096 + pages := by
  unfold removes
  rw [decide_eq_true_iff, Nat.shiftRight_eq_div_pow]

/-- The last frame of an allocation has an address among the page numbers of the allocation only if it
is all there is, at address 0. -/
theorem removes_last (haligned : paddr % pageSize = 0) (hpages : 1 ≤ pages)
    (h : removes paddr pages (paddr + (pages - 1) * pageSize) = true) : paddr = 0 ∧ pages = 1 := by
  rw [removes_iff] at h
  unfold pageSize at haligned h
  omega

theorem exact_dealloc_iff (hs : s.Inv ms) (hexact : s.Exact) (hlive : (paddr, pages) ∈ s.live) :
    (s.dmaDealloc paddr pages).Exact ↔ paddr = 0 ∧ pages = 1 := by
  have hperm := hexact.container.trans (liveFrames_perm hlive)
  have hnodup : (framesOf (paddr, pages) ++ (s.live.erase (paddr, pages)).flatMap framesOf).Nodup :=
    hperm.nodup_iff.mp (List.Nodup.of_append_left hs.frames.nodup)
  rw [List.nodup_append'] at hnodup
  obtain ⟨-, -, hdisjoint⟩ := hnodup
  obtain ⟨haligned, hpages⟩ := hs.aligned _ hlive
  constructor
  · intro hafter
    have hlast : paddr + (pages - 1) * pageSize ∈ framesOf (paddr, pages) := by
      refine List.mem_map.mpr ⟨pages - 1, List.mem_range.mpr ?_, rfl⟩
      exact Nat.sub_lt hpages Nat.one_pos
    apply removes_last haligned hpages
    by_contra hkept
    -- the frame is still in the list, and not among those of the other allocations
    have hmem : paddr + (pages - 1) * pageSize ∈ (s.dmaDealloc paddr pages).container := by
      refine List.mem_filter.mpr ⟨hperm.mem_iff.mpr (List.mem_append_left _ hlast), ?_⟩
      rw [Bool.not_eq_true] at hkept
      rw [hkept]
      rfl
    exact hdisjoint hlast (hafter.container.mem_iff.mp hmem)
  · rintro ⟨rfl, rfl⟩
    have hstep : DmaStep s (.dealloc 0 1) (s.dmaDealloc 0 1) := ⟨hlive, rfl⟩
    refine exact_of_perm (inv_step hs hstep) ?_
    show (s.container.filter (fun x => !removes 0 1 x)).Perm ((s.live.erase (0, 1)).flatMap framesOf)
    have hzero : framesOf (0, 1) = [0] := rfl
    rw [hzero] at hperm hdisjoint
    refine (hperm.filter _).trans (.of_eq ?_)
    rw [List.singleton_append, List.filter_cons_of_neg (by decide), List.filter_eq_self]
    intro x hx
    have hne : x ≠ 0 := by
      rintro rfl
      exact hdisjoint (List.mem_singleton_self 0) hx
    rw [Bool.not_eq_true', ← Bool.not_eq_true, removes_iff]
    omega

theorem exact_step {event : DmaEvent} (hs : s.Inv ms) (hexact : s.Exact)
    (hevent : ∀ paddr pages, event = .dealloc paddr pages → paddr = 0 ∧ pages = 1)
    (hstep : DmaStep s event t) : t.Exact := by
  have ht := inv_step hs hstep
  cases event with
  | alloc pages =>
    obtain ⟨hpages, paddr, halloc⟩ := hstep
    obtain ⟨fa, -, -, rfl⟩ := dmaAlloc_eq hs hpages halloc
    refine exact_of_perm ht ?_
    exact List.perm_append_comm.trans (hexact.container.append_left _)
  | dealloc paddr pages =>
    obtain ⟨hlive, rfl⟩ := hstep
    exact (exact_dealloc_iff hs hexact hlive).mpr (hevent paddr pages rfl)
  | other call =>
    obtain ⟨-, rfl⟩ := hstep
    exact exact_of_perm ht hexact.container

end Exact

end DmaSys

open DmaSys

/-- **DMA memory.** The list has one tracker for each frame of each live allocation and no other, at every
moment of a run, exactly if no buffer is given back but the single frame at address 0. -/
theorem dma_exact_iff (regions : List MemRegion) (hdisj : regions.Pairwise MemRegion.Disjoint)
    {events : List DmaEvent} {s : DmaSys} (hrun : Run DmaStep (start regions) events s) :
    (∀ before after t, events = before ++ after → Run DmaStep (start regions) before t → t.Exact)
      ↔ ∀ paddr pages, .dealloc paddr pages ∈ events → paddr = 0 ∧ pages = 1 := by
  obtain ⟨hinv, hexact⟩ := exact_start hdisj
  constructor
  · intro hall paddr pages hmem
    obtain ⟨before, after, rfl⟩ := List.append_of_mem hmem
    obtain ⟨t, hbefore, hrest⟩ := hrun.split
    cases hrest with
    | @cons _ u _ _ _ hstep _ =>
      have ht : t.Inv _ := hbefore.invariant (I := DmaSys.Inv _) (fun _ _ _ => inv_step) hinv
      have hexactT := hall before (.dealloc paddr pages :: after) t rfl hbefore
      have hexactU := hall (before ++ [.dealloc paddr pages]) after u (by simp) (hbefore.snoc hstep)
      obtain ⟨hlive, rfl⟩ := hstep
      exact (exact_dealloc_iff ht hexactT hlive).mp hexactU
  · rintro hdeallocs before after t rfl hbefore
    have hrestricted := hbefore.restrict
      (P := fun event => ∀ paddr pages, event = .dealloc paddr pages → paddr = 0 ∧ pages = 1)
      (fun event hevent paddr pages heq => hdeallocs paddr pages
        (List.mem_append_left _ (heq ▸ hevent)))
    have hboth := hrestricted.invariant
      (I := fun s => s.Inv (regions.map (fun m => (m.start, m.stop))) ∧ s.Exact)
      (fun s event t hs hstep => ⟨inv_step hs.1 hstep.2, exact_step hs.1 hs.2 hstep.1 hstep.2⟩)
      ⟨hinv, hexact⟩
    exact hboth.2

/-- A buffer of two frames, and a frame for the rest of the kernel. -/
theorem dma_exact_iff_two_frames :
    ∃ s : DmaSys,
      Run DmaStep (start [⟨0x80000000, 0x80003000, rfl, rfl, by decide⟩]) [.alloc 2, .other .alloc] s
      ∧ s.container = [0x80000000, 0x80001000] ∧ s.live = [(0x80000000, 2)] ∧ s.Exact := by
  have halloc : (start [⟨0x80000000, 0x80003000, rfl, rfl, by decide⟩]).dmaAlloc 2
      = some (0x80000000, ⟨⟨[⟨[0xfffffffffffffffb#64], 0x80000000, 0x80003000⟩]⟩, [],
        [0x80000000, 0x80001000], [(0x80000000, 2)]⟩) := by
    decide +kernel
  have hrun : Run DmaStep (start [⟨0x80000000, 0x80003000, rfl, rfl, by decide⟩])
      [.alloc 2, .other .alloc] _ :=
    .cons ⟨by decide, _, halloc⟩ (.cons ⟨trivial, rfl⟩ (.nil _))
  refine ⟨_, hrun, rfl, rfl, ?_⟩
  refine (dma_exact_iff _ (List.pairwise_singleton _ _) hrun).mpr ?_ _ [] _ (by simp) hrun
  intro paddr pages hmem
  simp at hmem

/-- A buffer that is given back stays in the list. Where there is memory at `0x1000` and at `0x1000000`,
whose page number is `0x1000`, giving back the buffer in the second frees the live one in the first. -/
theorem dma_leaks :
    (∃ s : DmaSys, Run DmaStep (start [⟨0x80000000, 0x80003000, rfl, rfl, by decide⟩])
        [.alloc 1, .dealloc 0x80000000 1] s
      ∧ s.live = [] ∧ s.container = [0x80000000] ∧ s.fa.getFreePageCount = 2)
    ∧ ∃ s : DmaSys, Run DmaStep (start [⟨0x1000, 0x2000, rfl, rfl, by decide⟩,
          ⟨0x1000000, 0x1001000, rfl, rfl, by decide⟩])
        [.alloc 1, .alloc 1, .dealloc 0x1000000 1] s
      ∧ s.live = [(0x1000, 1)] ∧ s.container = [0x1000000] ∧ s.fa.getFreePageCount = 1 := by
  constructor
  · have halloc : (start [⟨0x80000000, 0x80003000, rfl, rfl, by decide⟩]).dmaAlloc 1
        = some (0x80000000, ⟨⟨[⟨[0xfffffffffffffff9#64], 0x80000000, 0x80003000⟩]⟩, [],
          [0x80000000], [(0x80000000, 1)]⟩) := by
      decide +kernel
    refine ⟨_, .cons ⟨by decide, _, halloc⟩ (.cons ⟨by decide +kernel, rfl⟩ (.nil _)), ?_, ?_, ?_⟩
    · decide +kernel
    · decide +kernel
    · decide +kernel
  · let both : List (BitVec 64) → DmaSys := fun bits =>
      ⟨⟨[⟨[BitVec.allOnes 64], 0x1000, 0x2000⟩, ⟨bits, 0x1000000, 0x1001000⟩]⟩, [], [0x1000],
        [(0x1000, 1)]⟩
    have hfirst : (start [⟨0x1000, 0x2000, rfl, rfl, by decide⟩,
        ⟨0x1000000, 0x1001000, rfl, rfl, by decide⟩]).dmaAlloc 1
          = some (0x1000, both [0xfffffffffffffffe#64]) := by
      decide +kernel
    have hsecond : (both [0xfffffffffffffffe#64]).dmaAlloc 1
        = some (0x1000000, { both [BitVec.allOnes 64] with
          container := [0x1000, 0x1000000]
          live := [(0x1000000, 1), (0x1000, 1)] }) := by
      decide +kernel
    refine ⟨_, .cons ⟨by decide, _, hfirst⟩ (.cons ⟨by decide, _, hsecond⟩
      (.cons ⟨by decide +kernel, rfl⟩ (.nil _))), ?_, ?_, ?_⟩
    · decide +kernel
    · decide +kernel
    · decide +kernel

end MonkeyOS
