import MonkeyOS.Runtime.FrameRun

/-!
# MonkeyOS — the contents of free frames

No allocation clears a frame: `frame_alloc`, `frame_alloc_much` and `frame_alloc_persist` hand out
whatever the memory holds. Frames are cleared on the way back, in `FrameTracker::drop` and in
`PageAllocImpl::dealloc` (`kernel/src/main.rs`), which frees the frame first.

So "a new frame is zero" is an invariant of the frames that nobody holds (`ZeroInv`). It is
carried along the held frames of `FrameAllocator.Inv`: one lemma for handing frames out, one for
taking a frame back, one for a store into a held frame.
-/

namespace MonkeyOS

open Lib

/-- `paddr.clear_len(PAGE_SIZE)`. -/
def clearFrame (mem : Nat → UInt8) (paddr : Nat) : Nat → UInt8 :=
  fun a => if paddr ≤ a ∧ a < paddr + pageSize then 0 else mem a

/-- Something that owns `FrameTracker`s: a tracker by itself, a `Vec` of them, or an `Arc` around
either, with its strong count. -/
structure Holder where
  frames : List Nat
  strong : Nat
  deriving DecidableEq

/-- The allocator, the physical memory, and who holds frames. -/
structure FrameMem where
  fa : FrameAllocator
  mem : Nat → UInt8
  holders : List Holder
  /-- the frames of `frame_alloc_persist`, which nothing drops -/
  persist : List Nat

namespace FrameMem

def held (s : FrameMem) : List Nat := s.holders.flatMap Holder.frames ++ s.persist

/-- `FrameTracker::drop`. -/
def dropTracker (s : FrameMem) (paddr : Nat) : FrameMem :=
  let s := { s with mem := clearFrame s.mem paddr }
  { s with fa := s.fa.dealloc paddr }

/-- `PageAllocImpl::dealloc`. -/
def pageDealloc (s : FrameMem) (paddr : Nat) : FrameMem :=
  let s := { s with fa := s.fa.dealloc paddr }
  { s with mem := clearFrame s.mem paddr }

end FrameMem

inductive FrameOp where
  | frameAlloc
  | frameAllocMuch (pages : Nat)
  | frameAllocPersist
  /-- a clone of an `Arc` -/
  | clone (h : Holder)
  /-- a tracker, a `Vec` or an `Arc` goes out of scope -/
  | drop (h : Holder)
  /-- trackers moved together into one `Vec` -/
  | pack (h h' : Holder)
  /-- the trackers of a `Vec` moved out of it -/
  | unpack (h : Holder)
  /-- `PageAllocImpl::dealloc` -/
  | dealloc (paddr : Nat)
  | write (a : Nat) (b : UInt8)

namespace FrameMem

/-- A refused request changes nothing. -/
def exec (s : FrameMem) : FrameOp → FrameMem
  | .frameAlloc =>
    match s.fa.alloc with
    | some (p, fa) => { s with fa := fa, holders := ⟨[p], 1⟩ :: s.holders }
    | none => s
  | .frameAllocMuch pages =>
    match s.fa.allocMuch pages with
    | some (ps, fa) => { s with fa := fa, holders := ⟨ps, 1⟩ :: s.holders }
    | none => s
  | .frameAllocPersist =>
    match s.fa.alloc with
    | some (p, fa) => { s with fa := fa, persist := p :: s.persist }
    | none => s
  | .clone h => { s with holders := ⟨h.frames, h.strong + 1⟩ :: s.holders.erase h }
  | .drop h =>
    if h.strong > 1 then
      { s with holders := ⟨h.frames, h.strong - 1⟩ :: s.holders.erase h }
    else h.frames.foldl dropTracker { s with holders := s.holders.erase h }
  | .pack h h' =>
    { s with holders := ⟨h.frames ++ h'.frames, 1⟩ :: (s.holders.erase h).erase h' }
  | .unpack h => { s with holders := h.frames.map (fun p => ⟨[p], 1⟩) ++ s.holders.erase h }
  | .dealloc paddr => pageDealloc { s with persist := s.persist.erase paddr } paddr
  | .write a b => { s with mem := Function.update s.mem a b }

/-- What is dropped, cloned or moved is there, an `Arc` is not moved apart, a page is given back by
its owner, and a frame is written while it is held. -/
def Allowed (s : FrameMem) : FrameOp → Prop
  | .clone h => h ∈ s.holders
  | .drop h => h ∈ s.holders
  | .pack h h' => h ∈ s.holders ∧ h' ∈ s.holders.erase h ∧ h.strong = 1 ∧ h'.strong = 1
  | .unpack h => h ∈ s.holders ∧ h.strong = 1
  | .dealloc paddr => paddr ∈ s.persist
  | .write a _ => ∃ p ∈ s.held, p ≤ a ∧ a < p + pageSize
  | _ => True

/-- The frames that a request hands out. -/
def handsOut (s : FrameMem) : FrameOp → List Nat
  | .frameAlloc => (s.fa.alloc.map Prod.fst).toList
  | .frameAllocMuch pages => ((s.fa.allocMuch pages).map Prod.fst).getD []
  | .frameAllocPersist => (s.fa.alloc.map Prod.fst).toList
  | _ => []

end FrameMem

def FrameMemStep (s : FrameMem) (op : FrameOp) (t : FrameMem) : Prop :=
  s.Allowed op ∧ t = s.exec op

/-- The frame holds only zeros. -/
def ZeroFrame (mem : Nat → UInt8) (p : Nat) : Prop := ∀ i, i < pageSize → mem (p + i) = 0

/-! ## The invariant -/

/-- The held frames are the ones the allocator has handed out, and every other frame is zero. -/
structure ZeroInv (regions : List MemRegion) (fa : FrameAllocator) (mem : Nat → UInt8)
    (held : List Nat) : Prop where
  inv : fa.Inv (regions.map (fun m => (m.start, m.stop))) held
  zero : ∀ p, p % pageSize = 0 → (∃ m ∈ regions, m.start ≤ p ∧ p + pageSize ≤ m.stop) →
    p ∉ held → ZeroFrame mem p

theorem FrameAllocator.Inv.perm {fa : FrameAllocator} {ms : List (Nat × Nat)}
    {held held' : List Nat} (h : fa.Inv ms held) (hperm : held.Perm held') : fa.Inv ms held' where
  bounds := h.bounds
  wf := h.wf
  disjoint := h.disjoint
  nodup := hperm.nodup_iff.mp h.nodup
  mem_held := by
    intro p
    rw [← hperm.mem_iff]
    exact h.mem_held p
  count := by
    rw [← hperm.length_eq]
    exact h.count

namespace ZeroInv

variable {regions : List MemRegion} {fa fa' : FrameAllocator} {mem : Nat → UInt8}
  {held held' : List Nat} {p : Nat}

theorem perm (h : ZeroInv regions fa mem held) (hperm : held.Perm held') :
    ZeroInv regions fa mem held' where
  inv := h.inv.perm hperm
  zero := by
    intro p halign hin hp
    rw [← hperm.mem_iff] at hp
    exact h.zero p halign hin hp

/-- Frames handed out were not held, so they are zero. -/
theorem hand_out (h : ZeroInv regions fa mem held) (ps : List Nat)
    (hinv : fa'.Inv (regions.map (fun m => (m.start, m.stop))) (ps ++ held)) :
    ZeroInv regions fa' mem (ps ++ held) ∧ ∀ p ∈ ps, ZeroFrame mem p := by
  refine ⟨⟨hinv, ?_⟩, ?_⟩
  · intro p halign hin hp
    exact h.zero p halign hin (fun hheld => hp (List.mem_append_right _ hheld))
  intro p hp
  obtain ⟨halign, hin⟩ := hinv.held_in_region (List.mem_append_left _ hp)
  refine h.zero p halign hin ?_
  exact List.disjoint_of_nodup_append hinv.nodup hp

/-- A frame taken back is cleared, before or after it is marked free. -/
theorem take_back (h : ZeroInv regions fa mem (p :: held)) :
    ZeroInv regions (fa.dealloc p) (clearFrame mem p) held where
  inv := by
    have hdealloc := h.inv.dealloc List.mem_cons_self
    rwa [List.erase_cons_head] at hdealloc
  zero := by
    intro q halign hin hq i hi
    unfold clearFrame
    split
    · rfl
    rename_i hout
    -- a byte outside of the frame that is cleared belongs to another frame
    have hne : q ≠ p := by
      rintro rfl
      omega
    exact h.zero q halign hin (List.not_mem_cons_of_ne_of_not_mem hne hq) i hi

/-- A store into a held frame leaves the others alone. -/
theorem write {a : Nat} (h : ZeroInv regions fa mem held) (hp : p ∈ held)
    (ha : p ≤ a ∧ a < p + pageSize) (b : UInt8) :
    ZeroInv regions fa (Function.update mem a b) held where
  inv := h.inv
  zero := by
    intro q halign hin hq i hi
    have hpalign := (h.inv.held_in_region hp).1
    have hne : q + i ≠ a := by
      intro heq
      -- two aligned frames around one address are the same
      have hsame : q = p := by
        unfold pageSize at *
        omega
      exact hq (hsame ▸ hp)
    rw [Function.update_of_ne hne]
    exact h.zero q halign hin hq i hi

end ZeroInv

/-! ## Every operation keeps it -/

namespace FrameMem

variable {regions : List MemRegion} {s : FrameMem} {h : Holder}

def Zeroed (regions : List MemRegion) (s : FrameMem) : Prop :=
  ZeroInv regions s.fa s.mem s.held

/-- The frames of one holder, and the others. -/
theorem held_perm (hh : h ∈ s.holders) :
    s.held.Perm (h.frames ++ ({ s with holders := s.holders.erase h } : FrameMem).held) := by
  have hperm := (List.perm_cons_erase hh).flatMap_right Holder.frames
  rw [List.flatMap_cons] at hperm
  have hall := hperm.append_right s.persist
  rwa [List.append_assoc] at hall

/-- A holder in the place of another that held the same frames. -/
theorem zeroed_rehold (hs : s.Zeroed regions) (hh : h ∈ s.holders) (h' : Holder)
    (hframes : h'.frames = h.frames) :
    ({ s with holders := h' :: s.holders.erase h } : FrameMem).Zeroed regions := by
  refine ZeroInv.perm hs ((held_perm hh).trans (.of_eq ?_))
  unfold held
  rw [List.flatMap_cons, hframes, List.append_assoc]

/-- Dropping trackers one after the other. -/
theorem zeroInv_dropTrackers {ps rest : List Nat}
    (hs : ZeroInv regions s.fa s.mem (ps ++ rest)) :
    ZeroInv regions (ps.foldl dropTracker s).fa (ps.foldl dropTracker s).mem rest
      ∧ (ps.foldl dropTracker s).holders = s.holders
      ∧ (ps.foldl dropTracker s).persist = s.persist := by
  induction ps generalizing s with
  | nil => exact ⟨hs, rfl, rfl⟩
  | cons p ps ih => exact ih (s := s.dropTracker p) hs.take_back

theorem zeroed_drop (hs : s.Zeroed regions) (hh : h ∈ s.holders) :
    (s.exec (.drop h)).Zeroed regions := by
  unfold exec
  dsimp only
  split
  · exact zeroed_rehold hs hh _ rfl
  -- the last clone: its frames go, and nothing else
  obtain ⟨hzero, hholders, hpersist⟩ :=
    zeroInv_dropTrackers (s := { s with holders := s.holders.erase h }) (hs.perm (held_perm hh))
  unfold Zeroed held
  rw [hholders, hpersist]
  exact hzero

theorem zeroed_pack {h' : Holder} (hs : s.Zeroed regions) (hh : h ∈ s.holders)
    (hh' : h' ∈ s.holders.erase h) : (s.exec (.pack h h')).Zeroed regions := by
  refine ZeroInv.perm hs ((held_perm hh).trans ?_)
  have hsecond := held_perm (s := { s with holders := s.holders.erase h }) hh'
  refine (hsecond.append_left _).trans (.of_eq ?_)
  unfold exec held
  rw [List.flatMap_cons, ← List.append_assoc, ← List.append_assoc]

theorem zeroed_unpack (hs : s.Zeroed regions) (hh : h ∈ s.holders) :
    (s.exec (.unpack h)).Zeroed regions := by
  refine ZeroInv.perm hs ((held_perm hh).trans (.of_eq ?_))
  have hsingle : (h.frames.map (fun p => (⟨[p], 1⟩ : Holder))).flatMap Holder.frames = h.frames := by
    rw [List.flatMap_map]
    exact List.flatMap_singleton' _
  unfold exec held
  rw [List.flatMap_append, hsingle, List.append_assoc]

theorem zeroed_dealloc {paddr : Nat} (hs : s.Zeroed regions) (hp : paddr ∈ s.persist) :
    (s.exec (.dealloc paddr)).Zeroed regions := by
  have hperm : s.held.Perm (paddr :: (s.holders.flatMap Holder.frames ++ s.persist.erase paddr)) :=
    ((List.perm_cons_erase hp).append_left _).trans List.perm_middle
  exact (hs.perm hperm).take_back

/-- **One operation.** It keeps the invariant, and the frames it hands out are zero. -/
theorem zeroed_exec {op : FrameOp} (hs : s.Zeroed regions) (hallowed : s.Allowed op) :
    (s.exec op).Zeroed regions ∧ ∀ p ∈ s.handsOut op, ZeroFrame (s.exec op).mem p := by
  cases op with
  | frameAlloc =>
    unfold exec handsOut
    cases halloc : s.fa.alloc with
    | none => exact ⟨hs, fun _ hp => nomatch hp⟩
    | some r =>
      obtain ⟨hzero, hnew⟩ := hs.hand_out [r.1] (hs.inv.alloc halloc)
      exact ⟨hzero, hnew⟩
  | frameAllocMuch pages =>
    unfold exec handsOut
    dsimp only
    cases halloc : s.fa.allocMuch pages with
    | none => exact ⟨hs, fun _ hp => nomatch hp⟩
    | some r =>
      obtain ⟨hzero, hnew⟩ := hs.hand_out r.1 (hs.inv.allocMuch halloc)
      exact ⟨hzero.perm (.of_eq (List.append_assoc _ _ _).symm), hnew⟩
  | frameAllocPersist =>
    unfold exec handsOut
    cases halloc : s.fa.alloc with
    | none => exact ⟨hs, fun _ hp => nomatch hp⟩
    | some r =>
      obtain ⟨hzero, hnew⟩ := hs.hand_out [r.1] (hs.inv.alloc halloc)
      have hperm : (r.1 :: (s.holders.flatMap Holder.frames ++ s.persist)).Perm
          (s.holders.flatMap Holder.frames ++ r.1 :: s.persist) := List.perm_middle.symm
      exact ⟨hzero.perm hperm, hnew⟩
  | clone h => exact ⟨zeroed_rehold hs hallowed _ rfl, fun _ hp => nomatch hp⟩
  | drop h => exact ⟨zeroed_drop hs hallowed, fun _ hp => nomatch hp⟩
  | pack h h' => exact ⟨zeroed_pack hs hallowed.1 hallowed.2.1, fun _ hp => nomatch hp⟩
  | unpack h => exact ⟨zeroed_unpack hs hallowed.1, fun _ hp => nomatch hp⟩
  | dealloc paddr => exact ⟨zeroed_dealloc hs hallowed, fun _ hp => nomatch hp⟩
  | write a b =>
    obtain ⟨p, hp, ha⟩ := hallowed
    exact ⟨ZeroInv.write hs hp ha b, fun _ hp => nomatch hp⟩

end FrameMem

/-! ## Runs -/

/-- The machine at boot: disjoint regions of memory, all zero. -/
structure BootMemory where
  regions : List MemRegion
  disjoint : regions.Pairwise MemRegion.Disjoint
  mem : Nat → UInt8
  zero : ∀ m ∈ regions, ∀ a, m.start ≤ a → a < m.stop → mem a = 0

/-- The regions are registered, and nothing is allocated. -/
def BootMemory.start (boot : BootMemory) : FrameMem := ⟨.ofRegions boot.regions, boot.mem, [], []⟩

theorem BootMemory.zeroed_start (boot : BootMemory) : boot.start.Zeroed boot.regions where
  inv := FrameAllocator.inv_ofRegions boot.disjoint
  zero := by
    intro p _ hin _ i hi
    obtain ⟨m, hm, hstart, hstop⟩ := hin
    exact boot.zero m hm (p + i) (by omega) (by omega)

/-- **New memory is zero.** However frames are requested, shared, written and given back after boot,
every frame holds only zeros when it is handed out. -/
theorem frame_zero_when_handed_out (boot : BootMemory) {ops : List FrameOp} {s t : FrameMem}
    {op : FrameOp} (hrun : Run FrameMemStep boot.start ops s) (hstep : FrameMemStep s op t) :
    ∀ p ∈ s.handsOut op, ∀ i, i < pageSize → t.mem (p + i) = 0 := by
  have hs : s.Zeroed boot.regions := by
    apply hrun.invariant (I := FrameMem.Zeroed boot.regions) _ boot.zeroed_start
    rintro s op t hs ⟨hallowed, rfl⟩
    exact (FrameMem.zeroed_exec hs hallowed).1
  obtain ⟨hallowed, rfl⟩ := hstep
  exact (FrameMem.zeroed_exec hs hallowed).2

/-- A machine with one frame: it is handed out, written, dropped and handed out again. -/
theorem frame_zero_when_handed_out_again :
    let boot : BootMemory :=
      ⟨[⟨0x80000000, 0x80001000, rfl, rfl, by decide⟩], List.pairwise_singleton _ _, fun _ => 0,
        fun _ _ _ _ _ => rfl⟩
    ∃ s t, Run FrameMemStep boot.start
        [.frameAlloc, .write 0x80000123 7, .drop ⟨[0x80000000], 1⟩] s
      ∧ FrameMemStep s .frameAlloc t ∧ s.handsOut .frameAlloc = [0x80000000]
      ∧ t.mem (0x80000000 + 0x123) = 0 := by
  intro boot
  obtain ⟨s, hrun, hfree⟩ : ∃ s, Run FrameMemStep boot.start
      [.frameAlloc, .write 0x80000123 7, .drop ⟨[0x80000000], 1⟩] s
      ∧ s.handsOut .frameAlloc = [0x80000000] :=
    ⟨_, .cons ⟨trivial, rfl⟩ (.cons ⟨⟨0x80000000, by decide +kernel, by decide, by decide⟩, rfl⟩
      (.cons ⟨by show _ ∈ _; decide +kernel, rfl⟩ (.nil _))), by decide +kernel⟩
  have hstep : FrameMemStep s .frameAlloc (s.exec .frameAlloc) := ⟨trivial, rfl⟩
  have hmem : 0x80000000 ∈ s.handsOut .frameAlloc := by
    rw [hfree]
    exact List.mem_cons_self
  exact ⟨s, _, hrun, hstep, hfree,
    frame_zero_when_handed_out boot hrun hstep 0x80000000 hmem 0x123 (by decide)⟩

end MonkeyOS
