import MonkeyOS.Mem.FaultMiss
import MonkeyOS.Mem.MmapFail

/-!
# MonkeyOS — page alignment over `mmap`, `munmap` and page faults (`kernel/src/syscall/mm.rs`)

`UserTask::map` asserts that the address is a multiple of the page size. `sys_mmap` rounds the length
up, and takes the start as it is; `sys_munmap` takes both as they are.

* `AddrSpace.Aligned` — areas, trackers and segments lie on page boundaries;
* `MemArea.pieces_aligned_iff` — `sub` keeps an area on page boundaries exactly if it cuts it on one;
* `Aligned.fault` — a page fault always does, since it goes by the page of the address;
* `Aligned.sysMmap_iff` — `sys_mmap` does, and calls `map` on page boundaries, exactly if it is
  given one, or comes to nothing;
* `keepsAligned_throughout_iff` — so for every sequence of calls;
* `unaligned_mmap_panics` — an unaligned mapping, and the one after it that panics.
-/

namespace MonkeyOS

open Lib

/-! ## The calls -/

inductive PageCall where
  | mmap (env : MmapEnv) (args : MmapArgs)
  | munmap (start len : Nat)
  | fault (env : FaultAnswers) (vaddr : Nat)

/-- The range cuts the areas on page boundaries only. -/
def MemSet.CutsEven (m : MemSet) (s e : Nat) : Prop :=
  ∀ a ∈ m.areas, (a.start < s → s < a.stop → s % pageSize = 0)
    ∧ (a.start < e → e < a.stop → e % pageSize = 0)

namespace AddrSpace

structure Aligned (s : AddrSpace) : Prop where
  areas : ∀ a ∈ s.memset.areas, a.Aligned
  trackers : ∀ t ∈ s.memset.trackers, t.vaddr % pageSize = 0
  shms : ∀ g ∈ s.shms, (g.start + g.size) % pageSize = 0

def after (s : AddrSpace) : PageCall → AddrSpace
  | .mmap env args => (s.sysMmap env args).2
  | .munmap start len => s.sysMunmap start len
  | .fault env vaddr => (s.userCowInt env vaddr).space

/-- The addresses `map` is called with; for a fault, at most. -/
def maps (s : AddrSpace) : PageCall → List Nat
  | .mmap env args => s.sysMmapMaps env args
  | .munmap _ _ => []
  | .fault _ vaddr =>
    if inRange 0x1000000 0x2000000 vaddr then pagesOf (floor vaddr) (12 * pageSize)
    else [floor vaddr]

/-- The range does not wrap. -/
def NoWrap (s : AddrSpace) : PageCall → Prop
  | .mmap _ args => s.mmapAddr args.start + args.alignedLen < 2 ^ 64
  | .munmap start len => start + len < 2 ^ 64
  | .fault _ _ => True

/-- `map` does not panic, and everything is on page boundaries afterwards. -/
structure KeepsAligned (s : AddrSpace) (call : PageCall) : Prop where
  maps : ∀ v ∈ s.maps call, v % pageSize = 0
  aligned : (s.after call).Aligned

/-- A mapping that needs frames, and the allocator has not got them. -/
def NoFrames (env : MmapEnv) (args : MmapArgs) : Prop :=
  (args.shared = true ∨ (args.file env).isSome) ∧ ¬ Frames env args

/-- What a call has to be given. A `mmap` at an address off the boundaries is harmless when it comes
to nothing: it is empty, or in the way of an area, or has no frames and has not cut an area before. -/
def OnBoundaries (s : AddrSpace) : PageCall → Prop
  | .mmap env args =>
    args.start % pageSize = 0 ∨ args.alignedLen = 0 ∨ (args.fixed = false ∧ s.Overlaps args)
      ∨ NoFrames env args ∧ (args.fixed = true →
        s.memset.CutsEven (s.mmapAddr args.start) (s.mmapAddr args.start + args.alignedLen))
  | .munmap start len => s.memset.CutsEven start (start + len)
  | .fault _ _ => True

end AddrSpace

/-! ## Cutting an area -/

namespace MemArea

variable {a : MemArea} {s e : Nat}

theorem forall_piece_iff {P : MemArea → Prop} :
    (∀ b, a.Piece s e b → P b)
      ↔ ((a.sub s e).area.len ≠ 0 → P (a.sub s e).area)
        ∧ ∀ b, (a.sub s e).split = some b → P b := by
  unfold Piece
  constructor
  · intro h
    exact ⟨fun hlen => h _ (.inl ⟨rfl, hlen⟩), fun b hb => h b (.inr hb)⟩
  · rintro ⟨harea, hsplit⟩ b (⟨rfl, hlen⟩ | hb)
    · exact harea hlen
    · exact hsplit b hb

/-- Trimmed, at its end or at its start; the range covers neither bound of what is left. -/
theorem sub_trimmed_bounds (hse : s ≤ e) (hover : a.overlapping s e = true) (h : ¬ a.Splits s e)
    (hswallow : ¬ (inRange s e a.start && inRange s e a.stop) = true) :
    (a.sub s e).split = none
      ∧ (((a.sub s e).area.start = a.start ∧ (a.sub s e).area.len = s - a.start
          ∧ a.start ≤ s ∧ s < a.stop ∧ a.stop ≤ e)
        ∨ ((a.sub s e).area.start = e ∧ (a.sub s e).area.len = a.stop - e
          ∧ s < a.start ∧ a.start < e ∧ e ≤ a.stop)) := by
  have hboth := not_both_of_not_splits hover h
  unfold sub subTo
  rw [if_neg (by simp [hover]), if_neg hboth, if_neg hswallow]
  rw [overlapping_iff] at hover
  rw [Bool.and_eq_true, inRange_iff, inRange_iff] at hboth hswallow
  refine ⟨rfl, ?_⟩
  dsimp only
  by_cases hs : inRange a.start a.stop s = true
  · rw [if_pos hs]
    rw [inRange_iff] at hs
    exact .inl ⟨rfl, rfl, by omega⟩
  · rw [if_neg hs]
    rw [inRange_iff] at hs
    have hstart : inRange s e a.start = true := by
      rw [inRange_iff]
      omega
    rw [if_pos hstart]
    exact .inr ⟨rfl, rfl, by omega⟩

/-- **`sub` keeps an area on page boundaries** exactly if it cuts it on one. -/
theorem pieces_aligned_iff (ha : a.Aligned) (hse : s ≤ e) :
    (∀ b, a.Piece s e b → b.Aligned)
      ↔ (a.start < s → s < a.stop → s % pageSize = 0)
        ∧ (a.start < e → e < a.stop → e % pageSize = 0) := by
  rw [forall_piece_iff]
  have hstop : a.stop = a.start + a.len := rfl
  obtain ⟨hstart, hlen⟩ := ha
  -- `omega` needs the page size as a number
  unfold pageSize at hstart hlen ⊢
  by_cases hover : a.overlapping s e = true
  · by_cases hsplits : a.Splits s e
    · obtain ⟨harea, hsplit, -⟩ := sub_of_splits hsplits
      have hs := inRange_iff.mp hsplits.start
      have he := inRange_iff.mp hsplits.stop
      rw [harea, hsplit]
      simp only [Option.some.injEq, forall_eq', Aligned, pageSize]
      omega
    · by_cases hswallow : (inRange s e a.start && inRange s e a.stop) = true
      · -- nothing is left
        obtain ⟨harea, hsplit⟩ := sub_of_all hover (by
          rw [← Bool.not_eq_true]
          intro he
          simp only [Bool.and_eq_true, inRange_iff] at hswallow he
          omega) hswallow
        rw [harea, hsplit]
        simp only [Bool.and_eq_true, inRange_iff] at hswallow
        simp
        omega
      · obtain ⟨hsplit, hbounds⟩ := sub_trimmed_bounds hse hover hsplits hswallow
        rw [hsplit]
        unfold Aligned pageSize
        simp only [reduceCtorEq, false_implies, implies_true, and_true]
        rcases hbounds with ⟨hst, hl, hin⟩ | ⟨hst, hl, hin⟩
        · rw [hst, hl]
          omega
        · rw [hst, hl]
          omega
  · -- the range misses the area
    rw [sub_of_not_overlapping (by simpa using hover)]
    rw [overlapping_iff] at hover
    refine iff_of_true ⟨fun _ => ⟨hstart, hlen⟩, fun b hb => by cases hb⟩ ?_
    omega

end MemArea

namespace AddrSpace

variable {s : AddrSpace}

variable {env : MmapEnv} {a : MemArea} {vaddr addr stop : Nat} {args : MmapArgs} {t : AddrSpace}

/-- `sub_area` makes no tracker, and what it makes of the areas is on page boundaries if it cuts
there. -/
theorem Aligned.subArea_iff (hs : s.Aligned) {start : Nat} (hle : start ≤ stop) :
    (s.subArea start stop).Aligned ↔ s.memset.CutsEven start stop := by
  constructor
  · intro h a ha
    apply (MemArea.pieces_aligned_iff (hs.areas a ha) hle).mp
    intro b hb
    exact h.areas b (MemSet.mem_subArea.mpr ⟨a, ha, hb⟩)
  · intro h
    refine ⟨fun b hb => ?_, fun t ht => ?_, hs.shms⟩
    · obtain ⟨a, ha, hab⟩ := MemSet.mem_subArea.mp hb
      exact (MemArea.pieces_aligned_iff (hs.areas a ha) hle).mpr (h a ha) b hab
    obtain ⟨b, hb, htb⟩ := MemSet.mem_trackers.mp ht
    obtain ⟨a, ha, hab⟩ := MemSet.mem_subArea.mp hb
    obtain ⟨harea, hsplit⟩ := a.sub_mtrackers start stop
    apply hs.trackers t
    apply MemSet.mem_trackers.mpr
    rcases hab with ⟨rfl, -⟩ | hab
    · exact ⟨a, ha, harea t htb⟩
    · exact ⟨a, ha, hsplit b hab t htb⟩

/-! ## Adding areas and trackers -/

theorem Aligned.install (hs : s.Aligned) (ha : a.Aligned)
    (hts : ∀ t ∈ a.mtrackers, t.vaddr % pageSize = 0) (vaddr : Nat) (flags : MappingFlags) :
    (s.install vaddr a flags).Aligned := by
  refine ⟨List.forall_mem_append.mpr ⟨hs.areas, by simpa using ha⟩, ?_, hs.shms⟩
  show ∀ t ∈ (s.memset.push a).trackers, _
  rw [MemSet.trackers_push]
  exact List.forall_mem_append.mpr ⟨hs.trackers, hts⟩

theorem pageTrackers_aligned (hvaddr : vaddr % pageSize = 0) (frames : List Nat) :
    ∀ t ∈ pageTrackers vaddr frames, t.vaddr % pageSize = 0 := by
  intro t ht
  obtain ⟨i, hi, rfl⟩ := List.mem_mapIdx.mp ht
  show (if vaddr = 0 then vaddr else vaddr + i * pageSize) % pageSize = 0
  split
  · exact hvaddr
  · rw [Nat.add_mul_mod_self_right]
    exact hvaddr

/-- One area gets trackers for more pages, or other frames for the pages it has. -/
theorem Aligned.retrack (hs : s.Aligned) {pre post : List MemArea}
    (hareas : s.memset.areas = pre ++ a :: post) {ts : List MapTrack}
    (hts : ∀ t ∈ ts, t.vaddr % pageSize = 0) (pt : PageTable) :
    Aligned { s with memset := ⟨pre ++ { a with mtrackers := ts } :: post⟩, pt := pt } := by
  have hm : s.memset = ⟨pre ++ a :: post⟩ := by rw [← hareas]
  have hold := hs.trackers
  have hsame := hs.areas
  rw [hm, MemSet.trackers_split] at hold
  rw [hareas] at hsame
  refine ⟨?_, ?_, hs.shms⟩
  · intro b hb
    rcases List.mem_append.mp hb with hb | hb
    · exact hsame b (List.mem_append_left _ hb)
    · rcases List.mem_cons.mp hb with rfl | hb
      · exact hsame a List.mem_append_cons_self
      · exact hsame b (List.mem_append_right _ (List.mem_cons_of_mem _ hb))
  · intro t ht
    rw [MemSet.trackers_split] at ht
    simp only [List.mem_append] at ht hold
    rcases ht with ht | ht | ht
    · exact hold t (.inl ht)
    · exact hts t ht
    · exact hold t (.inr (.inr ht))

theorem Aligned.frameAlloc (hs : s.Aligned) {count : Nat} {mtype : MemType} {r : Nat × AddrSpace}
    (hvaddr : vaddr % pageSize = 0)
    (h : s.frameAlloc env vaddr mtype count = some r) : r.2.Aligned := by
  by_cases hstack : mtype = .stack
  · subst hstack
    unfold AddrSpace.frameAlloc at h
    rw [if_neg (by simp)] at h
    obtain ⟨ppn, -, rfl⟩ := Option.map_eq_some_iff.mp h
    dsimp only
    rw [if_pos rfl]
    have hts := pageTrackers_aligned hvaddr (contiguous ppn count)
    split
    · rename_i areas hup
      obtain ⟨pre, a, post, hareas, -, -, rfl⟩ := updateFirst_eq_some hup
      refine hs.retrack hareas (List.forall_mem_append.mpr ⟨fun t ht => ?_, hts⟩) _
      apply hs.trackers t
      refine MemSet.mem_trackers.mpr ⟨a, ?_, ht⟩
      rw [hareas]
      exact List.mem_append_cons_self
    · have hstack : 0x70000000 % pageSize = 0 ∧ 0x10000000 % pageSize = 0 := by decide
      refine hs.install ?_ hts _ _
      exact hstack
  · obtain ⟨frames, -, -, hr⟩ := frameAlloc_cases hstack h
    rw [hr]
    exact hs.install ⟨hvaddr, Nat.mul_mod_left _ _⟩ (pageTrackers_aligned hvaddr frames) _ _

/-! ## Page faults -/

theorem Aligned.covered (hs : s.Aligned) {env : FaultEnv} {r : FaultResult}
    (h : MonkeyOS.userCowInt s.memset s.pt env vaddr = some r) :
    Aligned { s with memset := r.memset, pt := r.pt } := by
  obtain ⟨pre, a, post, hareas, -, hfaulted⟩ := userCowInt_faulted h
  have hold : ∀ t ∈ a.mtrackers, t.vaddr % pageSize = 0 := by
    intro t ht
    apply hs.trackers t
    refine MemSet.mem_trackers.mpr ⟨a, ?_, ht⟩
    rw [hareas]
    exact List.mem_append_cons_self
  cases hfaulted with
  | segv => exact hs.retrack hareas hold _
  | remapped ht hvaddr hmtype hcount => exact hs.retrack hareas hold _
  | @copied tpre tpost t dst hsplit hvaddr hmtype hcount hframe =>
    refine hs.retrack hareas (fun u hu => ?_) _
    rw [hsplit] at hold
    rcases List.mem_append.mp hu with hu | hu
    · exact hold u (List.mem_append_left _ hu)
    · rcases List.mem_cons.mp hu with rfl | hu
      · exact hold t List.mem_append_cons_self
      · exact hold u (List.mem_append_right _ (List.mem_cons_of_mem _ hu))
  | filled hnone hframe hsource =>
    refine hs.retrack hareas (List.forall_mem_append.mpr ⟨hold, ?_⟩) _
    intro u hu
    rw [List.mem_singleton.mp hu]
    exact floor_mod vaddr

/-- **A page fault** works on the page of the address, wherever the address is. -/
theorem Aligned.fault (hs : s.Aligned) (env : FaultAnswers) (vaddr : Nat) :
    (s.userCowInt env vaddr).space.Aligned := by
  unfold AddrSpace.userCowInt
  split
  · rename_i hfault
    exact hs.covered hfault
  apply missed_keeps (P := AddrSpace.Aligned)
    (fun hs _ _ h => Aligned.frameAlloc hs (floor_mod vaddr) h) hs
  · unfold exited
    split
    · refine ⟨fun a ha => ?_, fun x hx => ?_, hs.shms⟩
      · cases ha
      · cases hx
    · exact hs
  · exact fun _ hs => ⟨hs.areas, hs.trackers, hs.shms⟩

theorem Aligned.touch (hs : s.Aligned) (touched : List (Nat × FaultEnv)) :
    (s.touch touched).Aligned := by
  induction touched generalizing s with
  | nil => exact hs
  | cons x rest ih =>
    unfold AddrSpace.touch
    split
    · rename_i hfault
      exact ih (hs.covered hfault)
    · exact ih hs

/-! ## `sys_mmap` -/

/-- The address is found on a page boundary, or it is the one that was asked for. -/
theorem Aligned.mmapAddr_iff (hs : s.Aligned) (start : Nat) :
    s.mmapAddr start % pageSize = 0 ↔ start % pageSize = 0 := by
  unfold AddrSpace.mmapAddr
  split
  · rename_i hzero
    refine iff_of_true ?_ (by rw [hzero]; rfl)
    split
    · exact getLastFreeAddr_mod hs.areas hs.shms
    · decide
  · exact Iff.rfl

theorem Aligned.mapNew (hs : s.Aligned) {file : Option Nat} {len : Nat}
    (haddr : addr % pageSize = 0) (hlen : len % pageSize = 0)
    (h : s.mapNew env args file addr len = some t) : t.Aligned := by
  unfold AddrSpace.mapNew at h
  split at h
  · cases file with
    | some file =>
      obtain ⟨r, hr, rfl⟩ := Option.map_eq_some_iff.mp h
      rw [mapFrames_cases (by decide) hr]
      exact hs.install ⟨haddr, hlen⟩ (pageTrackers_aligned haddr _) _ _
    | none =>
      obtain ⟨r, hr, rfl⟩ := Option.map_eq_some_iff.mp h
      have hr := hs.frameAlloc haddr hr
      exact ⟨hr.areas, hr.trackers, hr.shms⟩
  · cases file with
    | some file =>
      obtain ⟨r, hr, rfl⟩ := Option.map_eq_some_iff.mp h
      exact hs.frameAlloc haddr hr
    | none =>
      cases h
      have ht := hs.install (a := ⟨.mmap, [], none, 0, addr, len⟩) ⟨haddr, hlen⟩
        (fun t ht => by cases ht) addr urwx
      exact ⟨ht.areas, ht.trackers, ht.shms⟩

theorem mapNew_eq_none_iff (env : MmapEnv) (args : MmapArgs) (addr : Nat) :
    s.mapNew env args (args.file env) addr args.alignedLen = none ↔ NoFrames env args := by
  cases hfile : args.file env with
  | some file =>
    have hiff := s.mapNew_isSome_iff env args file addr
    unfold NoFrames
    rw [hfile, ← hiff]
    simp
  | none =>
    unfold NoFrames AddrSpace.mapNew Frames
    rw [hfile]
    cases hshared : args.shared with
    | true => simp [AddrSpace.frameAlloc, mapFrames]
    | false => simp

/-- Room is made on page boundaries. -/
theorem Aligned.reserve_iff (hs : s.Aligned) {fixed : Bool} (hle : addr ≤ stop)
    (h : s.reserve fixed addr stop = some t) :
    t.Aligned ↔ (fixed = true → s.memset.CutsEven addr stop) := by
  have hfree : s.memset.overlapping addr stop = false → s.memset.CutsEven addr stop := by
    intro hover a ha
    unfold MemSet.overlapping at hover
    have hmiss := List.any_eq_false.mp hover a ha
    rw [MemArea.overlapping_iff] at hmiss
    omega
  unfold AddrSpace.reserve at h
  split at h
  · rename_i hfixed
    rw [hfixed]
    cases h
    split
    · rw [hs.subArea_iff hle]
      simp
    · rename_i hover
      exact iff_of_true hs (fun _ => hfree (by simpa using hover))
  · rename_i hfixed
    split at h
    · cases h
    · cases h
      exact iff_of_true hs (fun hf => absurd hf hfixed)

section Mmap

variable {env : MmapEnv} {args : MmapArgs}

/-! ### What a call maps and leaves -/

theorem sysMmap_of_empty (hlen : args.alignedLen = 0) :
    s.maps (.mmap env args) = [] ∧ s.after (.mmap env args) = s := by
  unfold maps after sysMmapMaps sysMmap
  dsimp only
  rw [if_pos hlen, if_pos hlen]
  exact ⟨rfl, rfl⟩

variable (hlen : args.alignedLen ≠ 0)
  (hwrap : s.mmapAddr args.start + args.alignedLen < 2 ^ 64)

include hlen hwrap

theorem sysMmap_of_refused (hreserve : s.reserve args.fixed (s.mmapAddr args.start)
    (s.mmapAddr args.start + args.alignedLen) = none) :
    s.maps (.mmap env args) = [] ∧ s.after (.mmap env args) = s := by
  unfold maps after sysMmapMaps sysMmap
  dsimp only
  rw [if_neg hlen, if_neg hlen, Nat.mod_eq_of_lt hwrap, hreserve]
  exact ⟨rfl, rfl⟩

variable {s' : AddrSpace} (hreserve : s.reserve args.fixed (s.mmapAddr args.start)
  (s.mmapAddr args.start + args.alignedLen) = some s')

include hreserve

theorem sysMmap_of_no_frames
    (hnew : s'.mapNew env args (args.file env) (s.mmapAddr args.start) args.alignedLen = none) :
    s.maps (.mmap env args) = [] ∧ s.after (.mmap env args) = s' := by
  unfold maps after sysMmapMaps sysMmap
  dsimp only
  rw [if_neg hlen, if_neg hlen, Nat.mod_eq_of_lt hwrap, hreserve]
  dsimp only
  rw [hnew]
  exact ⟨rfl, rfl⟩

variable {t : AddrSpace}
  (hnew : s'.mapNew env args (args.file env) (s.mmapAddr args.start) args.alignedLen = some t)

include hnew

theorem sysMmap_of_mapped :
    s.maps (.mmap env args)
        = mapNewMaps args (args.file env) (s.mmapAddr args.start) args.alignedLen
          ++ (if (args.file env).isNone then [] else env.touched.map (fun x => floor x.1))
      ∧ s.after (.mmap env args)
        = if (args.file env).isNone then t
          else if env.readErr.isNone then t.touch env.touched
          else (t.touch env.touched).subArea (s.mmapAddr args.start)
            (s.mmapAddr args.start + args.alignedLen) := by
  unfold maps after sysMmapMaps sysMmap
  dsimp only
  rw [if_neg hlen, if_neg hlen, Nat.mod_eq_of_lt hwrap, hreserve]
  dsimp only
  rw [hnew]
  refine ⟨rfl, ?_⟩
  dsimp only
  split
  · rfl
  cases env.readErr with
  | none => rfl
  | some err => rfl

/-- Off the boundaries the new area breaks them, or its first page does. -/
theorem not_keepsAligned_of_mapped (haddr : s.mmapAddr args.start % pageSize ≠ 0) :
    ¬ s.KeepsAligned (.mmap env args) := by
  obtain ⟨hmaps, hafter⟩ := sysMmap_of_mapped hlen hwrap hreserve hnew
  intro h
  by_cases hpages : (args.shared || (args.file env).isSome) = true
  · apply haddr
    apply h.maps
    rw [hmaps]
    apply List.mem_append_left
    unfold mapNewMaps
    rw [if_pos hpages]
    exact mem_pagesOf.mpr ⟨0, Nat.pos_of_ne_zero (divCeil_ne_zero hlen), by omega⟩
  · -- private and anonymous: no page yet, but the area is there
    rw [Bool.or_eq_true, not_or, Bool.not_eq_true, Option.not_isSome_iff_eq_none] at hpages
    obtain ⟨hshared, hfile⟩ := hpages
    have harea : (⟨.mmap, [], none, 0, s.mmapAddr args.start, args.alignedLen⟩ : MemArea)
        ∈ t.memset.areas := by
      unfold AddrSpace.mapNew at hnew
      rw [hshared, hfile] at hnew
      cases hnew
      exact List.mem_append_cons_self
    have haligned := h.aligned
    rw [hafter, hfile] at haligned
    exact haddr (haligned.areas _ harea).1

/-- On the boundaries nothing happens off them. -/
theorem keepsAligned_of_mapped (haligned : s'.Aligned)
    (haddr : s.mmapAddr args.start % pageSize = 0) : s.KeepsAligned (.mmap env args) := by
  obtain ⟨hmaps, hafter⟩ := sysMmap_of_mapped hlen hwrap hreserve hnew
  refine ⟨?_, ?_⟩
  · rw [hmaps]
    intro v hv
    rcases List.mem_append.mp hv with hv | hv
    · unfold mapNewMaps at hv
      split at hv
      · obtain ⟨i, -, rfl⟩ := mem_pagesOf.mp hv
        rw [Nat.add_mul_mod_self_right]
        exact haddr
      · cases hv
    · split at hv
      · cases hv
      · obtain ⟨x, -, rfl⟩ := List.mem_map.mp hv
        exact floor_mod x.1
  · have ht := haligned.mapNew haddr args.alignedLen_mod hnew
    have htouch := ht.touch env.touched
    rw [hafter]
    split
    · exact ht
    split
    · exact htouch
    · refine (htouch.subArea_iff (Nat.le_add_right _ _)).mpr (fun a _ => ⟨fun _ _ => haddr, ?_⟩)
      exact fun _ _ => add_mod_pageSize haddr args.alignedLen_mod

end Mmap

/-- **`sys_mmap` on page boundaries.** -/
theorem Aligned.sysMmap_iff (hs : s.Aligned)
    (hwrap : s.mmapAddr args.start + args.alignedLen < 2 ^ 64) :
    s.KeepsAligned (.mmap env args) ↔ s.OnBoundaries (.mmap env args) := by
  have hnothing : s.maps (.mmap env args) = [] ∧ s.after (.mmap env args) = s →
      s.KeepsAligned (.mmap env args) := by
    intro h
    refine ⟨?_, by rw [h.2]; exact hs⟩
    rw [h.1]
    exact fun v hv => absurd hv List.not_mem_nil
  have hover : s.Overlaps args ↔ s.memset.overlapping (s.mmapAddr args.start)
      (s.mmapAddr args.start + args.alignedLen) = true := by
    unfold Overlaps
    rw [Nat.mod_eq_of_lt hwrap]
  by_cases hlen : args.alignedLen = 0
  · exact iff_of_true (hnothing (sysMmap_of_empty hlen)) (.inr (.inl hlen))
  cases hreserve : s.reserve args.fixed (s.mmapAddr args.start)
      (s.mmapAddr args.start + args.alignedLen) with
  | none =>
    -- `EINVAL`
    have hrefused : args.fixed = false ∧ s.Overlaps args := by
      rw [hover]
      exact reserve_eq_none_iff.mp hreserve
    exact iff_of_true (hnothing (sysMmap_of_refused hlen hwrap hreserve))
      (.inr (.inr (.inl hrefused)))
  | some s' =>
    have hroom : ¬ (args.fixed = false ∧ s.Overlaps args) := by
      rw [hover, ← reserve_eq_none_iff, hreserve]
      exact Option.some_ne_none s'
    have haligned := hs.reserve_iff (Nat.le_add_right _ _) hreserve
    have haddr := hs.mmapAddr_iff args.start
    have hframes := s'.mapNew_eq_none_iff env args (s.mmapAddr args.start)
    -- an aligned range cuts on boundaries
    have heven : args.start % pageSize = 0 → s'.Aligned := by
      intro hstart
      refine haligned.mpr (fun _ a _ => ⟨fun _ _ => haddr.mpr hstart, fun _ _ => ?_⟩)
      exact add_mod_pageSize (haddr.mpr hstart) args.alignedLen_mod
    cases hnew : s'.mapNew env args (args.file env) (s.mmapAddr args.start) args.alignedLen with
    | none =>
      obtain ⟨hmaps, hafter⟩ := sysMmap_of_no_frames hlen hwrap hreserve hnew
      constructor
      · intro h
        have hs' := h.aligned
        rw [hafter] at hs'
        exact .inr (.inr (.inr ⟨hframes.mp hnew, haligned.mp hs'⟩))
      · intro h
        refine ⟨by rw [hmaps]; exact fun v hv => absurd hv List.not_mem_nil, ?_⟩
        rw [hafter]
        rcases h with hstart | hempty | hrefused | ⟨-, hcut⟩
        · exact heven hstart
        · exact absurd hempty hlen
        · exact absurd hrefused hroom
        · exact haligned.mpr hcut
    | some t =>
      have hsome : ¬ NoFrames env args := by
        intro h
        rw [hframes.mpr h] at hnew
        cases hnew
      by_cases hstart : args.start % pageSize = 0
      · exact iff_of_true (keepsAligned_of_mapped hlen hwrap hreserve hnew (heven hstart)
          (haddr.mpr hstart)) (.inl hstart)
      refine iff_of_false (not_keepsAligned_of_mapped hlen hwrap hreserve hnew
        (fun h => hstart (haddr.mp h))) ?_
      rintro (h | hempty | hrefused | ⟨hnone, -⟩)
      · exact hstart h
      · exact hlen hempty
      · exact hroom hrefused
      · exact hsome hnone

/-! ## Sequences of calls -/

theorem Aligned.keepsAligned_iff (hs : s.Aligned) {call : PageCall} (hwrap : s.NoWrap call) :
    s.KeepsAligned call ↔ s.OnBoundaries call := by
  cases call with
  | mmap env args => exact hs.sysMmap_iff hwrap
  | munmap start len =>
    have hafter : s.after (.munmap start len) = s.subArea start (start + len) := by
      show s.subArea start ((start + len) % 2 ^ 64) = _
      rw [Nat.mod_eq_of_lt hwrap]
    have hiff := hs.subArea_iff (Nat.le_add_right start len)
    rw [← hafter] at hiff
    exact ⟨fun h => hiff.mp h.aligned,
      fun h => ⟨fun v hv => absurd hv List.not_mem_nil, hiff.mpr h⟩⟩
  | fault env vaddr =>
    refine iff_of_true ⟨?_, hs.fault env vaddr⟩ trivial
    intro v hv
    unfold maps at hv
    dsimp only at hv
    split at hv
    · obtain ⟨i, -, rfl⟩ := mem_pagesOf.mp hv
      rw [Nat.add_mul_mod_self_right]
      exact floor_mod vaddr
    · rw [List.mem_singleton.mp hv]
      exact floor_mod vaddr

end AddrSpace

/-- A call whose range does not wrap. -/
def PageStep (s : AddrSpace) (call : PageCall) (t : AddrSpace) : Prop :=
  s.NoWrap call ∧ t = s.after call

/-- **Page alignment.** From a state on page boundaries, over every sequence of `sys_mmap`,
`sys_munmap` and page faults, areas and trackers stay on page boundaries and `map` is called with no
other address, exactly if every call is given boundaries. -/
theorem keepsAligned_throughout_iff {s : AddrSpace} (hs : s.Aligned) (calls : List PageCall) :
    Throughout PageStep (fun s call => s.NoWrap call → s.KeepsAligned call) s calls
      ↔ Throughout PageStep (fun s call => s.NoWrap call → s.OnBoundaries call) s calls := by
  apply throughout_iff (I := AddrSpace.Aligned)
  · intro s call hs
    exact imp_congr_right (fun hwrap => hs.keepsAligned_iff hwrap)
  · intro s call t hs hcall hstep
    rw [hstep.2]
    exact ((hs.keepsAligned_iff hstep.1).mpr (hcall hstep.1)).aligned
  · exact hs

theorem AddrSpace.stackOnly_aligned (pt : PageTable) : (AddrSpace.stackOnly [] pt).Aligned := by
  refine ⟨fun a ha => ?_, fun t ht => ?_, fun g hg => ?_⟩
  · rw [List.mem_singleton.mp ha]
    exact ⟨by decide, by decide⟩
  · cases ht
  · cases hg

/-- Two pages, and the second one given back. -/
theorem keepsAligned_throughout_iff_two_pages :
    Throughout PageStep (fun s call => s.NoWrap call → s.KeepsAligned call)
      (.stackOnly [] .empty)
      [.mmap .bare ⟨0x200000000, 0x2000, 3, 0x22, 2 ^ 64 - 1, 0⟩, .munmap 0x200001000 0x1000] := by
  apply (keepsAligned_throughout_iff (AddrSpace.stackOnly_aligned .empty) _).mpr
  rw [throughout_cons]
  refine ⟨fun _ => .inl (by decide), fun t _ => ?_⟩
  rw [throughout_cons]
  refine ⟨fun _ a _ => ⟨fun _ _ => by decide, fun _ _ => by decide⟩, fun t _ => ?_⟩
  exact fun bs _ _ _ h => by simp at h

/-- `mmap(0x200000001, 4096, .., MAP_PRIVATE | MAP_ANONYMOUS, -1, 0)` is granted as it is, and leaves
`0x200001001` as the last free address: the next `mmap(NULL, 4096, .., MAP_SHARED | MAP_ANONYMOUS,
-1, 0)` calls `map` with it. -/
theorem unaligned_mmap_panics :
    ∃ t, Run PageStep (.stackOnly [] .empty)
        [.mmap .bare ⟨0x200000001, 0x1000, 3, 0x22, 2 ^ 64 - 1, 0⟩] t
      ∧ t.spans = [(0x70000000, 0x80000000), (0x200000001, 0x200001001)]
      ∧ ¬ t.Aligned
      ∧ 0x200001001 ∈ t.maps (.mmap (AddrSpace.granting 0x80000000).first
        ⟨0, 0x1000, 3, 0x21, 2 ^ 64 - 1, 0⟩) := by
  refine ⟨_, .cons ⟨?_, rfl⟩ (.nil _), ?_, fun h => ?_, ?_⟩
  · show _ < _
    decide
  · decide +kernel
  · have harea := h.areas ⟨.mmap, [], none, 0, 0x200000001, 0x1000⟩ (by decide +kernel)
    exact absurd harea.1 (by decide)
  · decide +kernel

end MonkeyOS
