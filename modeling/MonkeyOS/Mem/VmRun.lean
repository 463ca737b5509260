import MonkeyOS.Lib.Run
import MonkeyOS.Mem.Mmap
import MonkeyOS.Mem.PageTree

/-!
# MonkeyOS — runs of `mmap`, `munmap` and page faults

Any sequence of calls from an empty address space, on one of the targets. `vm_run_no_stale` says of
the clean ones that the page table and the trackers agree, and that the page table is one the
hardware has:

* `VmCall.Clean` — a new mapping ends at `userEnd` at the latest, and what a call takes out splits
  no area with a resident page from the range's start on;
* `Arch.calls`, `Shows.calls` — the calls of `map_page` and `unmap_page` on a tree of tables, which
  then shows the partial map that the same calls make (`PageTable.Built`);
* `munmap_leaves_stale_entry` — a run that is not clean.

Above `userEnd` the partial map is not the hardware's: an index of a table has nine bits, so two
addresses can share an entry.
-/

namespace MonkeyOS

open Lib

/-- What is mapped is a frame of physical memory. -/
def PtCall.InMemory : PtCall → Prop
  | .map _ frame _ => frame < 2 ^ 48
  | .unmap _ => True

/-! ## The calls on a tree of tables -/

namespace Polyhal

open Radix

/-- A frame by its number, where `pt` has its address. -/
def numbered (pt : PageTable) : PageTable :=
  fun v => (pt v).map (fun pte => ⟨pte.frame / pageSize, pte.flags⟩)

/-- A call on the table with root `root`; `none` is a panic. -/
def Arch.call (a : Arch) (root : PhysAddr) (m : Mem) : PtCall → Option Mem
  | .map page frame flags => a.mapPage root page (frameAddr (frame / pageSize)) (ofUser flags) m
  | .unmap page => some (a.unmapPage root page m)

def Arch.calls (a : Arch) (root : PhysAddr) (m : Mem) (calls : List PtCall) : Option Mem :=
  calls.foldlM (a.call root) m

theorem numbered_mapPage (pt : PageTable) (v frame : Nat) (flags : MonkeyOS.MappingFlags) :
    numbered (pt.mapPage v frame flags) = (numbered pt).mapPage v (frame / pageSize) flags := by
  funext u
  unfold numbered PageTable.mapPage
  split <;> rfl

theorem numbered_unmapPage (pt : PageTable) (v : Nat) :
    numbered (pt.unmapPage v) = (numbered pt).unmapPage v := by
  funext u
  unfold numbered PageTable.unmapPage
  split <;> rfl

theorem floor_of_isPage {top v : Nat} (h : PageTable.IsPage top v) : floor v = v :=
  Nat.div_mul_cancel (Nat.dvd_of_mod_eq_zero h.2)

section Calls

variable {t : Target} {m m' : Mem} {r : PhysAddr} {pt : PageTable} {touched : List Nat}

/-- One call: `map_page` and `unmap_page` do to the tree what they do to the map. -/
theorem Shows.call (h : Shows t m r ⟨numbered pt, touched⟩)
    (howned : Owned t.arch.format Good t.arch.scan m t.arch.rootLevel r) {c : PtCall}
    (hpage : PageTable.IsPage t.arch.userEnd c.page) (hmem : c.InMemory)
    (hcall : t.arch.call r m c = some m') :
    Owned t.arch.format Good t.arch.scan m' t.arch.rootLevel r
      ∧ ∃ touched', Shows t m' r ⟨numbered (pt.call c), touched'⟩ := by
  have hfloor := floor_of_isPage hpage
  cases c with
  | map page frame flags =>
    have hframe : frame / pageSize < 2 ^ 36 := Nat.div_lt_of_lt_mul hmem
    obtain ⟨hconfined, hshows⟩ := mapPage_shows h howned hpage.1 hframe hcall
    refine ⟨hconfined.owned howned, page / 2 ^ 21 :: touched, ?_⟩
    show Shows t m' r ⟨numbered (pt.mapPage page frame flags), _⟩
    rw [numbered_mapPage]
    unfold Space.mapPage at hshows
    rw [hfloor] at hshows
    exact hshows
  | unmap page =>
    obtain rfl := Option.some.inj hcall
    obtain ⟨hconfined, hshows⟩ := unmapPage_shows h howned hpage.1
    refine ⟨hconfined.owned howned, touched, ?_⟩
    show Shows t _ r ⟨numbered (pt.unmapPage page), _⟩
    rw [numbered_unmapPage]
    unfold Space.unmapPage at hshows
    rw [hfloor] at hshows
    exact hshows

/-- A tree that shows a partial map still does after the same calls on both. -/
theorem Shows.calls (h : Shows t m r ⟨numbered pt, touched⟩)
    (howned : Owned t.arch.format Good t.arch.scan m t.arch.rootLevel r) {calls : List PtCall}
    (hcalls : ∀ c ∈ calls, PageTable.IsPage t.arch.userEnd c.page) (hmem : ∀ c ∈ calls, c.InMemory)
    (hrun : t.arch.calls r m calls = some m') :
    ∃ touched', Shows t m' r ⟨numbered (calls.foldl PageTable.call pt), touched'⟩ := by
  induction calls generalizing m pt touched with
  | nil =>
    obtain rfl := Option.some.inj hrun
    exact ⟨touched, h⟩
  | cons c calls ih =>
    unfold Arch.calls at hrun
    rw [List.foldlM_cons] at hrun
    obtain ⟨m₁, hcall, hrest⟩ := Option.bind_eq_some_iff.mp hrun
    obtain ⟨howned₁, touched₁, hshows⟩ := h.call howned (hcalls c List.mem_cons_self)
      (hmem c List.mem_cons_self) hcall
    exact ih hshows howned₁ (fun d hd => hcalls d (List.mem_cons_of_mem _ hd))
      (fun d hd => hmem d (List.mem_cons_of_mem _ hd)) hrest

end Calls

end Polyhal

/-! ## Runs -/

inductive VmCall where
  | mmap (env : MmapEnv) (args : MmapArgs)
  | munmap (start len : Nat)
  | fault (env : FaultEnv) (vaddr : Nat)

namespace VmCall

/-- Page-aligned arguments. -/
def Allowed : VmCall → Prop
  | .mmap _ args => args.start % pageSize = 0 ∧ args.off % pageSize = 0
  | .munmap start len => start % pageSize = 0 ∧ len % pageSize = 0
  | .fault _ _ => True

/-- What is mapped ends at `top` at the latest, and what is taken out splits no area in a way that
`sub` gets wrong. -/
def Clean (top : Nat) (s : AddrSpace) : VmCall → Prop
  | .mmap _ args =>
    args.alignedLen ≠ 0 →
      s.CleanRange args.fixed (s.mmapAddr args.start) args.alignedLen
        ∧ s.mmapAddr args.start + args.alignedLen ≤ top
  | .munmap start len => s.CleanRange true start len
  | .fault _ _ => True

end VmCall

/-- A call from user space. A fault is one at an address some area covers. -/
inductive VmStep : AddrSpace → VmCall → AddrSpace → Prop where
  | mmap (s : AddrSpace) (env : MmapEnv) (args : MmapArgs) (h : (VmCall.mmap env args).Allowed) :
      VmStep s (.mmap env args) (s.sysMmap env args).2
  | munmap (s : AddrSpace) (start len : Nat) (h : (VmCall.munmap start len).Allowed) :
      VmStep s (.munmap start len) (s.sysMunmap start len)
  | fault (s : AddrSpace) (env : FaultEnv) (vaddr : Nat) (r : FaultResult)
      (h : userCowInt s.memset s.pt env vaddr = some r) :
      VmStep s (.fault env vaddr) { s with memset := r.memset, pt := r.pt }

/-- A call that meets the condition, on a target whose user addresses end at `top`. -/
def CleanStep (top : Nat) (s : AddrSpace) (c : VmCall) (t : AddrSpace) : Prop :=
  VmStep s c t ∧ c.Clean top s

/-- What one call preserves. -/
theorem CleanStep.inv {top : Nat} {s t : AddrSpace} {c : VmCall} (hinv : s.Inv top)
    (hstep : CleanStep top s c t) : t.Inv top := by
  obtain ⟨hstep, hclean⟩ := hstep
  cases hstep with
  | mmap env args h =>
    exact AddrSpace.sysMmap_inv hinv h.1 (fun hlen => (hclean hlen).1) (fun hlen => (hclean hlen).2)
  | munmap start len h => exact AddrSpace.sysMunmap_inv hinv h.1 h.2 hclean
  | fault env vaddr r h => exact (hinv.fault h).1

theorem AddrSpace.inv_empty (top : Nat) : AddrSpace.empty.Inv top := by
  refine ⟨.nil, ?_, rfl, ?_, .empty top⟩
  · intro v _ f
    constructor
    · rintro ⟨fl, hfl⟩
      cases hfl
    · rintro ⟨t, ht, -⟩
      cases ht
  · exact fun a ha => by cases ha

/-- **No stale translations.** In every run whose calls are clean, the page table maps a page
exactly when some area has a tracker for it, and then to that tracker's frame. It comes from calls
about pages below `userEnd`, so a fresh table of the hardware on which the same calls are made
translates every user address by it. -/
theorem vm_run_no_stale (t : Polyhal.Target) {calls : List VmCall} {s : AddrSpace}
    (hrun : Run (CleanStep t.arch.userEnd) AddrSpace.empty calls s) :
    (∀ v f, (∃ flags, s.pt v = some ⟨f, flags⟩)
        ↔ ∃ a ∈ s.memset.areas, ∃ x ∈ a.mtrackers, x.vaddr = v ∧ x.tracker = f)
      ∧ ∃ pages : List PtCall, (∀ c ∈ pages, c.page < t.arch.userEnd)
        ∧ s.pt = pages.foldl PageTable.call .empty
        ∧ ∀ (root : Polyhal.PhysAddr) (m m' : Polyhal.Mem),
          Radix.Owned t.arch.format Polyhal.Good t.arch.scan m t.arch.rootLevel root →
          Radix.Bare t.arch.format t.arch.scan m.cell t.arch.rootLevel root →
          (∀ c ∈ pages, c.InMemory) → t.arch.calls root m pages = some m' →
          ∃ touched, ∀ v < t.arch.userEnd, t.arch.translate root v m'
            = (Polyhal.Space.mk (Polyhal.numbered s.pt) touched).translate t v := by
  -- an invariant of every clean run; the rest is read off it
  have hinv : s.Inv t.arch.userEnd := hrun.invariant (I := AddrSpace.Inv t.arch.userEnd)
    (fun _ _ _ hinv hstep => hstep.inv hinv) (AddrSpace.inv_empty _)
  refine ⟨fun v f => ?_, ?_⟩
  · rw [hinv.agrees v trivial f]
    constructor
    · rintro ⟨x, hx, hv⟩
      obtain ⟨a, ha, hxa⟩ := MemSet.mem_trackers.mp hx
      exact ⟨a, ha, x, hxa, hv⟩
    · rintro ⟨a, ha, x, hxa, hv⟩
      exact ⟨x, MemSet.mem_trackers.mpr ⟨a, ha, hxa⟩, hv⟩
  · obtain ⟨pages, hpages, hpt⟩ := hinv.built
    refine ⟨pages, fun c hc => (hpages c hc).1, hpt, fun root m m' howned hbare hmem hcalls => ?_⟩
    -- the map and the tree start empty and follow the same calls
    have hfresh : Polyhal.Shows t m root ⟨Polyhal.numbered .empty, []⟩ := .of_bare hbare
    obtain ⟨touched, hshows⟩ := hfresh.calls howned hpages hmem hcalls
    rw [← hpt] at hshows
    exact ⟨touched, fun v hv => hshows.translate hv⟩

/-- A fault handled with the given frame. -/
def FaultEnv.giving (frame : Nat) : FaultEnv := ⟨fun _ => 1, 100, some frame⟩

/-- Two pages of anonymous memory, the first one touched and the second one unmapped. -/
theorem vm_run_no_stale_two_pages :
    ∃ s : AddrSpace,
      Run (CleanStep Polyhal.Target.riscv64.arch.userEnd) AddrSpace.empty
        [.mmap .bare ⟨0, 0x2000, 3, 0x22, 2 ^ 64 - 1, 0⟩, .fault (.giving 0x80000000) 0x200000010,
          .munmap 0x200001000 0x1000] s
      ∧ ∃ flags, s.pt 0x200000000 = some ⟨0x80000000, flags⟩ := by
  have hrun : Run (CleanStep Polyhal.Target.riscv64.arch.userEnd) AddrSpace.empty
      [.mmap .bare ⟨0, 0x2000, 3, 0x22, 2 ^ 64 - 1, 0⟩, .fault (.giving 0x80000000) 0x200000010,
        .munmap 0x200001000 0x1000] _ :=
    .cons ⟨.mmap _ _ _ ⟨rfl, rfl⟩,
        fun _ => ⟨⟨by decide +kernel, fun h => by cases h⟩, by decide +kernel⟩⟩
      (.cons ⟨.fault _ _ _ _ rfl, trivial⟩
        (.cons ⟨.munmap _ _ _ ⟨rfl, rfl⟩, by decide, fun _ a ha hsplits => by
          rw [List.mem_singleton.mp ha] at hsplits
          exact absurd hsplits.stop (by decide +kernel)⟩ (.nil _)))
  refine ⟨_, hrun, ?_⟩
  refine ((vm_run_no_stale .riscv64 hrun).1 0x200000000 0x80000000).mpr ?_
  exact ⟨_, List.mem_cons_self, _, List.mem_cons_self, by decide +kernel, by decide +kernel⟩

/-- Three pages of anonymous memory, the last one touched and the middle one unmapped: the
last page loses its tracker, and its entry stays. -/
theorem munmap_leaves_stale_entry :
    ¬ ∀ (calls : List VmCall) (s : AddrSpace), Run VmStep AddrSpace.empty calls s → ∀ v f,
      (∃ flags, s.pt v = some ⟨f, flags⟩)
        ↔ ∃ a ∈ s.memset.areas, ∃ t ∈ a.mtrackers, t.vaddr = v ∧ t.tracker = f := by
  intro hall
  have hrun : Run VmStep AddrSpace.empty
      [.mmap .bare ⟨0, 0x3000, 3, 0x22, 2 ^ 64 - 1, 0⟩, .fault (.giving 0x80000000) 0x200002000,
        .munmap 0x200001000 0x1000] _ :=
    .cons (.mmap _ _ _ ⟨rfl, rfl⟩) (.cons (.fault _ _ _ _ rfl) (.cons (.munmap _ _ _ ⟨rfl, rfl⟩)
      (.nil _)))
  obtain ⟨a, ha, t, ht, -⟩ := (hall _ _ hrun 0x200002000 0x80000000).mp ⟨urw, by decide +kernel⟩
  have hempty : t ∈ ([] : List MapTrack) := by
    rcases List.mem_cons.mp ha with rfl | ha
    · exact ht
    · rw [List.mem_singleton.mp ha] at ht
      exact ht
  cases hempty

end MonkeyOS
