import MonkeyOS.Mem.Fault

/-!
# MonkeyOS — `mmap`, `munmap` and the page table (`kernel/src/syscall/mm.rs`)

An address space is the areas of a process with its page table. `sys_mmap` takes the range
out of the areas when the address is fixed, adds an area for the kind of mapping, and reads
the file into it, faulting where a page is not writable. `sys_munmap` takes a range out.

* `PtCall`, `PageTable.Built` — the calls of `map_page` and `unmap_page` a page table comes from;
* `AddrSpace.Inv` — the page table maps exactly the tracked pages, to their frames, and everything
  is below an address `top`;
* `sysMmap_inv`, `sysMunmap_inv`, `Inv.fault` — each call keeps it, provided a new mapping ends at
  `top` at the latest, and the range a call takes out splits no area with a resident page from the
  range's start on (`CleanRange`).

What the frame allocator and the file system answer is a parameter of each call. Sums of an
address and a length wrap at `2^64`.
-/

namespace MonkeyOS

open Lib

structure Shm where
  start : Nat
  size : Nat
  deriving DecidableEq

structure AddrSpace where
  memset : MemSet
  pt : PageTable
  shms : List Shm

def AddrSpace.empty : AddrSpace := ⟨⟨[]⟩, .empty, []⟩

structure MmapArgs where
  start : Nat
  len : Nat
  prot : Nat
  flags : Nat
  fd : Nat
  off : Nat
  deriving DecidableEq

namespace MmapArgs

/-- `flags.contains(MapFlags::MAP_SHARED)`. -/
def shared (args : MmapArgs) : Bool := args.flags.testBit 0

def fixed (args : MmapArgs) : Bool := args.flags.testBit 4

def anonymous (args : MmapArgs) : Bool := args.flags.testBit 5

/-- `MmapProt` into `MappingFlags`. -/
def protFlags (args : MmapArgs) : MappingFlags :=
  ⟨args.prot.testBit 0, args.prot.testBit 1, args.prot.testBit 2⟩

def alignedLen (args : MmapArgs) : Nat := alignup args.len pageSize % 2 ^ 64

end MmapArgs

/-- What `sys_mmap` asks of the rest of the kernel. -/
structure MmapEnv where
  getFd : Nat → Option Nat
  /-- `frame_alloc_much(count)`: the first of `count` contiguous frames -/
  frameAllocMuch : Nat → Option Nat
  /-- the frames the segmented fallback of `frame_alloc` gathers -/
  segments : (count : Nat) → Option { frames : List Nat // frames.length = count }
  /-- the addresses at which reading the file into the mapping faults -/
  touched : List (Nat × FaultEnv)
  /-- the error of `file.readat`, if any -/
  readErr : Option Errno

/-- A kernel with no open file, whose allocator refuses to give several frames at once. -/
def MmapEnv.bare : MmapEnv := ⟨fun _ => none, fun _ => none, fun _ => none, [], none⟩

/-- The file behind a mapping. -/
def MmapArgs.file (args : MmapArgs) (env : MmapEnv) : Option Nat :=
  if args.fd = 2 ^ 64 - 1 ∨ args.anonymous then none else env.getFd args.fd

/-! ## The functions of the task -/

def contiguous (ppn count : Nat) : List Nat := (List.range count).map (fun i => ppn + i * pageSize)

/-- One tracker for each frame; at address `0` they are not placed. -/
def pageTrackers (vaddr : Nat) (frames : List Nat) : List MapTrack :=
  frames.mapIdx (fun i frame => ⟨if vaddr = 0 then vaddr else vaddr + i * pageSize, frame, 0⟩)

/-- `for i in 0..count`: map page `i` from `vaddr` on to frame `i` from `paddr` on. -/
def PageTable.mapRange (pt : PageTable) (vaddr paddr count : Nat) (flags : MappingFlags) :
    PageTable :=
  (List.range count).foldl
    (fun pt i => pt.mapPage (vaddr + i * pageSize) (paddr + i * pageSize) flags) pt

/-- The flags `frame_alloc` maps with. -/
def MemType.allocFlags : MemType → MappingFlags
  | .shareFile => urw
  | _ => urwx

namespace AddrSpace

def subArea (s : AddrSpace) (start stop : Nat) : AddrSpace :=
  { s with memset := s.memset.subArea start stop, pt := s.memset.subAreaPt start stop s.pt }

/-- Map the trackers of a new area. -/
def mapArea (s : AddrSpace) (vaddr : Nat) (a : MemArea) (flags : MappingFlags) : PageTable :=
  if vaddr ≠ 0 then s.pt.mapTrackers (a.mtrackers.filter (·.vaddr ≠ 0)) flags else s.pt

/-- Map a new area and add it to the memory set. -/
def install (s : AddrSpace) (vaddr : Nat) (a : MemArea) (flags : MappingFlags) : AddrSpace :=
  { s with pt := s.mapArea vaddr a flags, memset := s.memset.push a }

/-- `map_frames`: the first frame and the new state. A stack's frames go to its one area. -/
def mapFrames (s : AddrSpace) (env : MmapEnv) (vaddr : Nat) (mtype : MemType) (count : Nat)
    (file : Option Nat) (offset start len : Nat) (flags : MappingFlags) :
    Option (Nat × AddrSpace) :=
  (env.frameAllocMuch count).map (fun ppn =>
    let a : MemArea := ⟨mtype, pageTrackers vaddr (contiguous ppn count), file, offset, start, len⟩
    if mtype = .stack then
      match updateFirst (·.mtype == .stack)
          (fun b => { b with mtrackers := b.mtrackers ++ a.mtrackers }) s.memset.areas with
      | some areas => (ppn, { s with pt := s.mapArea vaddr a flags, memset := ⟨areas⟩ })
      | none => (ppn, s.install vaddr
          { a with file := none, offset := 0, start := 0x70000000, len := 0x10000000 } flags)
    else (ppn, s.install vaddr a flags))

/-- `frame_alloc`; several pages of an `Mmap` area may be gathered in segments. -/
def frameAlloc (s : AddrSpace) (env : MmapEnv) (vaddr : Nat) (mtype : MemType) (count : Nat) :
    Option (Nat × AddrSpace) :=
  if mtype = .mmap ∧ count > 1 then
    match env.frameAllocMuch count with
    | some ppn => some (ppn, s.install vaddr
        ⟨mtype, pageTrackers vaddr (contiguous ppn count), none, 0, vaddr, count * pageSize⟩
        mtype.allocFlags)
    | none => (env.segments count).map (fun frames =>
        (frames.val.headD 0, s.install vaddr
          ⟨mtype, pageTrackers vaddr frames.val, none, 0, vaddr, count * pageSize⟩
          mtype.allocFlags))
  else s.mapFrames env vaddr mtype count none 0 vaddr (count * pageSize) mtype.allocFlags

def getLastFreeAddr (s : AddrSpace) : Nat :=
  let mapLast := (s.memset.areas.filter (·.mtype != .stack)).foldl
    (fun acc a => max acc (a.start + a.len)) 0
  let shmLast := s.shms.foldl (fun acc v => max (v.start + v.size) acc) 0
  max mapLast shmLast

/-! ## The system calls -/

/-- The address of a mapping; `0x2_0000_0000` is `MAP_AREA_START`. -/
def mmapAddr (s : AddrSpace) (start : Nat) : Nat :=
  if start = 0 then
    if s.getLastFreeAddr ≥ 0x200000000 then s.getLastFreeAddr else 0x200000000
  else start

/-- Make room for a mapping; `none` is `EINVAL`. -/
def reserve (s : AddrSpace) (fixed : Bool) (addr stop : Nat) : Option AddrSpace :=
  if fixed then some (if s.memset.overlapping addr stop then s.subArea addr stop else s)
  else if s.memset.overlapping addr stop then none
  else some s

/-- The area of a mapping, by its kind; `none` is `EFAULT`. -/
def mapNew (s : AddrSpace) (env : MmapEnv) (args : MmapArgs) (file : Option Nat) (addr len : Nat) :
    Option AddrSpace :=
  if args.shared then
    match file with
    | some file =>
      (s.mapFrames env addr .shareFile ((len + pageSize - 1) / pageSize) (some file) args.off addr
        len args.protFlags).map (·.2)
    | none =>
      (s.frameAlloc env addr .shared (divCeil len pageSize)).map (fun r =>
        { r.2 with
          pt := r.2.pt.mapRange addr r.1 ((len + pageSize - 1) / pageSize) args.protFlags })
  else
    match file with
    | some _ => (s.frameAlloc env addr .mmap (divCeil len pageSize)).map (·.2)
    | none => some { s with memset := s.memset.push ⟨.mmap, [], none, 0, addr, len⟩ }

/-- The faults the kernel takes while it reads the file into the mapping. -/
def touch (s : AddrSpace) : List (Nat × FaultEnv) → AddrSpace
  | [] => s
  | (vaddr, env) :: rest =>
    match userCowInt s.memset s.pt env vaddr with
    | some r => touch { s with memset := r.memset, pt := r.pt } rest
    | none => touch s rest

def sysMmap (s : AddrSpace) (env : MmapEnv) (args : MmapArgs) : Except Errno Nat × AddrSpace :=
  let file := args.file env
  let addr := s.mmapAddr args.start
  let len := args.alignedLen
  if len = 0 then (.ok addr, s)
  else
    let stop := (addr + len) % 2 ^ 64
    match s.reserve args.fixed addr stop with
    | none => (.error .EINVAL, s)
    | some s =>
      match s.mapNew env args file addr len with
      | none => (.error .EFAULT, s)
      | some s =>
        if file.isNone then (.ok addr, s)
        else
          match env.readErr with
          | none => (.ok addr, s.touch env.touched)
          | some err => (.error err, (s.touch env.touched).subArea addr stop)

def sysMunmap (s : AddrSpace) (start len : Nat) : AddrSpace :=
  s.subArea start ((start + len) % 2 ^ 64)

end AddrSpace

theorem MmapArgs.alignedLen_mod (args : MmapArgs) : args.alignedLen % pageSize = 0 := by
  unfold alignedLen alignup
  rw [Nat.mod_mod_of_dvd _ (by decide), Nat.mul_mod_left]

/-! ## The calls behind a page table

A `PageTable` is a function on all addresses, a table of the hardware has an entry for the lower
ones only. The two can be compared call by call, as long as every call is about a page below the
bound (`Mem/VmRun`). -/

/-- A call of `map_page` or of `unmap_page`. -/
inductive PtCall where
  | map (page frame : Nat) (flags : MappingFlags)
  | unmap (page : Nat)

def PtCall.page : PtCall → Nat
  | .map page _ _ => page
  | .unmap page => page

namespace PageTable

def call (pt : PageTable) : PtCall → PageTable
  | .map page frame flags => pt.mapPage page frame flags
  | .unmap page => pt.unmapPage page

/-- `page` is the address of a page below `top`. -/
def IsPage (top page : Nat) : Prop := page < top ∧ page % pageSize = 0

/-- The table comes from calls about pages below `top`. -/
def Built (top : Nat) (pt : PageTable) : Prop :=
  ∃ calls : List PtCall, (∀ c ∈ calls, IsPage top c.page) ∧ pt = calls.foldl call .empty

variable {top : Nat} {pt : PageTable}

theorem Built.empty (top : Nat) : Built top .empty :=
  ⟨[], fun _ hc => absurd hc List.not_mem_nil, rfl⟩

/-- One more call. -/
theorem Built.call (h : Built top pt) {c : PtCall} (hc : IsPage top c.page) :
    Built top (pt.call c) := by
  obtain ⟨calls, hcalls, rfl⟩ := h
  refine ⟨calls ++ [c], ?_, by rw [List.foldl_append]; rfl⟩
  exact List.forall_mem_append.mpr ⟨hcalls, by simpa using hc⟩

theorem Built.mapPage (h : Built top pt) {v : Nat} (hv : IsPage top v) (frame : Nat)
    (flags : MappingFlags) : Built top (pt.mapPage v frame flags) :=
  h.call (c := .map v frame flags) hv

theorem Built.unmapPages (h : Built top pt) {vs : List Nat} (hvs : ∀ v ∈ vs, IsPage top v) :
    Built top (pt.unmapPages vs) := by
  induction vs generalizing pt with
  | nil => exact h
  | cons v vs ih =>
    exact ih (h.call (c := .unmap v) (hvs v List.mem_cons_self))
      (fun u hu => hvs u (List.mem_cons_of_mem _ hu))

theorem Built.mapTrackers (h : Built top pt) {ts : List MapTrack}
    (hts : ∀ t ∈ ts, IsPage top t.vaddr) (flags : MappingFlags) :
    Built top (pt.mapTrackers ts flags) := by
  induction ts generalizing pt with
  | nil => exact h
  | cons t ts ih =>
    exact ih (h.mapPage (hts t List.mem_cons_self) t.tracker flags)
      (fun u hu => hts u (List.mem_cons_of_mem _ hu))

end PageTable

/-! ## Where the mapped pages are -/

/-- Every page that is mapped lies below `top`. -/
def PageTable.Within (top : Nat) (pt : PageTable) : Prop := ∀ p, pt p ≠ none → p < top

section Within

variable {top : Nat} {pt : PageTable}

theorem PageTable.Within.mapPage (h : pt.Within top) {v : Nat} (hv : v < top) (frame : Nat)
    (flags : MappingFlags) : (pt.mapPage v frame flags).Within top := by
  intro p hp
  unfold PageTable.mapPage at hp
  split at hp
  · rename_i heq
    exact heq ▸ hv
  · exact h p hp

theorem PageTable.Within.mapTrackers (h : pt.Within top) {ts : List MapTrack}
    (hts : ∀ t ∈ ts, t.vaddr < top) (flags : MappingFlags) :
    (pt.mapTrackers ts flags).Within top := by
  induction ts generalizing pt with
  | nil => exact h
  | cons t ts ih =>
    exact ih (h.mapPage (hts t List.mem_cons_self) t.tracker flags)
      (fun u hu => hts u (List.mem_cons_of_mem _ hu))

theorem PageTable.Within.unmapPages (h : pt.Within top) (vs : List Nat) :
    (pt.unmapPages vs).Within top := by
  intro p hp
  rw [unmapPages_apply] at hp
  split at hp
  · exact absurd rfl hp
  · exact h p hp

/-- A fault maps the page of its address, if any. -/
theorem PageTable.Within.fault {m : MemSet} (h : pt.Within top) {env : FaultEnv} {vaddr : Nat}
    (hv : vaddr < top) {r : FaultResult} (hr : userCowInt m pt env vaddr = some r) :
    r.pt.Within top := by
  obtain ⟨pre, a, post, -, -, hfaulted⟩ := userCowInt_faulted hr
  have hpage : floor vaddr < top := Nat.lt_of_le_of_lt (floor_le vaddr) hv
  cases hfaulted with
  | segv => exact h
  | remapped | copied | filled => exact h.mapPage hpage _ _

end Within

/-! ## The invariant, call by call -/

structure AddrSpace.Inv (top : Nat) (s : AddrSpace) : Prop where
  wf : s.memset.WF
  agrees : s.pt.AgreesOn (fun _ => True) s.memset
  noShms : s.shms = []
  below : ∀ a ∈ s.memset.areas, ∀ v, a.contains v = true → v < top
  built : s.pt.Built top

variable {frames : List Nat} {t : MapTrack} {vaddr : Nat}

theorem mem_pageTrackers (hv : vaddr ≠ 0) (ht : t ∈ pageTrackers vaddr frames) :
    ∃ i, i < frames.length ∧ t.vaddr = vaddr + i * pageSize := by
  obtain ⟨i, hi, rfl⟩ := List.mem_mapIdx.mp ht
  exact ⟨i, hi, if_neg hv⟩

theorem pageTrackers_within (hv : vaddr ≠ 0) (ht : t ∈ pageTrackers vaddr frames) :
    vaddr ≤ t.vaddr ∧ t.vaddr < vaddr + frames.length * pageSize := by
  obtain ⟨i, hi, hti⟩ := mem_pageTrackers hv ht
  have hlt := (Nat.mul_lt_mul_right pageSize_pos).mpr hi
  omega

theorem map_vaddr_pageTrackers (hv : vaddr ≠ 0) (frames : List Nat) :
    (pageTrackers vaddr frames).map (·.vaddr)
      = (List.range frames.length).map (fun i => vaddr + i * pageSize) := by
  apply List.ext_getElem
  · simp [pageTrackers]
  · intro i h₁ h₂
    simp [pageTrackers, hv]

theorem nodup_pageTrackers (hv : vaddr ≠ 0) (frames : List Nat) :
    ((pageTrackers vaddr frames).map (·.vaddr)).Nodup := by
  rw [map_vaddr_pageTrackers hv]
  refine List.Nodup.map ?_ List.nodup_range
  intro i j hij
  have hpos := pageSize_pos
  exact Nat.eq_of_mul_eq_mul_right hpos (by simpa using hij)

theorem pageTrackers_contiguous (hv : vaddr ≠ 0) (ppn count : Nat) :
    pageTrackers vaddr (contiguous ppn count)
      = (List.range count).map (fun i => ⟨vaddr + i * pageSize, ppn + i * pageSize, 0⟩) := by
  apply List.ext_getElem
  · simp [pageTrackers, contiguous]
  · intro i h₁ h₂
    simp [pageTrackers, contiguous, hv]

/-- Mapping a range is mapping its trackers. -/
theorem PageTable.mapRange_eq (hv : vaddr ≠ 0) (pt : PageTable) (ppn count : Nat)
    (flags : MappingFlags) :
    pt.mapRange vaddr ppn count flags
      = pt.mapTrackers (pageTrackers vaddr (contiguous ppn count)) flags := by
  rw [pageTrackers_contiguous hv]
  unfold mapRange mapTrackers
  rw [List.foldl_map]

namespace AddrSpace

variable {top : Nat} {s : AddrSpace}

theorem Inv.isPage (hinv : s.Inv top) {t : MapTrack} (ht : t ∈ s.memset.trackers) :
    PageTable.IsPage top t.vaddr := by
  obtain ⟨a, ha, hta⟩ := MemSet.mem_trackers.mp ht
  exact ⟨hinv.below a ha _ (hinv.wf.separate.inside a ha t hta), hinv.wf.pages t ht⟩

variable {addr count start stop len vaddr : Nat} {args : MmapArgs} {file : Option Nat}
  {mtype : MemType} {frames : List Nat} {a : MemArea} {env : MmapEnv} {r : Nat × AddrSpace}
  {fixed : Bool} {t : AddrSpace}

theorem Inv.subArea (hinv : s.Inv top) (hle : start ≤ stop) (hstart : start % pageSize = 0)
    (hstop : stop % pageSize = 0)
    (hcut : s.memset.CutsNone start stop) : (s.subArea start stop).Inv top where
  wf := hinv.wf.subArea hle hstart hstop hcut
  agrees := hinv.agrees.subArea hinv.wf.separate hle hcut
  noShms := hinv.noShms
  below b hb v hv := by
    obtain ⟨a, ha, hpiece⟩ := MemSet.mem_subArea.mp hb
    exact hinv.below a ha v (hpiece.covers (hinv.wf.separate.inside a ha) hle hv).1
  built := by
    refine hinv.built.unmapPages (fun v hv => ?_)
    rw [MemSet.unmapped_subArea hinv.wf.separate hle hcut] at hv
    obtain ⟨t, ht, rfl⟩ := List.mem_map.mp hv
    exact hinv.isPage (List.mem_filter.mp ht).1

theorem Inv.below_push (hinv : s.Inv top) (htop : a.stop ≤ top) :
    ∀ b ∈ (s.memset.push a).areas, ∀ v, b.contains v = true → v < top := by
  refine List.forall_mem_append.mpr ⟨hinv.below, fun b hb v hv => ?_⟩
  rw [List.mem_singleton.mp hb, MemArea.contains_iff] at hv
  exact Nat.lt_of_lt_of_le hv.2 htop

/-- A new area over a free range, with a frame for each of its pages. -/
theorem Inv.install (hinv : s.Inv top) (flags : MappingFlags) (hpos : a.start ≠ 0)
    (halign : a.start % pageSize = 0) (htrackers : a.mtrackers = pageTrackers a.start frames)
    (hlen : a.len = frames.length * pageSize) (hfree : s.memset.Free a.start a.stop)
    (htop : a.stop ≤ top) : (s.install a.start a flags).Inv top := by
  have hin : a.Inside := by
    intro t ht
    rw [htrackers] at ht
    rw [MemArea.contains_iff, MemArea.stop, hlen]
    exact pageTrackers_within hpos ht
  have hnodup : (a.mtrackers.map (·.vaddr)).Nodup := by
    rw [htrackers]
    exact nodup_pageTrackers hpos frames
  have hall : a.mtrackers.filter (·.vaddr ≠ 0) = a.mtrackers := by
    rw [List.filter_eq_self]
    intro t ht
    have htin := MemArea.contains_iff.mp (hin t ht)
    simp only [ne_eq, decide_not, Bool.not_eq_true', decide_eq_false_iff_not]
    omega
  have hpages : ∀ t ∈ a.mtrackers, t.vaddr % pageSize = 0 := by
    intro t ht
    rw [htrackers] at ht
    obtain ⟨i, -, hti⟩ := mem_pageTrackers hpos ht
    rw [hti, Nat.add_mul_mod_self_right]
    exact halign
  have hpt : s.mapArea a.start a flags = s.pt.mapTrackers a.mtrackers flags := by
    unfold mapArea
    rw [if_pos hpos, hall]
  refine ⟨hinv.wf.push hfree ⟨halign, by rw [hlen]; exact Nat.mul_mod_left _ _⟩ hin hpages hnodup,
    ?_, hinv.noShms, hinv.below_push htop, ?_⟩
  · show (s.mapArea a.start a flags).AgreesOn _ (s.memset.push a)
    rw [hpt]
    exact hinv.agrees.push hinv.wf hfree hin hnodup flags
  · show PageTable.Built top (s.mapArea a.start a flags)
    rw [hpt]
    refine hinv.built.mapTrackers (fun t ht => ⟨?_, hpages t ht⟩) flags
    exact Nat.lt_of_lt_of_le (MemArea.contains_iff.mp (hin t ht)).2 htop

/-- The area `[addr, addr + len)` is there. -/
def Has (s : AddrSpace) (addr len : Nat) : Prop :=
  (addr, len) ∈ s.memset.areas.map (fun a => (a.start, a.len))

theorem has_push (s : AddrSpace) (a : MemArea) :
    Has { s with memset := s.memset.push a } a.start a.len :=
  List.mem_map.mpr ⟨a, List.mem_append_cons_self, rfl⟩

theorem mapFrames_cases {offset : Nat} {flags : MappingFlags} (hmtype : mtype ≠ .stack)
    (h : s.mapFrames env vaddr mtype count file offset start len flags = some r) :
    r.2 = s.install vaddr
      ⟨mtype, pageTrackers vaddr (contiguous r.1 count), file, offset, start, len⟩ flags := by
  obtain ⟨ppn, -, rfl⟩ := Option.map_eq_some_iff.mp h
  simp [hmtype]

/-- `frame_alloc` of anything but a stack installs the frames it was given. -/
theorem frameAlloc_cases (hmtype : mtype ≠ .stack)
    (h : s.frameAlloc env vaddr mtype count = some r) :
    ∃ frames : List Nat, frames.length = count
      ∧ (mtype ≠ .mmap → frames = contiguous r.1 count)
      ∧ r.2 = s.install vaddr ⟨mtype, pageTrackers vaddr frames, none, 0, vaddr, count * pageSize⟩
        mtype.allocFlags := by
  unfold frameAlloc at h
  split at h
  · rename_i hmmap
    split at h
    · rename_i ppn hmuch
      cases h
      exact ⟨contiguous ppn count, by simp [contiguous], fun _ => rfl, rfl⟩
    · obtain ⟨frames, -, rfl⟩ := Option.map_eq_some_iff.mp h
      exact ⟨frames.val, frames.property, fun hne => absurd hmmap.1 hne, rfl⟩
  · exact ⟨contiguous r.1 count, by simp [contiguous], fun _ => rfl, mapFrames_cases hmtype h⟩

/-- Whatever it is for, the frames are mapped from `vaddr` on. -/
theorem frameAlloc_pt (h : s.frameAlloc env vaddr mtype count = some r) :
    ∃ a frames, a.mtrackers = pageTrackers vaddr frames ∧ frames.length = count
      ∧ r.2.pt = s.mapArea vaddr a mtype.allocFlags := by
  by_cases hmtype : mtype = .stack
  · subst hmtype
    unfold frameAlloc at h
    rw [if_neg (by simp)] at h
    obtain ⟨ppn, -, rfl⟩ := Option.map_eq_some_iff.mp h
    refine ⟨⟨.stack, _, none, 0, vaddr, count * pageSize⟩, contiguous ppn count, rfl,
      by simp [contiguous], ?_⟩
    dsimp only
    rw [if_pos rfl]
    split <;> rfl
  · obtain ⟨frames, hcount, -, hr⟩ := frameAlloc_cases hmtype h
    exact ⟨_, frames, rfl, hcount, by rw [hr]; rfl⟩

theorem within_mapArea (h : s.pt.Within top) (hts : a.mtrackers = pageTrackers vaddr frames)
    (htop : vaddr + frames.length * pageSize ≤ top) (flags : MappingFlags) :
    (s.mapArea vaddr a flags).Within top := by
  unfold mapArea
  split
  · rename_i hpos
    refine h.mapTrackers (fun t ht => ?_) flags
    have hmem := (List.mem_filter.mp ht).1
    rw [hts] at hmem
    exact Nat.lt_of_lt_of_le (pageTrackers_within hpos hmem).2 htop
  · exact h

theorem within_frameAlloc (h : s.pt.Within top) (htop : vaddr + count * pageSize ≤ top)
    (hr : s.frameAlloc env vaddr mtype count = some r) : r.2.pt.Within top := by
  obtain ⟨a, frames, hts, hcount, hpt⟩ := frameAlloc_pt hr
  rw [hpt]
  exact within_mapArea h hts (by rwa [hcount]) _

/-- `frame_alloc` over a free range: the invariant, the new area, and what is resident in it. -/
theorem Inv.frameAlloc (hinv : s.Inv top) (hmtype : mtype ≠ .stack) (hpos : addr ≠ 0)
    (halign : addr % pageSize = 0) (hfree : s.memset.Free addr (addr + count * pageSize))
    (htop : addr + count * pageSize ≤ top) (h : s.frameAlloc env addr mtype count = some r) :
    r.2.Inv top ∧ r.2.Has addr (count * pageSize)
      ∧ (mtype ≠ .mmap →
        ∀ t ∈ pageTrackers addr (contiguous r.1 count), t ∈ r.2.memset.trackers) := by
  obtain ⟨frames, hcount, hcontig, hr⟩ := frameAlloc_cases hmtype h
  rw [hr]
  refine ⟨?_, has_push _ _, ?_⟩
  · exact hinv.install (a := ⟨mtype, _, none, 0, addr, count * pageSize⟩) mtype.allocFlags hpos
      halign rfl (by rw [hcount]) hfree htop
  intro hne t ht
  show t ∈ (s.memset.push _).trackers
  rw [MemSet.trackers_push, hcontig hne]
  exact List.mem_append_right _ ht

theorem round_up_eq_divCeil (hlen : len % pageSize = 0) :
    (len + pageSize - 1) / pageSize = divCeil len pageSize := by
  unfold divCeil
  rw [if_pos hlen]
  unfold pageSize at *
  omega

/-- Each kind of mapping adds one area over the free range. -/
theorem mapNew_inv (hinv : s.Inv top) (hpos : addr ≠ 0) (halign : addr % pageSize = 0)
    (hlen : len % pageSize = 0) (hfree : s.memset.Free addr (addr + len)) (htop : addr + len ≤ top)
    (h : s.mapNew env args file addr len = some t) :
    t.Inv top ∧ t.Has addr len := by
  have hceil := divCeil_mul_cancel hlen
  have hfree' : s.memset.Free addr (addr + divCeil len pageSize * pageSize) := by rwa [hceil]
  have htop' : addr + divCeil len pageSize * pageSize ≤ top := by rwa [hceil]
  unfold mapNew at h
  rw [round_up_eq_divCeil hlen] at h
  split at h
  · cases file with
    | some file =>
      -- a shared file: resident, with the file's protection
      obtain ⟨r, hr, rfl⟩ := Option.map_eq_some_iff.mp h
      rw [mapFrames_cases (by decide) hr]
      refine ⟨hinv.install (a := ⟨.shareFile, _, some file, args.off, addr, len⟩) args.protFlags
        hpos halign rfl ?_ hfree htop, has_push _ _⟩
      rw [contiguous, List.length_map, List.length_range, hceil]
    | none =>
      -- anonymous shared memory: allocated, then mapped again with the protection asked for
      obtain ⟨r, hr, rfl⟩ := Option.map_eq_some_iff.mp h
      obtain ⟨hinv', hhas, hres⟩ := hinv.frameAlloc (by decide) hpos halign hfree' htop' hr
      have hres := hres (by decide)
      rw [hceil] at hhas
      rw [PageTable.mapRange_eq hpos]
      exact ⟨⟨hinv'.wf, hinv'.agrees.mapTrackers hinv'.wf hres _, hinv'.noShms, hinv'.below,
        hinv'.built.mapTrackers (fun t ht => hinv'.isPage (hres t ht)) _⟩, hhas⟩
  · cases file with
    | some file =>
      obtain ⟨r, hr, rfl⟩ := Option.map_eq_some_iff.mp h
      obtain ⟨hinv', hhas, -⟩ := hinv.frameAlloc (by decide) hpos halign hfree' htop' hr
      rw [hceil] at hhas
      exact ⟨hinv', hhas⟩
    | none =>
      -- an empty area: nothing is mapped yet
      cases h
      refine ⟨⟨?_, ?_, hinv.noShms, hinv.below_push htop, hinv.built⟩,
        has_push s ⟨.mmap, [], none, 0, addr, len⟩⟩
      · exact hinv.wf.push (a := ⟨.mmap, [], none, 0, addr, len⟩) hfree ⟨halign, hlen⟩
          (fun t ht => by cases ht) (fun t ht => by cases ht) .nil
      · exact hinv.agrees.push (a := ⟨.mmap, [], none, 0, addr, len⟩) hinv.wf hfree
          (fun t ht => by cases ht) .nil urwx

theorem within_mapNew (hs : s.pt.Within top) (hpos : addr ≠ 0) (hlen : len % pageSize = 0)
    (htop : addr + len ≤ top) (h : s.mapNew env args file addr len = some t) :
    t.pt.Within top := by
  have htop' : addr + divCeil len pageSize * pageSize ≤ top := by rwa [divCeil_mul_cancel hlen]
  have hcontig : ∀ ppn, (contiguous ppn (divCeil len pageSize)).length = divCeil len pageSize := by
    intro ppn
    rw [contiguous, List.length_map, List.length_range]
  unfold mapNew at h
  rw [round_up_eq_divCeil hlen] at h
  split at h
  · cases file with
    | some file =>
      obtain ⟨r, hr, rfl⟩ := Option.map_eq_some_iff.mp h
      rw [mapFrames_cases (by decide) hr]
      exact within_mapArea hs rfl (by rwa [hcontig]) _
    | none =>
      obtain ⟨r, hr, rfl⟩ := Option.map_eq_some_iff.mp h
      rw [PageTable.mapRange_eq hpos]
      refine (within_frameAlloc hs htop' hr).mapTrackers (fun x hx => ?_) _
      have hx := (pageTrackers_within hpos hx).2
      rw [hcontig] at hx
      exact Nat.lt_of_lt_of_le hx htop'
  · cases file with
    | some file =>
      obtain ⟨r, hr, rfl⟩ := Option.map_eq_some_iff.mp h
      exact within_frameAlloc hs htop' hr
    | none =>
      cases h
      exact hs

/-! ## Faults and the read into the mapping -/

theorem within_touch (h : s.pt.Within top) {touched : List (Nat × FaultEnv)}
    (htouched : ∀ x ∈ touched, x.1 < top) : (s.touch touched).pt.Within top := by
  induction touched generalizing s with
  | nil => exact h
  | cons x rest ih =>
    have ih := fun s h => ih (s := s) h (fun y hy => htouched y (List.mem_cons_of_mem _ hy))
    unfold AddrSpace.touch
    cases hfault : userCowInt s.memset s.pt x.2 x.1 with
    | none => exact ih s h
    | some r => exact ih _ (h.fault (htouched x List.mem_cons_self) hfault)

/-- A fault brings a page of an area in and moves no area. -/
theorem Inv.fault (hinv : s.Inv top) {env : FaultEnv} {r : FaultResult}
    (h : userCowInt s.memset s.pt env vaddr = some r) :
    Inv top { s with memset := r.memset, pt := r.pt }
      ∧ r.memset.areas.map (fun a => (a.start, a.len))
        = s.memset.areas.map (fun a => (a.start, a.len)) := by
  obtain ⟨pre, a, post, hareas, ha, hfaulted⟩ := userCowInt_faulted h
  have hm : s.memset = ⟨pre ++ a :: post⟩ := by rw [← hareas]
  have hwf := hinv.wf
  have hagrees := hinv.agrees
  have hbelow := hinv.below
  rw [hm] at hwf hagrees hbelow ⊢
  have hpage : PageTable.IsPage top (floor vaddr) :=
    ⟨Nat.lt_of_le_of_lt (floor_le vaddr)
      (hbelow a List.mem_append_cons_self vaddr ha), floor_mod vaddr⟩
  refine ⟨⟨hfaulted.wf hwf ha, hfaulted.agreesOn hwf ha hagrees, hinv.noShms, ?_, ?_⟩,
    hfaulted.bounds⟩
  · -- an area is below the bound by its own bounds, and those stay
    intro b hb v hv
    have hmem := List.mem_map_of_mem (f := fun a : MemArea => (a.start, a.len)) hb
    rw [hfaulted.bounds] at hmem
    obtain ⟨c, hc, hcb⟩ := List.mem_map.mp hmem
    obtain ⟨hstart, hlen⟩ := Prod.mk.inj hcb
    refine hbelow c hc v ?_
    rw [MemArea.contains_iff, MemArea.stop] at hv ⊢
    rwa [hstart, hlen]
  · cases hfaulted with
    | segv => exact hinv.built
    | remapped | copied | filled => exact hinv.built.mapPage hpage _ _

theorem Inv.touch (hinv : s.Inv top) (touched : List (Nat × FaultEnv)) :
    (s.touch touched).Inv top ∧ ∀ addr len, s.Has addr len → (s.touch touched).Has addr len := by
  induction touched generalizing s with
  | nil => exact ⟨hinv, fun _ _ h => h⟩
  | cons x rest ih =>
    obtain ⟨vaddr, env⟩ := x
    unfold AddrSpace.touch
    cases hfault : userCowInt s.memset s.pt env vaddr with
    | none => exact ih hinv
    | some r =>
      obtain ⟨hinv', hbounds⟩ := hinv.fault hfault
      obtain ⟨hrest, hhas⟩ := ih hinv'
      refine ⟨hrest, fun addr len h => hhas addr len ?_⟩
      show _ ∈ r.memset.areas.map (fun a => (a.start, a.len))
      rw [hbounds]
      exact h

/-- Taking out a whole area splits nothing: every other area misses the range. -/
theorem Inv.cutsNone_of_has (hinv : s.Inv top) (hlen : 0 < len)
    (hhas : s.Has addr len) : s.memset.CutsNone addr (addr + len) := by
  intro a ha hsplits
  obtain ⟨b, hb, hbounds⟩ := List.mem_map.mp hhas
  obtain ⟨hstart, hblen⟩ := Prod.mk.inj hbounds
  have hbin : b.contains addr = true := by
    rw [MemArea.contains_iff, MemArea.stop]
    omega
  have hab : a = b := hinv.wf.separate.eq_of_contains ha hb hsplits.start hbin
  subst hab
  have hstop := inRange_iff.mp hsplits.stop
  unfold MemArea.stop at hstop
  omega

/-! ## The address and the room for a mapping -/

theorem add_mod_pageSize {a b : Nat} (ha : a % pageSize = 0) (hb : b % pageSize = 0) :
    (a + b) % pageSize = 0 := by
  rw [Nat.add_mod, ha, hb]
  rfl

theorem foldl_max_mod {α : Type} {f : α → Nat} {l : List α} {acc : Nat}
    (hl : ∀ x ∈ l, f x % pageSize = 0) (hacc : acc % pageSize = 0) :
    l.foldl (fun acc x => max acc (f x)) acc % pageSize = 0 := by
  induction l generalizing acc with
  | nil => exact hacc
  | cons x l ih =>
    refine ih (fun y hy => hl y (List.mem_cons_of_mem _ hy)) ?_
    show max acc (f x) % pageSize = 0
    rcases Nat.le_total acc (f x) with hle | hle
    · rw [Nat.max_eq_right hle]
      exact hl x List.mem_cons_self
    · rw [Nat.max_eq_left hle]
      exact hacc

/-- The end of the last area or segment. -/
theorem getLastFreeAddr_mod (hareas : ∀ a ∈ s.memset.areas, a.Aligned)
    (hshms : ∀ g ∈ s.shms, (g.start + g.size) % pageSize = 0) :
    s.getLastFreeAddr % pageSize = 0 := by
  have hlast : (s.memset.areas.filter (·.mtype != .stack)).foldl
      (fun acc a => max acc (a.start + a.len)) 0 % pageSize = 0 := by
    refine foldl_max_mod (fun a ha => ?_) rfl
    obtain ⟨hstart, hlen⟩ := hareas a (List.mem_filter.mp ha).1
    exact add_mod_pageSize hstart hlen
  have hlastShm : s.shms.foldl (fun acc v => max (v.start + v.size) acc) 0 % pageSize = 0 := by
    simp only [Nat.max_comm]
    exact foldl_max_mod hshms rfl
  unfold AddrSpace.getLastFreeAddr
  dsimp only
  rcases Nat.le_total (s.shms.foldl (fun acc v => max (v.start + v.size) acc) 0)
    ((s.memset.areas.filter (·.mtype != .stack)).foldl
      (fun acc a => max acc (a.start + a.len)) 0) with hle | hle
  · rw [Nat.max_eq_left hle]
    exact hlast
  · rw [Nat.max_eq_right hle]
    exact hlastShm

theorem Inv.getLastFreeAddr_mod (hinv : s.Inv top) : s.getLastFreeAddr % pageSize = 0 := by
  apply AddrSpace.getLastFreeAddr_mod hinv.wf.aligned
  rw [hinv.noShms]
  exact fun g hg => absurd hg List.not_mem_nil

theorem Inv.mmapAddr (hinv : s.Inv top) (hstart : start % pageSize = 0) :
    s.mmapAddr start ≠ 0 ∧ s.mmapAddr start % pageSize = 0 := by
  unfold AddrSpace.mmapAddr
  split
  · split
    · exact ⟨by omega, hinv.getLastFreeAddr_mod⟩
    · exact ⟨by decide, by decide⟩
  · exact ⟨‹_›, hstart⟩

theorem reserve_eq_none_iff :
    s.reserve fixed addr stop = none ↔ fixed = false ∧ s.memset.overlapping addr stop = true := by
  unfold AddrSpace.reserve
  cases fixed with
  | true => simp
  | false =>
    simp only [Bool.false_eq_true, if_false, true_and]
    split
    · simp [*]
    · simp [*]

/-- With `MAP_FIXED` the range is taken out, else it was free. -/
theorem Inv.reserve (hinv : s.Inv top) (hle : addr ≤ stop) (haddr : addr % pageSize = 0)
    (hstop : stop % pageSize = 0) (hcut : fixed = true → s.memset.CutsNone addr stop)
    (h : s.reserve fixed addr stop = some t) : t.Inv top ∧ t.memset.Free addr stop := by
  unfold AddrSpace.reserve at h
  split at h
  · rename_i hfixed
    cases h
    split
    · exact ⟨hinv.subArea hle haddr hstop (hcut hfixed),
        MemSet.free_subArea hinv.wf.separate hle⟩
    · rename_i hover
      exact ⟨hinv, MemSet.free_of_not_overlapping (by simpa using hover)⟩
  · split at h
    · cases h
    · rename_i hover
      cases h
      exact ⟨hinv, MemSet.free_of_not_overlapping (by simpa using hover)⟩

/-- The call takes out no range that splits an area with a resident page from the range's
start on, and its range does not wrap. -/
structure CleanRange (s : AddrSpace) (cuts : Bool) (start len : Nat) : Prop where
  noWrap : start + len < 2 ^ 64
  cutsNone : cuts = true → s.memset.CutsNone start (start + len)

/-- What `sys_mmap` can do, and its answer. -/
inductive Mmapped (s : AddrSpace) (env : MmapEnv) (args : MmapArgs) (addr stop : Nat) :
    Except Errno Nat × AddrSpace → Prop where
  | empty (hlen : args.alignedLen = 0) : Mmapped s env args addr stop (.ok addr, s)
  | refused : Mmapped s env args addr stop (.error .EINVAL, s)
  /-- the range is taken out already -/
  | noFrames (s' : AddrSpace) (hlen : args.alignedLen ≠ 0)
      (hreserve : s.reserve args.fixed addr stop = some s') :
      Mmapped s env args addr stop (.error .EFAULT, s')
  /-- an area was added and perhaps read into -/
  | mapped (s' t : AddrSpace) (touched : List (Nat × FaultEnv)) (hlen : args.alignedLen ≠ 0)
      (hreserve : s.reserve args.fixed addr stop = some s')
      (hnew : s'.mapNew env args (args.file env) addr args.alignedLen = some t)
      (htouched : touched ⊆ env.touched) :
      Mmapped s env args addr stop (.ok addr, t.touch touched)
  /-- the read failed, and the area that was added is taken out again -/
  | unread (s' t : AddrSpace) (touched : List (Nat × FaultEnv)) (err : Errno)
      (hlen : args.alignedLen ≠ 0) (hreserve : s.reserve args.fixed addr stop = some s')
      (hnew : s'.mapNew env args (args.file env) addr args.alignedLen = some t)
      (htouched : touched ⊆ env.touched) :
      Mmapped s env args addr stop (.error err, (t.touch touched).subArea addr stop)

/-- A call is refused, fails to get memory, or maps and then reads. -/
theorem sysMmap_cases (env : MmapEnv)
    (hwrap : args.alignedLen ≠ 0 → s.mmapAddr args.start + args.alignedLen < 2 ^ 64) :
    s.Mmapped env args (s.mmapAddr args.start) (s.mmapAddr args.start + args.alignedLen)
      (s.sysMmap env args) := by
  unfold sysMmap
  dsimp only
  split
  · rename_i hlen
    exact .empty hlen
  rename_i hlen
  rw [Nat.mod_eq_of_lt (hwrap hlen)]
  split
  · exact .refused
  rename_i s' hreserve
  split
  · exact .noFrames s' hlen hreserve
  rename_i t hnew
  split
  · exact .mapped s' t [] hlen hreserve hnew (List.nil_subset _)
  split
  · exact .mapped s' t env.touched hlen hreserve hnew (List.Subset.refl _)
  · exact .unread s' t env.touched _ hlen hreserve hnew (List.Subset.refl _)

/-- Whatever the call returns. -/
theorem sysMmap_inv (hinv : s.Inv top) (hstart : args.start % pageSize = 0)
    (hclean : args.alignedLen ≠ 0 →
      s.CleanRange args.fixed (s.mmapAddr args.start) args.alignedLen)
    (htop : args.alignedLen ≠ 0 → s.mmapAddr args.start + args.alignedLen ≤ top) :
    (s.sysMmap env args).2.Inv top := by
  obtain ⟨hpos, haddr⟩ := hinv.mmapAddr hstart
  have hcases := s.sysMmap_cases env (fun hlen => (hclean hlen).noWrap)
  generalize s.sysMmap env args = r at hcases ⊢
  generalize s.mmapAddr args.start = addr at *
  have hstop := add_mod_pageSize haddr args.alignedLen_mod
  have hroom : ∀ {s' : AddrSpace}, args.alignedLen ≠ 0 →
      s.reserve args.fixed addr (addr + args.alignedLen) = some s' →
      s'.Inv top ∧ s'.memset.Free addr (addr + args.alignedLen) := by
    intro s' hlen hreserve
    exact hinv.reserve (Nat.le_add_right _ _) haddr hstop (hclean hlen).cutsNone hreserve
  cases hcases with
  | empty hlen => exact hinv
  | refused => exact hinv
  | noFrames s' hlen hreserve => exact (hroom hlen hreserve).1
  | mapped s' t touched hlen hreserve hnew =>
    obtain ⟨hinv', hfree⟩ := hroom hlen hreserve
    obtain ⟨hinvt, -⟩ := mapNew_inv hinv' hpos haddr args.alignedLen_mod hfree (htop hlen) hnew
    exact (hinvt.touch touched).1
  | unread s' t touched err hlen hreserve hnew =>
    obtain ⟨hinv', hfree⟩ := hroom hlen hreserve
    obtain ⟨hinvt, hhas⟩ := mapNew_inv hinv' hpos haddr args.alignedLen_mod hfree (htop hlen) hnew
    obtain ⟨htouch, hkeep⟩ := hinvt.touch touched
    exact htouch.subArea (Nat.le_add_right _ _) haddr hstop
      (htouch.cutsNone_of_has (Nat.pos_of_ne_zero hlen) (hkeep _ _ hhas))

/-- What is mapped stays below `top` when the new mapping does, and the faults of the read. -/
theorem within_sysMmap (hs : s.pt.Within top) (hpos : s.mmapAddr args.start ≠ 0)
    (hwrap : s.mmapAddr args.start + args.alignedLen < 2 ^ 64)
    (htop : s.mmapAddr args.start + args.alignedLen ≤ top)
    (htouched : ∀ x ∈ env.touched, x.1 < top) : (s.sysMmap env args).2.pt.Within top := by
  have hcases := s.sysMmap_cases env (fun _ => hwrap)
  generalize s.sysMmap env args = r at hcases ⊢
  generalize s.mmapAddr args.start = addr at *
  have hroom : ∀ {s' : AddrSpace},
      s.reserve args.fixed addr (addr + args.alignedLen) = some s' → s'.pt.Within top := by
    intro s' hreserve
    unfold AddrSpace.reserve at hreserve
    split at hreserve
    · cases hreserve
      split
      · exact hs.unmapPages _
      · exact hs
    · split at hreserve
      · cases hreserve
      · cases hreserve
        exact hs
  have hread : ∀ {s' t : AddrSpace} {touched : List (Nat × FaultEnv)},
      s.reserve args.fixed addr (addr + args.alignedLen) = some s' →
      s'.mapNew env args (args.file env) addr args.alignedLen = some t →
      touched ⊆ env.touched → (t.touch touched).pt.Within top := by
    intro s' t touched hreserve hnew hsub
    exact within_touch (within_mapNew (hroom hreserve) hpos args.alignedLen_mod htop hnew)
      (fun x hx => htouched x (hsub hx))
  cases hcases with
  | empty | refused => exact hs
  | noFrames s' hlen hreserve => exact hroom hreserve
  | mapped s' t touched hlen hreserve hnew hsub => exact hread hreserve hnew hsub
  | unread s' t touched err hlen hreserve hnew hsub =>
    exact (hread hreserve hnew hsub).unmapPages _

theorem sysMunmap_inv (hinv : s.Inv top) (hstart : start % pageSize = 0) (hlen : len % pageSize = 0)
    (hclean : s.CleanRange true start len) :
    (s.sysMunmap start len).Inv top := by
  unfold sysMunmap
  rw [Nat.mod_eq_of_lt hclean.noWrap]
  exact hinv.subArea (Nat.le_add_right _ _) hstart (add_mod_pageSize hstart hlen)
    (hclean.cutsNone rfl)

end AddrSpace

end MonkeyOS
