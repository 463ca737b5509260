import MonkeyOS.Mem.UserMem
import MonkeyOS.Task.ExecStack

/-!
# MonkeyOS — the image of a program (`exec_with_process`)

What the non-cached path leaves in the memory of the task: the first stack is pushed, and then each
`PT_LOAD` segment gets pages, is copied from the file to its virtual addresses, and is compared with
what it has become at its physical ones. `MonkeyOS/Task/Exec.lean` leaves the bytes out, and the page
faults of the pushes with them; here the stores go through the page table of the task, over the
frame allocator.

* `loadSegment`, `loadSegments`, `loadElf` — the code from the stack to the last segment; `none` is a
  panic, or a store that never ends;
* `SegmentLoaded` — what a segment leaves, byte by byte; `loadSegment_spec` and `loadSegments_spec`,
  one segment and the loop over them;
* `loadElf_image` — the image of a whole program;
* `loadElf_page_zero` — a segment in page `0`, which `frame_alloc` does not map.
-/

namespace MonkeyOS

open Lib

namespace UserMem

/-- The copy of a segment through its virtual addresses, and the three comparisons with what is at
its physical ones, from `ppnStart` on. -/
def copySegment (m : UserMem) (file : List UInt8) (virtAddr ppnStart : Nat) (ph : ProgramHeader) :
    Option UserMem :=
  if ph.offset + ph.fileSize ≤ file.length then
    let data := (file.drop ph.offset).take ph.fileSize
    (m.storeBytes virtAddr data).bind (fun m =>
      let pageSpace := (List.range ph.fileSize).map (fun i => m.byteAt (virtAddr + i))
      let ppnSpace := (List.range ph.fileSize).map
        (fun i => m.phys (ppnStart + virtAddr % pageSize + i))
      if ppnSpace.map some = pageSpace ∧ data = ppnSpace ∧ data.map some = pageSpace then some m
      else none)
  else none

/-- One `PT_LOAD` segment. -/
def loadSegment (m : UserMem) (file : List UInt8) (base : Nat) (ph : ProgramHeader) :
    Option UserMem :=
  (m.frameAlloc (floor (ph.loadAddr base)) .mmap (ph.pageCount base)).bind
    (fun (ppnStart, m) => ppnStart.bind
      (fun ppn => m.copySegment file (ph.loadAddr base) ppn ph))

def loadSegments (file : List UInt8) (base : Nat) : UserMem → List ProgramHeader → Option UserMem
  | m, [] => some m
  | m, ph :: phs =>
    match ph.kind with
    | none => none
    | some .load => (m.loadSegment file base ph).bind (fun m => loadSegments file base m phs)
    | some _ => loadSegments file base m phs

/-- The stores of the pushes, which are listed latest first. -/
def storePushed (m : UserMem) : List (Nat × StackItem) → Option UserMem
  | [] => some m
  | (addr, item) :: placed => (m.storePushed placed).bind (·.storeBytes addr item.image)

end UserMem

/-- The task as it returns to user mode. -/
structure LoadedTask where
  user : UserMem
  heap : Nat
  entry : Nat
  cx : TrapFrame

/-- `relocate(USER_DYN_ADDR).unwrap_or(0)`. -/
def Elf.base (elf : Elf) : Nat := if elf.relocates = some true then ExecTask.userDynAddr else 0

namespace UserMem

/-- `init_task_stack`, with its stores. The registers are those of the task that is returned; its
address space is the one of the memory. -/
def initTaskStack (m : UserMem) (libcPath : String) (args : List String) (base : Nat) (path : String)
    (entryPoint phCount phEntrySize phAddr heapBottom : Nat) : Option (ExecTask × UserMem) :=
  (m.frameAlloc (ExecTask.userStackTop - ExecTask.userStackInitSize) .stack
      (ExecTask.userStackInitSize / pageSize)).bind
    -- a stack that could not be allocated is not noticed here
    (fun (_, m) =>
      let t : ExecTask :=
        { space := m.space
          heap := heapBottom
          entry := wadd base entryPoint
          cx := (TrapFrame.setSp ⟨fun _ => 0, 0⟩ ExecTask.userStackTop).setSepc (wadd base entryPoint)
          pushed := [] }
      let t := t.setUpStack libcPath args base path entryPoint phCount phEntrySize phAddr
      (m.storePushed t.pushed).map (fun m => (t, m)))

/-- `exec_with_process` from `heap_bottom` on. The task has no area and no page left; `file` is in a
buffer of the kernel's own. -/
def loadElf (m : UserMem) (libcPath : String) (elf : Elf) (file : List UInt8) (args : List String)
    (path : PathBuf) : Option LoadedTask :=
  (elf.headers.map (fun ph => wadd ph.virtualAddr ph.memSize)).max?.bind (fun top =>
    elf.relocates.bind (fun _ =>
      (m.initTaskStack libcPath args elf.base path.path elf.entryPoint elf.phCount elf.phEntrySize
          elf.phAddr (divCeil top pageSize * pageSize % 2 ^ 64)).bind (fun (t, m) =>
        (loadSegments file elf.base m elf.headers).map (fun m => ⟨m, t.heap, t.entry, t.cx⟩))))

end UserMem

/-! ## The pages of a segment -/

namespace ProgramHeader

variable {ph : ProgramHeader} {base : Nat}

/-- The address is in a page of the segment. -/
def Covers (ph : ProgramHeader) (base a : Nat) : Prop :=
  floor (ph.loadAddr base) ≤ a ∧ a < alignup (ph.loadAddr base + ph.memSize) pageSize

theorem loadAddr_lt (ph : ProgramHeader) (base : Nat) : ph.loadAddr base < 2 ^ 64 :=
  ExecTask.wadd_lt base ph.virtualAddr

theorem covers_of_lt {a : Nat} (hlo : ph.loadAddr base ≤ a)
    (hhi : a < ph.loadAddr base + ph.memSize) : ph.Covers base a := by
  have hfloor := floor_le (ph.loadAddr base)
  have hround := le_mul_divCeil (ph.loadAddr base + ph.memSize) pageSize_pos
  unfold Covers alignup
  rw [Nat.mul_comm] at hround
  omega

/-- A segment that ends below `2^64`: the pages from its first to its last. -/
theorem pageCount_eq (hend : ph.loadAddr base + ph.memSize < 2 ^ 64) :
    ph.loadAddr base / pageSize + ph.pageCount base
      = divCeil (ph.loadAddr base + ph.memSize) pageSize := by
  have hle : ph.loadAddr base / pageSize ≤ divCeil (ph.loadAddr base + ph.memSize) pageSize := by
    unfold divCeil pageSize
    split
    · omega
    · omega
  have hlt : divCeil (ph.loadAddr base + ph.memSize) pageSize ≤ 2 ^ 52 :=
    divCeil_le_of_le_mul pageSize_pos (by unfold pageSize; omega)
  have hwadd : wadd (ph.loadAddr base) ph.memSize = ph.loadAddr base + ph.memSize :=
    Nat.mod_eq_of_lt hend
  unfold pageCount
  simp only [hwadd]
  generalize ph.loadAddr base / pageSize = vpn at hle ⊢
  generalize divCeil (ph.loadAddr base + ph.memSize) pageSize = last at hle hlt ⊢
  omega

theorem floor_add_pageCount_le (hend : ph.loadAddr base + ph.memSize < 2 ^ 64) :
    floor (ph.loadAddr base) + ph.pageCount base * pageSize ≤ 2 ^ 64 := by
  unfold floor
  rw [← Nat.add_mul, pageCount_eq hend]
  have hlast : divCeil (ph.loadAddr base + ph.memSize) pageSize ≤ 2 ^ 52 :=
    divCeil_le_of_le_mul pageSize_pos (by unfold pageSize; omega)
  unfold pageSize at *
  omega

theorem covers_iff (hend : ph.loadAddr base + ph.memSize < 2 ^ 64) (a : Nat) :
    ph.Covers base a ↔ UserMem.InPages (floor (ph.loadAddr base)) (ph.pageCount base) (floor a) := by
  have hcount := pageCount_eq hend
  unfold Covers alignup
  rw [← hcount, ← Nat.div_lt_iff_lt_mul pageSize_pos]
  unfold floor
  rw [← Nat.le_div_iff_mul_le pageSize_pos]
  constructor
  · intro h
    refine ⟨a / pageSize - ph.loadAddr base / pageSize, by omega, ?_⟩
    rw [← Nat.add_mul, Nat.add_sub_cancel' h.1]
  · intro h
    obtain ⟨i, hi, heq⟩ := h
    rw [← Nat.add_mul] at heq
    have hpage := Nat.eq_of_mul_eq_mul_right pageSize_pos heq
    omega

end ProgramHeader

/-! ## One segment -/

/-- What the segment has left: the bytes of the file, and zeros in the rest of its pages. -/
structure SegmentLoaded (file : List UInt8) (base : Nat) (ph : ProgramHeader) (m : UserMem) : Prop where
  data : ∀ i, i < ph.fileSize →
    ∃ b, file[ph.offset + i]? = some b ∧ m.byteAt (ph.loadAddr base + i) = some b
  zero : pageSize ≤ ph.loadAddr base → ∀ a, ph.Covers base a →
    ¬ (ph.loadAddr base ≤ a ∧ a < ph.loadAddr base + ph.fileSize) → m.byteAt a = some 0

variable {file : List UInt8} {ph : ProgramHeader} {m : UserMem} {base : Nat}

/-- It stays as long as the bytes of its pages do. -/
theorem SegmentLoaded.mono {m' : UserMem} (h : SegmentLoaded file base ph m)
    (hsizes : ph.fileSize ≤ ph.memSize)
    (hkept : ∀ a c, ph.Covers base a → m.byteAt a = some c → m'.byteAt a = some c) :
    SegmentLoaded file base ph m' where
  data := by
    intro i hi
    obtain ⟨b, hfile, hb⟩ := h.data i hi
    exact ⟨b, hfile, hkept _ b (ProgramHeader.covers_of_lt (by omega) (by omega)) hb⟩
  zero := by
    intro hpage a ha hout
    exact hkept a 0 ha (h.zero hpage a ha hout)

namespace UserMem

section Segments

variable {regions : List MemRegion} {file : List UInt8} {base : Nat} {m m' : UserMem}

variable {ph : ProgramHeader} {phs : List ProgramHeader} {target : Polyhal.Target}

theorem copySegment_cases {virtAddr ppn : Nat} (h : m.copySegment file virtAddr ppn ph = some m') :
    ph.offset + ph.fileSize ≤ file.length
      ∧ m.storeBytes virtAddr ((file.drop ph.offset).take ph.fileSize) = some m' := by
  unfold copySegment at h
  split at h
  · rename_i hlen
    obtain ⟨m₁, hstore, hcompared⟩ := Option.bind_eq_some_iff.mp h
    simp only at hcompared
    split at hcompared
    · cases hcompared
      exact ⟨hlen, hstore⟩
    · cases hcompared
  · cases h

/-- A segment that is loaded: its pages, and the copy. -/
theorem loadSegment_cases (h : m.loadSegment file base ph = some m') :
    ∃ ppn m₁, m.frameAlloc (floor (ph.loadAddr base)) .mmap (ph.pageCount base) = some (some ppn, m₁)
      ∧ m₁.copySegment file (ph.loadAddr base) ppn ph = some m' := by
  obtain ⟨⟨ppnStart, m₁⟩, halloc, hrest⟩ := Option.bind_eq_some_iff.mp h
  obtain ⟨ppn, hppn, hcopy⟩ := Option.bind_eq_some_iff.mp hrest
  obtain rfl : ppnStart = some ppn := hppn
  exact ⟨ppn, m₁, halloc, hcopy⟩

theorem loadSegment_spec (hb : Backed regions m) (hend : ph.loadAddr base + ph.memSize < 2 ^ 64)
    (hsizes : ph.fileSize ≤ ph.memSize) (h : m.loadSegment file base ph = some m') :
    Backed regions m' ∧ SegmentLoaded file base ph m'
      ∧ ∀ a c, ¬ ph.Covers base a → m.byteAt a = some c → m'.byteAt a = some c := by
  obtain ⟨ppn, m₁, halloc, hcopy⟩ := loadSegment_cases h
  obtain ⟨hlen, hstore⟩ := copySegment_cases hcopy
  have hcovers := ProgramHeader.covers_iff hend
  have hfits := ProgramHeader.floor_add_pageCount_le hend
  obtain ⟨hgrew, hmapped⟩ := frameAlloc_grew hb (floor_mod _) hfits halloc
  obtain ⟨hstored, hbytes, hkept⟩ := storeBytes_spec hgrew.backed hstore
  have hdata : ((file.drop ph.offset).take ph.fileSize).length = ph.fileSize := by
    rw [List.length_take, List.length_drop]
    omega
  rw [hdata] at hkept
  refine ⟨hstored, ⟨?_, ?_⟩, ?_⟩
  · intro i hi
    have hbyte : ((file.drop ph.offset).take ph.fileSize)[i]? = file[ph.offset + i]? := by
      rw [List.getElem?_take_of_lt hi, List.getElem?_drop]
    have hin : ph.offset + i < file.length := by omega
    refine ⟨file[ph.offset + i], List.getElem?_eq_getElem hin, hbytes i _ ?_⟩
    rw [hbyte, List.getElem?_eq_getElem hin]
  · intro hpage a ha hout
    have hv : floor (ph.loadAddr base) ≠ 0 := by
      unfold floor pageSize at *
      omega
    obtain ⟨e, he, hzero⟩ := hmapped (by simp) hv (floor a) ((hcovers a).mp ha)
    apply hkept a 0 hout
    unfold byteAt
    rw [he]
    exact congrArg some (hzero _ (Nat.mod_lt a pageSize_pos))
  · intro a c ha hc
    apply hkept a c
    · intro hin
      exact ha (ProgramHeader.covers_of_lt hin.1 (by omega))
    · rw [hgrew.byteAt (fun hpage => ha ((hcovers a).mpr hpage)), hc]

/-! ## The loop -/

/-- Each segment ends in the user half of the address space. -/
def InUserHalf (target : Polyhal.Target) (base : Nat) (phs : List ProgramHeader) : Prop :=
  ∀ ph ∈ phs, ph.kind = some .load → ph.loadAddr base + ph.memSize ≤ target.arch.userEnd

/-- No segment is longer in the file than in memory, each ends in the user half, and no two have a page
in common. -/
structure Loadable (target : Polyhal.Target) (base : Nat) (phs : List ProgramHeader) : Prop where
  sizes : ∀ ph ∈ phs, ph.kind = some .load → ph.fileSize ≤ ph.memSize
  ends : InUserHalf target base phs
  disjoint : phs.Pairwise (fun ph ph' => ph.kind = some .load → ph'.kind = some .load →
    ∀ a, ph.Covers base a → ¬ ph'.Covers base a)

theorem Loadable.tail (h : Loadable target base (ph :: phs)) : Loadable target base phs where
  sizes := fun ph' hph' => h.sizes ph' (List.mem_cons_of_mem _ hph')
  ends := fun ph' hph' => h.ends ph' (List.mem_cons_of_mem _ hph')
  disjoint := (List.pairwise_cons.mp h.disjoint).2

/-- A header is that of a segment to load, or passed over. -/
theorem loadSegments_cons (h : loadSegments file base m (ph :: phs) = some m') :
    (∃ m₁, ph.kind = some .load ∧ m.loadSegment file base ph = some m₁
        ∧ loadSegments file base m₁ phs = some m')
      ∨ ph.kind ≠ some .load ∧ loadSegments file base m phs = some m' := by
  unfold loadSegments at h
  cases hkind : ph.kind with
  | none =>
    rw [hkind] at h
    cases h
  | some kind =>
    rw [hkind] at h
    cases kind with
    | load =>
      obtain ⟨m₁, hload, hrest⟩ := Option.bind_eq_some_iff.mp h
      exact .inl ⟨m₁, rfl, hload, hrest⟩
    | interp => exact .inr ⟨by simp, h⟩
    | phdr => exact .inr ⟨by simp, h⟩
    | other => exact .inr ⟨by simp, h⟩

/-- Segment after segment: each is there in the end, since no later one has a page of it. -/
theorem loadSegments_spec :
    ∀ {m : UserMem}, Backed regions m → Loadable target base phs →
      loadSegments file base m phs = some m' →
      Backed regions m'
        ∧ (∀ ph ∈ phs, ph.kind = some .load → SegmentLoaded file base ph m')
        ∧ ∀ a c, (∀ ph ∈ phs, ph.kind = some .load → ¬ ph.Covers base a) → m.byteAt a = some c →
          m'.byteAt a = some c := by
  induction phs with
  | nil =>
    intro m hb _ h
    cases h
    exact ⟨hb, fun ph hph => absurd hph List.not_mem_nil, fun a c _ hc => hc⟩
  | cons ph phs ih =>
    intro m hb hphs h
    have hrest := hphs.tail
    rcases loadSegments_cons h with ⟨m₁, hkind, hload, hloads⟩ | ⟨hkind, hloads⟩
    · have hsizes := hphs.sizes ph List.mem_cons_self hkind
      have hend := (hphs.ends ph List.mem_cons_self hkind).trans_lt target.userEnd_lt
      obtain ⟨hb₁, hloaded, hkept⟩ := loadSegment_spec hb hend hsizes hload
      obtain ⟨hb', hall, hkept'⟩ := ih hb₁ hrest hloads
      refine ⟨hb', ?_, ?_⟩
      · intro ph' hph' hkind'
        rcases List.mem_cons.mp hph' with rfl | hph'
        · apply hloaded.mono hsizes
          intro a c ha hc
          apply hkept' a c _ hc
          intro ph'' hph'' hkind''
          exact (List.pairwise_cons.mp hphs.disjoint).1 ph'' hph'' hkind hkind'' a ha
        · exact hall ph' hph' hkind'
      · intro a c hout hc
        apply hkept' a c (fun ph' hph' => hout ph' (List.mem_cons_of_mem _ hph'))
        exact hkept a c (hout ph List.mem_cons_self hkind) hc
    · obtain ⟨hb', hall, hkept'⟩ := ih hb hrest hloads
      refine ⟨hb', ?_, fun a c hout => hkept' a c
        (fun ph' hph' => hout ph' (List.mem_cons_of_mem _ hph'))⟩
      intro ph' hph' hkind'
      rcases List.mem_cons.mp hph' with rfl | hph'
      · exact absurd hkind' hkind
      · exact hall ph' hph' hkind'

/-! ## The stack -/

theorem storePushed_backed {placed : List (Nat × StackItem)} :
    ∀ {m' : UserMem}, Backed regions m → m.storePushed placed = some m' →
      Backed regions m' := by
  induction placed with
  | nil =>
    intro m' hb h
    cases h
    exact hb
  | cons x placed ih =>
    intro m' hb h
    obtain ⟨m₁, hplaced, hstore⟩ := Option.bind_eq_some_iff.mp h
    exact (storeBytes_spec (ih hb hplaced) hstore).1

/-- Whatever the strings are, and however many stores fault: the page table is in order. -/
theorem initTaskStack_spec (hb : Backed regions m) {libcPath : String} {args : List String}
    {base : Nat} {path : String} {entryPoint phCount phEntrySize phAddr heapBottom : Nat}
    {t : ExecTask}
    (h : m.initTaskStack libcPath args base path entryPoint phCount phEntrySize phAddr heapBottom
      = some (t, m')) : Backed regions m' ∧ t.cx.sepc = wadd base entryPoint := by
  obtain ⟨⟨r, m₁⟩, halloc, hrest⟩ := Option.bind_eq_some_iff.mp h
  obtain ⟨m₂, hstores, heq⟩ := Option.map_eq_some_iff.mp hrest
  cases heq
  have hgrew := (frameAlloc_grew hb (by decide) (by decide) halloc).1
  exact ⟨storePushed_backed hgrew.backed hstores, ExecTask.setUpStack_sepc _ _ _ _ _ _ _ _ _⟩

end Segments

end UserMem

/-! ## The program -/

/-- The image of a segment: the bytes of the file, then zeros, also in the rest of its pages. In page
`0` there are only the bytes of the file. -/
structure ImageOf (file : List UInt8) (base : Nat) (ph : ProgramHeader) (m : UserMem) : Prop where
  data : ∀ i, i < ph.memSize → i < ph.fileSize →
    ∃ b, file[ph.offset + i]? = some b ∧ m.byteAt (ph.loadAddr base + i) = some b
  bss : pageSize ≤ ph.loadAddr base → ∀ i, i < ph.memSize → ph.fileSize ≤ i →
    m.byteAt (ph.loadAddr base + i) = some 0
  rest : pageSize ≤ ph.loadAddr base → ∀ a, ph.Covers base a →
    ¬ (ph.loadAddr base ≤ a ∧ a < ph.loadAddr base + ph.memSize) → m.byteAt a = some 0

theorem SegmentLoaded.imageOf (h : SegmentLoaded file base ph m)
    (hsizes : ph.fileSize ≤ ph.memSize) :
    ImageOf file base ph m where
  data := fun i _ hi => h.data i hi
  bss := by
    intro hpage i hi hfile
    apply h.zero hpage
    · exact ProgramHeader.covers_of_lt (by omega) (by omega)
    · omega
  rest := by
    intro hpage a ha hout
    exact h.zero hpage a ha (by omega)

/-- **The loaded image.** From a task without areas and pages, with free frames that are zero: when
the program is loaded, each segment is there, and the program starts at its entry point. -/
theorem loadElf_image (regions : List MemRegion) (m : UserMem)
    (hzero : ZeroInv regions m.frames.fa m.mem m.frames.held) (hareas : m.space.memset.areas = [])
    (hpt : ∀ p, m.space.pt p = none) (libcPath : String) (elf : Elf) (file : List UInt8)
    (args : List String) (path : PathBuf)
    (hloadable : UserMem.Loadable m.target elf.base elf.headers) (r : LoadedTask)
    (h : m.loadElf libcPath elf file args path = some r) :
    (∀ ph ∈ elf.headers, ph.kind = some .load → ImageOf file elf.base ph r.user)
      ∧ r.cx.sepc = wadd elf.base elf.entryPoint := by
  have hb := UserMem.Backed.of_empty hzero hareas hpt
  obtain ⟨top, -, h⟩ := Option.bind_eq_some_iff.mp h
  obtain ⟨_, -, h⟩ := Option.bind_eq_some_iff.mp h
  obtain ⟨⟨t, m₁⟩, hstack, h⟩ := Option.bind_eq_some_iff.mp h
  obtain ⟨m₂, hsegments, rfl⟩ := Option.map_eq_some_iff.mp h
  obtain ⟨hpushed, hsepc⟩ := UserMem.initTaskStack_spec hb hstack
  obtain ⟨-, hloaded, -⟩ := UserMem.loadSegments_spec hpushed hloadable hsegments
  refine ⟨?_, hsepc⟩
  intro ph hph hkind
  exact (hloaded ph hph hkind).imageOf (hloadable.sizes ph hph hkind)

/-! ## A program of one segment -/

/-- An ELF file of 120 bytes: its header, and that of a segment with eight of its bytes. -/
def tinyFile (virtualAddr memSize : Nat) : List UInt8 :=
  -- e_ident; e_type, e_machine, e_version, e_entry, e_phoff, e_shoff; e_flags, e_ehsize,
  -- e_phentsize, e_phnum, e_shentsize, e_shnum, e_shstrndx
  [0x7f, 0x45, 0x4c, 0x46, 2, 1, 1, 0] ++ leBytes 8 0
    ++ leBytes 2 2 ++ leBytes 2 243 ++ leBytes 4 1 ++ leBytes 8 virtualAddr ++ leBytes 8 64
    ++ leBytes 8 0 ++ leBytes 4 0 ++ leBytes 2 64 ++ leBytes 2 56 ++ leBytes 2 1 ++ leBytes 2 0
    ++ leBytes 2 0 ++ leBytes 2 0
    -- p_type, p_flags, p_offset, p_vaddr, p_paddr, p_filesz, p_memsz, p_align
    ++ leBytes 4 1 ++ leBytes 4 7 ++ leBytes 8 16 ++ leBytes 8 virtualAddr ++ leBytes 8 virtualAddr
    ++ leBytes 8 8 ++ leBytes 8 memSize ++ leBytes 8 4096

/-- What is parsed of it. -/
def tinyElf (virtualAddr memSize : Nat) : Elf where
  entryPoint := virtualAddr
  phOffset := 64
  phCount := 1
  phEntrySize := 56
  headers := [⟨some .load, virtualAddr, memSize, 8, 16⟩]
  relocates := some false

def tinyRegion : MemRegion := ⟨0x80000000, 0x80026000, rfl, rfl, by decide⟩

/-- A task without areas, and 38 frames: 32 for its stack with two tables, and two pages with two
more. -/
def tinyMem : UserMem :=
  ⟨⟨⟨.empty, ⟨.ofRegions [tinyRegion], []⟩⟩, .riscv64, []⟩, fun _ => 0, fun _ _ => 0⟩

theorem tinyMem_zero :
    ZeroInv [tinyRegion] tinyMem.frames.fa tinyMem.mem tinyMem.frames.held where
  inv := FrameAllocator.inv_ofRegions (List.pairwise_singleton _ _)
  zero := fun _ _ _ _ _ _ => rfl

theorem tinyElf_loadable {virtualAddr memSize : Nat} (hsize : 8 ≤ memSize)
    (hend : virtualAddr + memSize ≤ tinyMem.target.arch.userEnd) :
    UserMem.Loadable tinyMem.target (tinyElf virtualAddr memSize).base
      (tinyElf virtualAddr memSize).headers where
  sizes := List.forall_mem_singleton.mpr (fun _ => hsize)
  ends := List.forall_mem_singleton.mpr (fun _ => by
    have hmod : (0 + virtualAddr) % 2 ^ 64 ≤ 0 + virtualAddr := Nat.mod_le _ _
    show (0 + virtualAddr) % 2 ^ 64 + memSize ≤ tinyMem.target.arch.userEnd
    omega)
  disjoint := List.pairwise_singleton _ _

theorem loadElf_image_tiny :
    ∃ r, tinyMem.loadElf "/lib" (tinyElf 0x10ff0 0x20) (tinyFile 0x10ff0 0x20) ["a"] ["a"] = some r
      ∧ (∀ ph ∈ (tinyElf 0x10ff0 0x20).headers, ph.kind = some .load →
        ImageOf (tinyFile 0x10ff0 0x20) 0 ph r.user)
      ∧ r.cx.sepc = 0x10ff0 := by
  have hloads : (tinyMem.loadElf "/lib" (tinyElf 0x10ff0 0x20) (tinyFile 0x10ff0 0x20) ["a"]
      ["a"]).isSome = true := by
    decide +kernel
  obtain ⟨r, hr⟩ := Option.isSome_iff_exists.mp hloads
  have himage := loadElf_image [tinyRegion] tinyMem tinyMem_zero rfl (fun _ => rfl) "/lib"
    (tinyElf 0x10ff0 0x20) (tinyFile 0x10ff0 0x20) ["a"] ["a"]
    (tinyElf_loadable (by decide) (by decide)) r hr
  exact ⟨r, hr, himage⟩

/-- A segment in page `0`, of two pages: the program is loaded, but the second page is not mapped,
and with no frame left a load from it is answered with SIGSEGV. -/
theorem loadElf_page_zero :
    ZeroInv [tinyRegion] tinyMem.frames.fa tinyMem.mem tinyMem.frames.held
      ∧ (tinyElf 0x10 0x1ff0).interp = none
      ∧ UserMem.Loadable tinyMem.target (tinyElf 0x10 0x1ff0).base (tinyElf 0x10 0x1ff0).headers
      ∧ 0x10 + 0x1ff0 ≤ ExecTask.userStackTop - ExecTask.userStackInitSize
      ∧ ∃ r, tinyMem.loadElf "/lib" (tinyElf 0x10 0x1ff0) (tinyFile 0x10 0x1ff0) ["a"] ["a"] = some r
        ∧ r.user.byteAt (0x10 + 0xff0) = none ∧ (r.user.fault (0x10 + 0xff0)).isNone = true := by
  have hval : (tinyMem.loadElf "/lib" (tinyElf 0x10 0x1ff0) (tinyFile 0x10 0x1ff0) ["a"] ["a"]).map
        (fun r => (r.user.byteAt (0x10 + 0xff0), (r.user.fault (0x10 + 0xff0)).isNone))
      = some (none, true) := by
    decide +kernel
  obtain ⟨r, hr, hobs⟩ := Option.map_eq_some_iff.mp hval
  obtain ⟨hbyte, hfault⟩ := Prod.mk.inj hobs
  exact ⟨tinyMem_zero, rfl, tinyElf_loadable (by decide) (by decide), by decide, r, hr, hbyte, hfault⟩

end MonkeyOS
