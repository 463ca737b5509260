import MonkeyOS.Mem.Overlap
import MonkeyOS.Mem.PageTree

/-!
# MonkeyOS — page faults anywhere (`kernel/src/user/mod.rs`, `user_cow_int`)

`Mem/Fault` has the handler for an address that some area covers. For the others the handler goes by
the range the address lies in: it grows the stack, reads a page of the program's file, takes twelve
pages for the heap, one for thread-local storage, sends SIGSEGV or ends the task.

* `Elsewhere` — from one state to another, no page but that of the fault has changed;
* `onlyPage_of_strip` — it is enough to look at the trackers and the page table when the areas keep
  their bounds, as in a covered fault (`onlyPage_faulted`) and when a stack grows;
* `onlyPage_addPage_iff`, `not_elsewhere_install` — a new area over the page keeps it, provided
  nothing else is there, and a new area over any other page breaks it;
* `onlyPage_fillTls_iff` — the page for thread-local storage is cleared as 4096 numbers of 32 bits,
  which clears the three frames behind it, too, with the tables that may lie there;
* `onlyPage_exited_iff` — the last thread of a process takes the areas with it;
* `userCowInt_onlyPage_iff` — the faults after which only the page has changed;
* `userCowInt_heap_overwrites` — a heap block that runs into a mapping.

What the frame allocator and the file answer is a parameter of the fault.
-/

namespace MonkeyOS

open Lib

/-! ## `get_elf_segment_for_addr` -/

/-- The gap between two neighbours of the list that holds the address; its file is that of the area
before. -/
def gapSegment (vaddr : Nat) : List MemArea → Option (Nat × Nat × Nat)
  | current :: next :: rest =>
    if current.stop < next.start ∧ current.stop ≤ vaddr ∧ vaddr < next.start then
      match current.file with
      | some file =>
        some (file, (current.offset + (vaddr - current.start)) % 2 ^ 64, next.start - current.stop)
      | none => gapSegment vaddr (next :: rest)
    else gapSegment vaddr (next :: rest)
  | _ => none

/-- The file, the offset in it and the length of the segment. -/
def MemSet.getElfSegmentForAddr (m : MemSet) (vaddr : Nat) : Option (Nat × Nat × Nat) :=
  match gapSegment vaddr m.areas with
  | some segment => some segment
  | none => m.areas.findSome? (fun area =>
      if area.contains vaddr then
        area.file.map (fun file =>
          (file, (area.offset + (floor vaddr + 2 ^ 64 - area.start)) % 2 ^ 64, area.len))
      else none)

/-! ## `user_cow_int` -/

inductive FaultEnd where
  | resolved
  /-- the handler returns, and nothing has happened -/
  | ignored
  | segv
  | exited (code : Nat)
  deriving DecidableEq

/-- `LAST_TLS_ADDR` and `TLS_COUNT`. -/
structure TlsLoop where
  lastAddr : Nat
  count : Nat
  deriving DecidableEq

/-- What the handler asks of the rest of the kernel, in one fault. -/
structure FaultAnswers where
  /-- for an address that an area covers -/
  cow : FaultEnv
  /-- the allocator at the first request for frames -/
  first : MmapEnv
  /-- the allocator when a blank page is asked for in place of a page of the file -/
  second : MmapEnv
  /-- `stat.size`, if `file.stat` succeeds -/
  fileSize : Nat → Option Nat
  /-- whether `file.readat` at the offset succeeds -/
  readOk : Nat → Nat → Bool
  /-- SIGSEGV is pending -/
  hasSegv : Bool
  /-- the task is the main thread, and the only one left -/
  lastThread : Bool
  /-- the frames of the tables an address goes through, once the page of the fault is mapped -/
  tables : Nat → List Nat
  tls : TlsLoop

structure FaultOut where
  space : AddrSpace
  tls : TlsLoop
  ending : FaultEnd

/-- What the file of a fault has to offer: no file, a page to be read, or nothing. -/
inductive ElfPage where
  | blank
  | read (file offset : Nat)
  | unreadable
  deriving DecidableEq

namespace AddrSpace

def elfPage (s : AddrSpace) (env : FaultAnswers) (vaddr : Nat) : ElfPage :=
  match s.memset.getElfSegmentForAddr vaddr with
  | none => .blank
  | some (file, fileOffset, _) =>
    match env.fileSize file with
    | none => .unreadable
    | some fileSize => if fileOffset ≥ fileSize then .unreadable else .read file fileOffset

/-- Pages of an `Mmap` area from the page of the fault on, or SIGSEGV. -/
def blankPages (s : AddrSpace) (alloc : MmapEnv) (tls : TlsLoop) (vaddr count : Nat) : FaultOut :=
  match s.frameAlloc alloc (floor vaddr) .mmap count with
  | some (_, s) => ⟨s, tls, .resolved⟩
  | none => ⟨s, tls, .segv⟩

/-- A page of the program's file. There is something to read, since the offset is in the file; when
it cannot be read a blank page is added after it. -/
def elfFault (s : AddrSpace) (env : FaultAnswers) (vaddr : Nat) : FaultOut :=
  match s.elfPage env vaddr with
  | .unreadable => ⟨s, env.tls, .ignored⟩
  | .blank => s.blankPages env.second env.tls vaddr 1
  | .read file fileOffset =>
    match s.frameAlloc env.first (floor vaddr) .mmap 1 with
    | some (_, s) =>
      if env.readOk file fileOffset then ⟨s, env.tls, .resolved⟩
      else s.blankPages env.second env.tls vaddr 1
    | none => s.blankPages env.second env.tls vaddr 1

/-- `task.exit`: the last thread clears the memory set. The page table is not touched. -/
def exited (s : AddrSpace) (env : FaultAnswers) : AddrSpace :=
  if env.lastThread then { s with memset := ⟨[]⟩ } else s

/-- A table of `p` lies in the three frames behind `frame`. -/
def overfills (env : FaultAnswers) (frame p : Nat) : Bool :=
  (env.tables p).any (fun table => inRange (frame + pageSize) (frame + 4 * pageSize) table)

/-- `ppn.slice_mut_with_len(PAGE_SIZE).fill(0)`, a slice of `i32`: four frames are cleared, and a page
whose tables are among them is no longer mapped. -/
def fillTls (s : AddrSpace) (env : FaultAnswers) (frame : Nat) : AddrSpace :=
  { s with pt := fun p => if overfills env frame p then none else s.pt p }

/-- The same page for the fourth time in a row ends the task. -/
def tlsLoops (env : FaultAnswers) (vaddr : Nat) : Bool :=
  env.tls.lastAddr == floor vaddr && decide (env.tls.count + 1 > 3)

def tlsFault (s : AddrSpace) (env : FaultAnswers) (vaddr : Nat) : FaultOut :=
  let tls : TlsLoop :=
    ⟨floor vaddr, if env.tls.lastAddr = floor vaddr then env.tls.count + 1 else 1⟩
  if tlsLoops env vaddr then ⟨s.exited env, tls, .exited 1⟩
  else
    match s.frameAlloc env.first (floor vaddr) .mmap 1 with
    | some (frame, s) => ⟨s.fillTls env frame, { tls with count := 0 }, .resolved⟩
    | none => ⟨s, tls, .segv⟩

/-- No area covers the address. -/
def missed (s : AddrSpace) (env : FaultAnswers) (vaddr : Nat) : FaultOut :=
  if inRange 0x70000000 0x80000000 vaddr then
    match s.frameAlloc env.first (floor vaddr) .stack 1 with
    | some (_, s) => ⟨s, env.tls, .resolved⟩
    -- the range meets none of the others
    | none => ⟨s, env.tls, .segv⟩
  else if vaddr < 0x1000 then
    if env.hasSegv then ⟨s.exited env, env.tls, .exited (128 + 11)⟩ else ⟨s, env.tls, .segv⟩
  else if inRange 0x10000 0x100000 vaddr then s.elfFault env vaddr
  else if inRange 0x1000000 0x2000000 vaddr then s.blankPages env.first env.tls vaddr 12
  else if inRange 0x200000000 0x300000000 vaddr then s.tlsFault env vaddr
  else if inRange 0x200a0000 0x300b0000 vaddr then s.elfFault env vaddr
  else ⟨s, env.tls, .segv⟩

def userCowInt (s : AddrSpace) (env : FaultAnswers) (vaddr : Nat) : FaultOut :=
  match MonkeyOS.userCowInt s.memset s.pt env.cow vaddr with
  | some r =>
    ⟨{ s with memset := r.memset, pt := r.pt }, env.tls,
      if r.effect = .segv then .segv else .resolved⟩
  | none => s.missed env vaddr

/-! ## The faults that change their page only -/

/-- From `s` to `t` nothing has changed outside the page of `vaddr`: the frames, the areas an address
belongs to, the trackers. -/
structure Elsewhere (s t : AddrSpace) (vaddr : Nat) : Prop where
  frames : ∀ p, floor p ≠ floor vaddr →
    (t.pt p).map (·.frame) = (s.pt p).map (·.frame)
  areas : ∀ p, floor p ≠ floor vaddr →
    (t.memset.areas.filter (·.contains p)).map MemArea.strip
      = (s.memset.areas.filter (·.contains p)).map MemArea.strip
  trackers : ∀ p, floor p ≠ floor vaddr →
    t.memset.trackers.filter (·.vaddr == p)
      = s.memset.trackers.filter (·.vaddr == p)

structure OnlyPage (s t : AddrSpace) (vaddr : Nat) : Prop where
  elsewhere : s.Elsewhere t vaddr
  disjoint : t.memset.areas.Pairwise MemArea.Disjoint

/-- No area reaches into the page. -/
def PageClear (s : AddrSpace) (vaddr : Nat) : Prop :=
  ∀ a ∈ s.memset.areas, ∀ p, a.contains p = true → floor p ≠ floor vaddr

/-- A page of the file, or a blank one: there is room for it, and it is not taken twice. -/
def ElfStays (s : AddrSpace) (env : FaultAnswers) (vaddr : Nat) : Prop :=
  match s.elfPage env vaddr with
  | .unreadable => True
  | .blank => (env.second.frameAllocMuch 1).isSome → s.PageClear vaddr
  | .read file fileOffset =>
    ((env.first.frameAllocMuch 1).isSome ∨ (env.second.frameAllocMuch 1).isSome →
      s.PageClear vaddr)
    ∧ ((env.first.frameAllocMuch 1).isSome → (env.second.frameAllocMuch 1).isSome →
      env.readOk file fileOffset = true)

/-- The tables of the other pages are not in the frames that are cleared with `frame`. -/
def TablesApart (s : AddrSpace) (env : FaultAnswers) (frame vaddr : Nat) : Prop :=
  ∀ p, floor p ≠ floor vaddr → s.pt p ≠ none → overfills env frame p = false

/-- The last thread leaves, and outside the page it had nothing. -/
def ExitStays (s : AddrSpace) (env : FaultAnswers) (vaddr : Nat) : Prop :=
  env.lastThread = true →
    (∀ a ∈ s.memset.areas, ∀ p, a.contains p = true → floor p = floor vaddr)
      ∧ ∀ x ∈ s.memset.trackers, floor x.vaddr = floor vaddr

/-- By the range of an address that is not covered: the stack is there already, the heap gets no
frames, a page that is added has room, a task that ends is not the last thread. -/
def StaysInPage (s : AddrSpace) (env : FaultAnswers) (vaddr : Nat) : Prop :=
  if inRange 0x70000000 0x80000000 vaddr then
    (env.first.frameAllocMuch 1).isSome → ∃ a ∈ s.memset.areas, a.mtype = .stack
  else if vaddr < 0x1000 then env.hasSegv = true → s.ExitStays env vaddr
  else if inRange 0x10000 0x100000 vaddr then s.ElfStays env vaddr
  else if inRange 0x1000000 0x2000000 vaddr then
    env.first.frameAllocMuch 12 = none ∧ env.first.segments 12 = none
  else if inRange 0x200000000 0x300000000 vaddr then
    if tlsLoops env vaddr then s.ExitStays env vaddr
    else ∀ frame, env.first.frameAllocMuch 1 = some frame →
      s.PageClear vaddr ∧ s.TablesApart env frame vaddr
  else if inRange 0x200a0000 0x300b0000 vaddr then s.ElfStays env vaddr
  else True

/-! ## When the areas keep their bounds -/

section Strip

variable {s t : AddrSpace} {vaddr : Nat}

theorem Elsewhere.refl (s : AddrSpace) (vaddr : Nat) : s.Elsewhere s vaddr :=
  ⟨fun _ _ => rfl, fun _ _ => rfl, fun _ _ => rfl⟩

/-- An area is found by its bounds. -/
theorem filter_contains_strip (areas : List MemArea) (p : Nat) :
    (areas.filter (·.contains p)).map MemArea.strip
      = (areas.map MemArea.strip).filter (·.contains p) := by
  rw [List.filter_map]
  rfl

theorem floor_floor (p : Nat) : floor (floor p) = floor p := by
  unfold floor
  rw [Nat.mul_div_cancel _ pageSize_pos]

theorem ne_floor {p vaddr : Nat} (hp : floor p ≠ floor vaddr) : p ≠ floor vaddr := by
  intro heq
  rw [heq, floor_floor] at hp
  exact hp rfl

theorem onlyPage_of_strip (hdisjoint : s.memset.areas.Pairwise MemArea.Disjoint)
    (hstrip : t.memset.strip = s.memset.strip)
    (hpt : ∀ p, p ≠ floor vaddr → t.pt p = s.pt p)
    (htrackers : ∀ p, floor p ≠ floor vaddr →
      t.memset.trackers.filter (·.vaddr == p)
        = s.memset.trackers.filter (·.vaddr == p)) : s.OnlyPage t vaddr := by
  have hareas : t.memset.areas.map MemArea.strip = s.memset.areas.map MemArea.strip :=
    congrArg MemSet.areas hstrip
  refine ⟨⟨?_, ?_, htrackers⟩, ?_⟩
  · intro p hp
    rw [hpt p (ne_floor hp)]
  · intro p _
    rw [filter_contains_strip, filter_contains_strip, hareas]
  · -- being disjoint is a matter of the bounds
    have hold : (s.memset.areas.map MemArea.strip).Pairwise MemArea.Disjoint :=
      List.pairwise_map.mpr hdisjoint
    rw [← hareas] at hold
    exact (List.pairwise_map.mp hold).imp (fun h => h)

/-- One area has other trackers for the page, and the page another entry. -/
theorem onlyPage_retrack (hdisjoint : s.memset.areas.Pairwise MemArea.Disjoint)
    {pre post : List MemArea} {a : MemArea} (hareas : s.memset.areas = pre ++ a :: post)
    {ts : List MapTrack} {pt : PageTable} (hpt : ∀ p, p ≠ floor vaddr → pt p = s.pt p)
    (hts : ∀ p, floor p ≠ floor vaddr →
      ts.filter (·.vaddr == p) = a.mtrackers.filter (·.vaddr == p)) :
    s.OnlyPage { s with memset := ⟨pre ++ { a with mtrackers := ts } :: post⟩, pt := pt } vaddr := by
  have hm : s.memset = ⟨pre ++ a :: post⟩ := by rw [← hareas]
  refine onlyPage_of_strip hdisjoint ?_ hpt ?_
  · rw [hm]
    simp [MemSet.strip, MemArea.strip]
  intro p hp
  rw [hm, MemSet.trackers_split, MemSet.trackers_split]
  simp only [List.filter_append, hts p hp]

end Strip

/-! ## A covered address -/

variable {p vaddr : Nat} {env : FaultEnv}

theorem filter_vaddr_of_floor_ne (hp : floor p ≠ floor vaddr) {x : MapTrack}
    (hx : x.vaddr = floor vaddr) : (x.vaddr == p) = false := by
  rw [hx, beq_eq_false_iff_ne]
  exact (ne_floor hp).symm

theorem mapPage_of_ne (pt : PageTable) {v frame : Nat} (flags : MappingFlags) (hp : p ≠ v) :
    pt.mapPage v frame flags p = pt p :=
  if_neg hp

theorem onlyPage_faulted {s : AddrSpace} {r : FaultResult}
    (hdisjoint : s.memset.areas.Pairwise MemArea.Disjoint)
    (h : MonkeyOS.userCowInt s.memset s.pt env vaddr = some r) :
    s.OnlyPage { s with memset := r.memset, pt := r.pt } vaddr := by
  obtain ⟨pre, a, post, hareas, -, hfaulted⟩ := userCowInt_faulted h
  cases hfaulted with
  | segv => exact onlyPage_retrack hdisjoint hareas (fun _ _ => rfl) (fun _ _ => rfl)
  | remapped ht hvaddr hmtype hcount =>
    exact onlyPage_retrack hdisjoint hareas (fun _ => mapPage_of_ne _ _) (fun _ _ => rfl)
  | copied hsplit hvaddr hmtype hcount hframe =>
    -- the tracker of the page has another frame
    refine onlyPage_retrack hdisjoint hareas (fun _ => mapPage_of_ne _ _) (fun p hp => ?_)
    rw [hsplit, List.filter_append, List.filter_append, List.filter_cons, List.filter_cons,
      filter_vaddr_of_floor_ne hp hvaddr]
    rfl
  | filled hnone hframe hsource =>
    refine onlyPage_retrack hdisjoint hareas (fun _ => mapPage_of_ne _ _) (fun p hp => ?_)
    rw [List.filter_append, List.filter_cons, filter_vaddr_of_floor_ne hp rfl]
    simp

/-! ## A new area -/

section Install

variable {s : AddrSpace} {vaddr : Nat}

/-- An area over another page, too. -/
theorem not_elsewhere_install {a : MemArea} {v p : Nat} {flags : MappingFlags}
    (hp : floor p ≠ floor vaddr) (ha : a.contains p = true) :
    ¬ s.Elsewhere (s.install v a flags) vaddr := by
  intro h
  have hlen := congrArg List.length (h.areas p hp)
  simp [install, MemSet.push, List.filter_append, ha] at hlen

theorem disjoint_push_iff {a : MemArea} (m : MemSet) :
    (m.push a).areas.Pairwise MemArea.Disjoint
      ↔ m.areas.Pairwise MemArea.Disjoint ∧ ∀ b ∈ m.areas, b.Disjoint a := by
  unfold MemSet.push
  rw [List.pairwise_append]
  simp

/-- The area of one page. -/
def pageArea (page frame : Nat) : MemArea := ⟨.mmap, [⟨page, frame, 0⟩], none, 0, page, pageSize⟩

theorem contains_pageArea {frame p : Nat} :
    (pageArea (floor vaddr) frame).contains p = true ↔ floor p = floor vaddr := by
  rw [MemArea.contains_iff]
  unfold pageArea MemArea.stop floor pageSize
  dsimp only
  omega

def addPage (s : AddrSpace) (vaddr frame : Nat) : AddrSpace :=
  s.install (floor vaddr) (pageArea (floor vaddr) frame) urwx

theorem elsewhere_addPage (frame : Nat) : s.Elsewhere (s.addPage vaddr frame) vaddr := by
  refine ⟨fun p hp => ?_, fun p hp => ?_, fun p hp => ?_⟩
  · have hpt : (s.addPage vaddr frame).pt p = s.pt p := by
      show s.mapArea _ _ _ p = _
      unfold mapArea
      split
      · apply PageTable.mapTrackers_of_not_mem
        intro x hx
        rw [List.mem_singleton.mp (List.mem_filter.mp hx).1]
        exact (ne_floor hp).symm
      · rfl
    rw [hpt]
  · have hnot : (pageArea (floor vaddr) frame).contains p = false := by
      rw [← Bool.not_eq_true, contains_pageArea]
      exact hp
    simp [addPage, install, MemSet.push, List.filter_append, hnot]
  · show List.filter _ (s.memset.push _).trackers = _
    rw [MemSet.trackers_push, List.filter_append]
    simp [pageArea, (ne_floor hp).symm]

theorem onlyPage_addPage_iff (hdisjoint : s.memset.areas.Pairwise MemArea.Disjoint) (frame : Nat) :
    s.OnlyPage (s.addPage vaddr frame) vaddr ↔ s.PageClear vaddr := by
  constructor
  · intro h b hb p hbp heq
    exact ((disjoint_push_iff s.memset).mp h.disjoint).2 b hb p ⟨hbp, contains_pageArea.mpr heq⟩
  · intro h
    refine ⟨elsewhere_addPage frame, (disjoint_push_iff s.memset).mpr ⟨hdisjoint, ?_⟩⟩
    intro b hb p hp
    exact h b hb p hp.1 (contains_pageArea.mp hp.2)

/-- Two areas over the page. -/
theorem not_onlyPage_addPage_twice (frame frame' : Nat) :
    ¬ s.OnlyPage ((s.addPage vaddr frame).addPage vaddr frame') vaddr := by
  intro h
  have hpage : (pageArea (floor vaddr) frame).contains vaddr = true := contains_pageArea.mpr rfl
  exact ((disjoint_push_iff (s.memset.push _)).mp h.disjoint).2 _
    List.mem_append_cons_self vaddr ⟨hpage, contains_pageArea.mpr rfl⟩

end Install

/-! ## The requests for frames -/

section Requests

variable {s : AddrSpace} {vaddr : Nat}

/-- One page, if the allocator has one. -/
theorem frameAlloc_page (hvaddr : floor vaddr ≠ 0) (alloc : MmapEnv) :
    s.frameAlloc alloc (floor vaddr) .mmap 1
      = (alloc.frameAllocMuch 1).map (fun frame => (frame, s.addPage vaddr frame)) := by
  unfold frameAlloc
  rw [if_neg (by decide)]
  unfold mapFrames
  congr 1
  funext frame
  simp [addPage, pageArea, pageTrackers, contiguous, hvaddr, MemType.allocFlags]

theorem contains_stackArea (ts : List MapTrack) {p : Nat} (hlo : 0x70000000 ≤ p)
    (hhi : p < 0x80000000) :
    (⟨.stack, ts, none, 0, 0x70000000, 0x10000000⟩ : MemArea).contains p = true := by
  simp only [MemArea.contains_iff, MemArea.stop]
  exact ⟨hlo, hhi⟩

variable {alloc : MmapEnv} {t : AddrSpace} {count frame : Nat}

/-- The stack's area is there, or the whole range becomes one. -/
theorem onlyPage_stack_iff (hdisjoint : s.memset.areas.Pairwise MemArea.Disjoint)
    (h : s.frameAlloc alloc (floor vaddr) .stack 1 = some (frame, t)) :
    s.OnlyPage t vaddr ↔ ∃ a ∈ s.memset.areas, a.mtype = .stack := by
  unfold frameAlloc at h
  rw [if_neg (by decide)] at h
  unfold mapFrames at h
  obtain ⟨ppn, -, hr⟩ := Option.map_eq_some_iff.mp h
  dsimp only at hr
  rw [if_pos rfl] at hr
  have hvaddrs : ∀ x ∈ pageTrackers (floor vaddr) (contiguous ppn 1), x.vaddr = floor vaddr := by
    intro x hx
    simp [pageTrackers, contiguous] at hx
    rw [hx]
  split at hr
  · rename_i areas hup
    obtain ⟨pre, a, post, hareas, ha, -, rfl⟩ := updateFirst_eq_some hup
    obtain ⟨-, rfl⟩ := Prod.mk.inj hr
    have hstack : a.mtype = .stack := by simpa using ha
    refine iff_of_true (onlyPage_retrack hdisjoint hareas ?_ ?_)
      ⟨a, by rw [hareas]; exact List.mem_append_cons_self, hstack⟩
    · intro p hp
      unfold mapArea
      split
      · apply PageTable.mapTrackers_of_not_mem
        intro x hx
        rw [hvaddrs x (List.mem_filter.mp hx).1]
        exact hp.symm
      · rfl
    · intro p hp
      have hnone : (pageTrackers (floor vaddr) (contiguous ppn 1)).filter (·.vaddr == p)
          = [] := by
        apply List.filter_eq_nil_iff.mpr
        intro x hx
        rw [filter_vaddr_of_floor_ne hp (hvaddrs x hx)]
        decide
      rw [List.filter_append, hnone, List.append_nil]
  · rename_i hup
    obtain ⟨-, rfl⟩ := Prod.mk.inj hr
    refine iff_of_false (fun hpage => ?_) ?_
    · -- the range has more pages than one
      have hother : ∃ p, floor p ≠ floor vaddr ∧ 0x70000000 ≤ p ∧ p < 0x80000000 := by
        unfold floor pageSize
        rcases Nat.lt_or_ge vaddr 0x70001000 with hlt | hge
        · exact ⟨0x70001000, by omega, by omega, by omega⟩
        · exact ⟨0x70000000, by omega, by omega, by omega⟩
      obtain ⟨p, hp, hrange⟩ := hother
      exact not_elsewhere_install hp (contains_stackArea _ hrange.1 hrange.2) hpage.elsewhere
    · rintro ⟨a, ha, hstack⟩
      exact updateFirst_ne_none ha (by simpa using hstack) hup

/-- Several pages. -/
theorem not_onlyPage_block (hcount : 1 < count)
    (h : s.frameAlloc alloc (floor vaddr) .mmap count = some (frame, t)) :
    ¬ s.OnlyPage t vaddr := by
  obtain ⟨frames, -, -, ht⟩ := frameAlloc_cases (by decide) h
  change t = _ at ht
  rw [ht]
  intro hpage
  have hps := pageSize_pos
  have hnext : floor (floor vaddr + pageSize) ≠ floor vaddr := by
    unfold floor pageSize
    omega
  refine not_elsewhere_install hnext (MemArea.contains_iff.mpr ?_) hpage.elsewhere
  have hmul : 2 * pageSize ≤ count * pageSize := Nat.mul_le_mul_right _ hcount
  show floor vaddr ≤ floor vaddr + pageSize
    ∧ floor vaddr + pageSize < floor vaddr + count * pageSize
  omega

theorem frameAlloc_block_eq_none (alloc : MmapEnv) (hcount : 1 < count) :
    s.frameAlloc alloc (floor vaddr) .mmap count = none
      ↔ alloc.frameAllocMuch count = none ∧ alloc.segments count = none := by
  unfold frameAlloc
  rw [if_pos ⟨rfl, hcount⟩]
  cases alloc.frameAllocMuch count with
  | some frame => simp
  | none => simp

theorem OnlyPage.refl (hdisjoint : s.memset.areas.Pairwise MemArea.Disjoint) :
    s.OnlyPage s vaddr :=
  ⟨.refl s vaddr, hdisjoint⟩

theorem onlyPage_blankPage_iff (hdisjoint : s.memset.areas.Pairwise MemArea.Disjoint)
    (hvaddr : floor vaddr ≠ 0) (alloc : MmapEnv) (tls : TlsLoop) :
    s.OnlyPage (s.blankPages alloc tls vaddr 1).space vaddr
      ↔ ((alloc.frameAllocMuch 1).isSome → s.PageClear vaddr) := by
  unfold blankPages
  rw [frameAlloc_page hvaddr]
  cases alloc.frameAllocMuch 1 with
  | none => simpa using OnlyPage.refl hdisjoint
  | some frame => simpa using onlyPage_addPage_iff hdisjoint frame

theorem onlyPage_elfFault_iff (hdisjoint : s.memset.areas.Pairwise MemArea.Disjoint)
    (hvaddr : floor vaddr ≠ 0) (env : FaultAnswers) :
    s.OnlyPage (s.elfFault env vaddr).space vaddr ↔ s.ElfStays env vaddr := by
  unfold elfFault ElfStays
  cases s.elfPage env vaddr with
  | unreadable => simpa using OnlyPage.refl hdisjoint
  | blank => exact onlyPage_blankPage_iff hdisjoint hvaddr env.second env.tls
  | read file fileOffset =>
    dsimp only
    rw [frameAlloc_page hvaddr]
    cases env.first.frameAllocMuch 1 with
    | none => simpa using onlyPage_blankPage_iff hdisjoint hvaddr env.second env.tls
    | some frame =>
      dsimp only [Option.map_some]
      cases hread : env.readOk file fileOffset with
      | true => simpa using onlyPage_addPage_iff hdisjoint frame
      | false =>
        -- the page stays, and a second one may come on top of it
        rw [if_neg (by decide)]
        unfold blankPages
        rw [frameAlloc_page hvaddr]
        cases env.second.frameAllocMuch 1 with
        | none => simpa using onlyPage_addPage_iff hdisjoint frame
        | some frame' => simpa using not_onlyPage_addPage_twice frame frame'

theorem onlyPage_exited_iff (hdisjoint : s.memset.areas.Pairwise MemArea.Disjoint)
    (env : FaultAnswers) : s.OnlyPage (s.exited env) vaddr ↔ s.ExitStays env vaddr := by
  unfold exited ExitStays
  cases env.lastThread with
  | false => simpa using OnlyPage.refl hdisjoint
  | true =>
    rw [if_pos rfl]
    constructor
    · intro h _
      refine ⟨fun a ha p hp => by_contra fun hne => ?_, fun x hx => by_contra fun hne => ?_⟩
      · have hnone := List.map_eq_nil_iff.mp (h.elsewhere.areas p hne).symm
        exact absurd hp (List.filter_eq_nil_iff.mp hnone a ha)
      · have hnone := (h.elsewhere.trackers x.vaddr hne).symm
        exact absurd (beq_self_eq_true _) (List.filter_eq_nil_iff.mp hnone x hx)
    · intro h
      obtain ⟨hareas, htrackers⟩ := h rfl
      refine ⟨⟨fun _ _ => rfl, fun p hp => ?_, fun p hp => ?_⟩, .nil⟩
      · rw [List.filter_eq_nil_iff.mpr fun a ha hap => hp (hareas a ha p hap)]
        rfl
      refine (List.filter_eq_nil_iff.mpr fun x hx hxp => hp ?_).symm
      rw [← beq_iff_eq.mp hxp]
      exact htrackers x hx

theorem onlyPage_fillTls_iff (hdisjoint : s.memset.areas.Pairwise MemArea.Disjoint)
    (env : FaultAnswers) (frame : Nat) :
    s.OnlyPage ((s.addPage vaddr frame).fillTls env frame) vaddr
      ↔ s.PageClear vaddr ∧ s.TablesApart env frame vaddr := by
  have hadd : s.OnlyPage (s.addPage vaddr frame) vaddr ↔ s.PageClear vaddr :=
    onlyPage_addPage_iff hdisjoint frame
  have hpt : ∀ p, ((s.addPage vaddr frame).fillTls env frame).pt p
      = if overfills env frame p then none else (s.addPage vaddr frame).pt p := fun _ => rfl
  constructor
  · intro h
    refine ⟨hadd.mp ⟨elsewhere_addPage frame, h.disjoint⟩, fun p hp hmapped => ?_⟩
    rw [← Bool.not_eq_true]
    intro hover
    have hframe := h.elsewhere.frames p hp
    rw [hpt, if_pos hover] at hframe
    exact hmapped (Option.map_eq_none_iff.mp hframe.symm)
  · rintro ⟨hclear, hapart⟩
    have hpage := hadd.mpr hclear
    refine ⟨⟨fun p hp => ?_, hpage.elsewhere.areas, hpage.elsewhere.trackers⟩, hpage.disjoint⟩
    rw [hpt]
    split
    · -- only a page that was not mapped anyway
      rename_i hover
      have hnone : s.pt p = none := by_contra fun hmapped =>
        Bool.false_ne_true ((hapart p hp hmapped).symm.trans hover)
      rw [hnone]
    · exact hpage.elsewhere.frames p hp

theorem onlyPage_tlsFault_iff (hdisjoint : s.memset.areas.Pairwise MemArea.Disjoint)
    (hvaddr : floor vaddr ≠ 0) (env : FaultAnswers) :
    s.OnlyPage (s.tlsFault env vaddr).space vaddr
      ↔ if tlsLoops env vaddr then s.ExitStays env vaddr
        else ∀ frame, env.first.frameAllocMuch 1 = some frame →
          s.PageClear vaddr ∧ s.TablesApart env frame vaddr := by
  unfold tlsFault
  dsimp only
  split
  · exact onlyPage_exited_iff hdisjoint env
  rw [frameAlloc_page hvaddr]
  cases env.first.frameAllocMuch 1 with
  | none => simpa using OnlyPage.refl hdisjoint
  | some frame => simpa using onlyPage_fillTls_iff hdisjoint env frame

theorem onlyPage_missed_iff (hdisjoint : s.memset.areas.Pairwise MemArea.Disjoint)
    (env : FaultAnswers) :
    s.OnlyPage (s.missed env vaddr).space vaddr ↔ s.StaysInPage env vaddr := by
  unfold missed StaysInPage
  split
  · -- the stack
    cases halloc : s.frameAlloc env.first (floor vaddr) .stack 1 with
    | none =>
      have hnone : env.first.frameAllocMuch 1 = none := by
        unfold frameAlloc mapFrames at halloc
        simpa using halloc
      simpa [hnone] using OnlyPage.refl hdisjoint
    | some r =>
      have hsome : (env.first.frameAllocMuch 1).isSome := by
        rw [Option.isSome_iff_ne_none]
        intro hnone
        unfold frameAlloc mapFrames at halloc
        simp [hnone] at halloc
      simpa [hsome] using onlyPage_stack_iff hdisjoint halloc
  · split
    · cases env.hasSegv with
      | true => simpa using onlyPage_exited_iff hdisjoint env
      | false => simpa using OnlyPage.refl hdisjoint
    · rename_i hlow
      have hvaddr : floor vaddr ≠ 0 := by
        unfold floor pageSize
        omega
      split
      · exact onlyPage_elfFault_iff hdisjoint hvaddr env
      split
      · -- the heap: twelve pages, or none
        rw [← frameAlloc_block_eq_none env.first (by decide)]
        unfold blankPages
        cases halloc : s.frameAlloc env.first (floor vaddr) .mmap 12 with
        | none => simpa using OnlyPage.refl hdisjoint
        | some r => simpa using not_onlyPage_block (by decide) halloc
      · split
        · exact onlyPage_tlsFault_iff hdisjoint hvaddr env
        · split
          · exact onlyPage_elfFault_iff hdisjoint hvaddr env
          · simpa using OnlyPage.refl hdisjoint

end Requests

/-! ## What a miss keeps -/

section Keeps

variable {P : AddrSpace → Prop} {s : AddrSpace} {env : FaultAnswers} {vaddr : Nat}

variable (halloc : ∀ {s : AddrSpace} {alloc : MmapEnv} {mtype : MemType} {count : Nat}
  {r : Nat × AddrSpace}, P s → vaddr < 0x300000000 → count ≤ 12 →
  s.frameAlloc alloc (floor vaddr) mtype count = some r → P r.2)
include halloc

theorem blankPages_keeps (alloc : MmapEnv) {count : Nat} (hs : P s) (hv : vaddr < 0x300000000)
    (hcount : count ≤ 12) : P (s.blankPages alloc env.tls vaddr count).space := by
  unfold blankPages
  split
  · rename_i h
    exact halloc hs hv hcount h
  · exact hs

theorem elfFault_keeps (hs : P s) (hv : vaddr < 0x300000000) : P (s.elfFault env vaddr).space := by
  unfold elfFault
  split
  · exact hs
  · exact blankPages_keeps halloc _ hs hv (by decide)
  split
  · rename_i h
    have hs' := halloc hs hv (by decide) h
    split
    · exact hs'
    · exact blankPages_keeps halloc _ hs' hv (by decide)
  · exact blankPages_keeps halloc _ hs hv (by decide)

/-- A miss asks for pages from the page of the address on, ends the task, or clears frames: what all
of these keep, it keeps. -/
theorem missed_keeps (hs : P s) (hexit : P (s.exited env))
    (hfill : ∀ {s : AddrSpace} (frame : Nat), P s → P (s.fillTls env frame)) :
    P (s.missed env vaddr).space := by
  have hlow : ∀ {lo hi : Nat}, inRange lo hi vaddr = true → hi ≤ 0x300000000 →
      vaddr < 0x300000000 := by
    intro lo hi hin hhi
    rw [inRange_iff] at hin
    omega
  unfold missed
  split
  · rename_i hin
    split
    · rename_i h
      exact halloc hs (hlow hin (by decide)) (by decide) h
    · exact hs
  split
  · split
    · exact hexit
    · exact hs
  split
  · rename_i hin
    exact elfFault_keeps halloc hs (hlow hin (by decide))
  split
  · rename_i hin
    exact blankPages_keeps halloc _ hs (hlow hin (by decide)) (by decide)
  split
  · rename_i hin
    unfold tlsFault
    dsimp only
    split
    · exact hexit
    split
    · rename_i h
      exact hfill _ (halloc hs (hlow hin (by decide)) (by decide) h)
    · exact hs
  split
  · rename_i hin
    exact elfFault_keeps halloc hs (hlow hin (by decide))
  · exact hs

omit halloc in
/-- The ranges that are given pages end long before the user's addresses do. -/
theorem within_missed {top : Nat} (hs : s.pt.Within top) (htop : 2 ^ 38 ≤ top) :
    (s.missed env vaddr).space.pt.Within top := by
  apply missed_keeps (P := fun s => s.pt.Within top) _ hs
  · unfold exited
    split <;> exact hs
  · intro s frame hs p hp
    change (if overfills env frame p then none else s.pt p) ≠ none at hp
    split at hp
    · exact absurd rfl hp
    · exact hs p hp
  · intro s alloc mtype count r hs hv hcount h
    refine within_frameAlloc hs ?_ h
    have hfloor := floor_le vaddr
    have hmul : count * pageSize ≤ 12 * pageSize := Nat.mul_le_mul_right _ hcount
    unfold pageSize at *
    omega

end Keeps

theorem userCowInt_ne_none {m : MemSet} {pt : PageTable}
    (h : m.Covers vaddr) : MonkeyOS.userCowInt m pt env vaddr ≠ none := by
  obtain ⟨a, ha, hav⟩ := h
  unfold MonkeyOS.userCowInt
  cases hfind : m.areas.find? (·.contains vaddr) with
  | none => exact absurd hav (List.find?_eq_none.mp hfind a ha)
  | some area =>
    dsimp only
    cases area.mtrackers.find? (fun t => t.vaddr == floor vaddr) with
    | some t =>
      dsimp only
      split
      · simp
      split
      · cases env.frame <;> simp
      · simp
    | none =>
      dsimp only
      split
      · simp
      · cases env.frame <;> simp

/-- **A fault changes its page only** exactly if an area covers the address, or what the range of the
address is given stays within the page and meets nothing there, and what is cleared with it holds no
other page's table. This is so below the end of the user's addresses, and what is mapped stays
there. -/
theorem userCowInt_onlyPage_iff (target : Polyhal.Target) (s : AddrSpace) (env : FaultAnswers)
    (vaddr : Nat) (hdisjoint : s.memset.areas.Pairwise MemArea.Disjoint)
    (hmapped : s.pt.Within target.arch.userEnd) (hvaddr : vaddr < target.arch.userEnd) :
    (s.OnlyPage (s.userCowInt env vaddr).space vaddr
        ↔ s.memset.Covers vaddr ∨ s.StaysInPage env vaddr)
      ∧ (s.userCowInt env vaddr).space.pt.Within target.arch.userEnd := by
  unfold userCowInt
  cases hfault : MonkeyOS.userCowInt s.memset s.pt env.cow vaddr with
  | some r =>
    obtain ⟨pre, a, post, hareas, ha, -⟩ := userCowInt_faulted hfault
    have hcovers : s.memset.Covers vaddr :=
      ⟨a, by rw [hareas]; exact List.mem_append_cons_self, ha⟩
    exact ⟨iff_of_true (onlyPage_faulted hdisjoint hfault) (.inl hcovers),
      hmapped.fault hvaddr hfault⟩
  | none =>
    rw [or_iff_right (fun hcovers => userCowInt_ne_none hcovers hfault)]
    exact ⟨onlyPage_missed_iff hdisjoint env, within_missed hmapped target.le_userEnd⟩

/-- The only thread of a process, which is given every page it asks for, from `frame` on; the tables
of its page table lie apart. -/
def granting (frame : Nat) : FaultAnswers where
  cow := ⟨fun _ => 1, 1000, some frame⟩
  first := ⟨fun _ => none, fun _ => some frame, fun _ => none, [], none⟩
  second := ⟨fun _ => none, fun _ => some frame, fun _ => none, [], none⟩
  fileSize := fun _ => none
  readOk := fun _ _ => false
  hasSegv := false
  lastThread := true
  tables := fun _ => [0x90000000, 0x90001000, 0x90002000]
  tls := ⟨0, 0⟩

/-- The first touch of a page of thread-local storage, by a process with one page of anonymous memory
elsewhere. -/
theorem userCowInt_onlyPage_iff_tls :
    let s : AddrSpace := (empty.addPage 0x100000 0x88000000)
    s.OnlyPage (s.userCowInt (granting 0x80000000) 0x200000010).space 0x200000010 := by
  refine (userCowInt_onlyPage_iff .riscv64 (empty.addPage 0x100000 0x88000000)
    (granting 0x80000000) 0x200000010 (List.pairwise_singleton _ _) ?_
    (by decide +kernel)).1.mpr (.inr ?_)
  · have hts : (pageArea (floor 0x100000) 0x88000000).mtrackers
        = pageTrackers (floor 0x100000) [0x88000000] := by decide +kernel
    exact within_mapArea (s := empty) (fun p hp => absurd rfl hp) hts (by decide +kernel) urwx
  · intro frame hframe
    cases hframe
    refine ⟨fun a ha p hp => ?_, fun p _ _ => rfl⟩
    rw [List.mem_singleton.mp ha, contains_pageArea] at hp
    rw [hp]
    decide

/-- Two faults in the heap, the second below the first: its twelve pages run into those of the first,
whose frames are replaced. -/
theorem userCowInt_heap_overwrites :
    let s := (empty.userCowInt (granting 0x80000000) 0x1003000).space
    let t := (s.userCowInt (granting 0x81000000) 0x1000000).space
    s.memset.areas.Pairwise MemArea.Disjoint
      ∧ (s.memset.trackers.map (fun x => x.vaddr)).Nodup
      ∧ (s.pt 0x1003000).map (fun e => e.frame) = some 0x80000000
      ∧ (t.pt 0x1003000).map (fun e => e.frame) = some 0x81003000
      ∧ ¬ s.OnlyPage t 0x1000000 := by
  have hs : ((empty.userCowInt (granting 0x80000000) 0x1003000).space.pt 0x1003000).map
      (fun e => e.frame) = some 0x80000000 := by decide +kernel
  have ht : (((empty.userCowInt (granting 0x80000000) 0x1003000).space.userCowInt
      (granting 0x81000000) 0x1000000).space.pt 0x1003000).map (fun e => e.frame)
      = some 0x81003000 := by decide +kernel
  refine ⟨List.pairwise_singleton _ _, by decide +kernel, hs, ht, fun hpage => ?_⟩
  have hsame := hpage.elsewhere.frames 0x1003000 (by decide)
  rw [hs, ht] at hsame
  exact absurd hsame (by decide)

end AddrSpace

end MonkeyOS
