import MonkeyOS.Lib.Bytes
import MonkeyOS.Mem.FrameAlloc
import MonkeyOS.Mem.PageTree
import MonkeyOS.Runtime.FrameZero

/-!
# MonkeyOS — the memory a task sees

The bytes at a task's addresses are those of the frames its page table maps. The kernel stores through
the same page table while it sets a task up, and a store to a page that is not mapped goes through
`user_cow_int` first (`kernel_interrupt`, `kernel/src/main.rs`).

* `TaskSpace`, `addTables` — the tables of the page table, for which `map_page` takes frames from the
  same allocator; without one it panics;
* `byteAt` — the byte at a virtual address;
* `fault`, `storeBytes` — a page fault of the kernel, and a copy to user memory;
* `Backed` — every page is mapped to the frame of a tracker of its own, and free frames are zero;
* `frameAlloc_grew`, `fault_grew` — what an allocation and a fault do to the pages;
* `storeBytes_spec` — the bytes are there, and no other byte has changed.

The task is one that is being set up: its areas have no file, and it is the only holder of its
trackers. A request for frames that is refused gives back frames that nobody has written. What is in
frames of others, the tables among them, is left open (`others`).
-/

namespace MonkeyOS

open Lib

/-- A user space with the tables of its page table. -/
structure TaskSpace extends UserSpace where
  target : Polyhal.Target
  /-- the tables below the root, by their level and their number there -/
  tables : List (Nat × Nat)

namespace TaskSpace

/-- The tables below the root that a page goes through, from the top. A table of level 0 has the
entries of 512 pages. -/
def pageTables (target : Polyhal.Target) (v : Nat) : List (Nat × Nat) :=
  (List.range target.arch.rootLevel).reverse.map (fun n => (n, v / 2 ^ (21 + 9 * n)))

/-- A frame for the table, if it is missing; `none` is `expect("can't alloc frame")`. -/
def addTable (s : TaskSpace) (table : Nat × Nat) : Option TaskSpace :=
  if table ∈ s.tables then some s
  else s.frames.fa.alloc.map (fun (p, fa) =>
    { s with frames := ⟨fa, p :: s.frames.held⟩, tables := table :: s.tables })

/-- The tables that `map_page` of the pages puts in. -/
def addTables (s : TaskSpace) (pages : List Nat) : Option TaskSpace :=
  (pages.flatMap (pageTables s.target)).foldlM addTable s

/-- The pages that `frame_alloc` maps. -/
def newPages (vaddr count : Nat) : List Nat :=
  ((List.range count).map (pageAddr vaddr)).filter (· ≠ 0)

/-- `frame_alloc`, with the tables for its pages. -/
def frameAlloc (s : TaskSpace) (vaddr : Nat) (mtype : MemType) (count : Nat) :
    Option (Option Nat × TaskSpace) :=
  (s.toUserSpace.frameAlloc vaddr mtype count).bind (fun (r, u) =>
    (addTables { s with toUserSpace := u } (if r.isSome then newPages vaddr count else [])).map
      (fun s => (r, s)))

end TaskSpace

structure UserMem extends TaskSpace where
  mem : ByteMem
  /-- what is in the frames that are not those of the task's pages -/
  others : TaskSpace → ByteMem

namespace UserMem

/-- `none` when the page is not mapped. -/
def byteAt (m : UserMem) (a : Nat) : Option UInt8 :=
  (m.space.pt (floor a)).map (fun e => m.mem (e.frame + a % pageSize))

/-- The byte at a physical address. -/
def phys (m : UserMem) (a : Nat) : UInt8 :=
  if floor a ∈ m.space.memset.trackers.map (·.tracker) then m.mem a
  else m.others m.toTaskSpace a

def frameAlloc (m : UserMem) (vaddr : Nat) (mtype : MemType) (count : Nat) :
    Option (Option Nat × UserMem) :=
  (m.toTaskSpace.frameAlloc vaddr mtype count).map (fun (r, s) => (r, { m with toTaskSpace := s }))

def addTables (m : UserMem) (pages : List Nat) : Option UserMem :=
  (m.toTaskSpace.addTables pages).map (fun s => { m with toTaskSpace := s })

/-- What the fault handler is answered: each tracker has one holder. -/
def faultEnv (m : UserMem) : FaultEnv where
  strongCount := fun _ => 1
  freePages := m.frames.fa.getFreePageCount
  frame := m.frames.fa.alloc.map Prod.fst

/-- `kernel_interrupt` on a page fault at a user address; `none` when it is not resolved, and the
access faults again and again. -/
def fault (m : UserMem) (a : Nat) : Option UserMem :=
  match userCowInt m.space.memset m.space.pt m.faultEnv a with
  | some r =>
    let m := { m with space := { m.space with memset := r.memset, pt := r.pt } }
    match r.effect with
    | .remapped => m.addTables [floor a]
    | .filled _ none => { m with frames := m.frames.call .alloc }.addTables [floor a]
    -- SIGSEGV; the other two need a second holder, or a file
    | _ => none
  | none =>
    if 0x70000000 ≤ a ∧ a < 0x80000000 then
      match m.frameAlloc (floor a) .stack 1 with
      | some (some _, m) => some m
      | _ => none
    else none

/-- The page of `a`, made writable if it has to be. -/
def touch (m : UserMem) (a : Nat) : Option UserMem :=
  match m.space.pt (floor a) with
  | some e => if e.flags.writable then some m else m.fault a
  | none => m.fault a

def storeByte (m : UserMem) (a : Nat) (b : UInt8) : Option UserMem :=
  (m.touch a).bind (fun m => (m.space.pt (floor a)).map (fun e =>
    { m with mem := Function.update m.mem (e.frame + a % pageSize) b }))

/-- `copy_from_slice` to user memory. -/
def storeBytes (m : UserMem) (a : Nat) : List UInt8 → Option UserMem
  | [] => some m
  | b :: bytes => (m.storeByte a b).bind (fun m => m.storeBytes (a + 1) bytes)

/-! ## The invariant -/

/-- Each mapped page is writable, and mapped to the frame of a tracker of its own. -/
structure Backed (regions : List MemRegion) (m : UserMem) : Prop where
  zero : ZeroInv regions m.frames.fa m.mem m.frames.held
  nodup : (m.space.memset.trackers.map (·.tracker)).Nodup
  held : ∀ t ∈ m.space.memset.trackers, t.tracker ∈ m.frames.held
  mapped : ∀ p e, m.space.pt p = some e → e.flags.writable = true
    ∧ ∃ t ∈ m.space.memset.trackers, t.vaddr = p ∧ t.tracker = e.frame
  noFile : ∀ a ∈ m.space.memset.areas, a.file = none

/-- From `m` to `m'` only pages of `P` were mapped, and no byte was written. -/
structure Grew (regions : List MemRegion) (P : Nat → Prop) (m m' : UserMem) : Prop where
  backed : Backed regions m'
  mem : m'.mem = m.mem
  elsewhere : ∀ p, ¬ P p → m'.space.pt p = m.space.pt p

section Backed

variable {regions : List MemRegion} {m : UserMem}

/-- A task without areas and pages. -/
theorem Backed.of_empty (hzero : ZeroInv regions m.frames.fa m.mem m.frames.held)
    (hareas : m.space.memset.areas = []) (hpt : ∀ p, m.space.pt p = none) : Backed regions m := by
  have htrackers : m.space.memset.trackers = [] := by
    unfold MemSet.trackers
    rw [hareas]
    rfl
  refine ⟨hzero, ?_, ?_, ?_, ?_⟩
  · rw [htrackers]
    exact List.nodup_nil
  · rw [htrackers]
    exact fun t ht => absurd ht List.not_mem_nil
  · intro p e he
    rw [hpt] at he
    cases he
  · rw [hareas]
    exact fun a ha => absurd ha List.not_mem_nil

theorem Backed.frame_aligned (h : Backed regions m) {p : Nat} {e : PTE}
    (he : m.space.pt p = some e) : e.frame % pageSize = 0 ∧ e.frame ∈ m.frames.held := by
  obtain ⟨-, t, ht, -, htracker⟩ := h.mapped p e he
  rw [← htracker]
  exact ⟨h.zero.inv.held_aligned (h.held t ht), h.held t ht⟩

theorem Backed.eq_of_frame (h : Backed regions m) {p q : Nat} {e e' : PTE}
    (he : m.space.pt p = some e) (he' : m.space.pt q = some e') (hframe : e.frame = e'.frame) :
    p = q := by
  obtain ⟨-, t, ht, rfl, htracker⟩ := h.mapped p e he
  obtain ⟨-, u, hu, rfl, hutracker⟩ := h.mapped q e' he'
  have hsame : t = u := by
    apply List.inj_on_of_nodup_map h.nodup ht hu
    rw [htracker, hutracker, hframe]
  rw [hsame]

/-- New trackers, with frames that were free. Every entry of the page table is an old one or has a
tracker. -/
theorem Backed.grow (h : Backed regions m) (m' : UserMem) (ts : List MapTrack)
    (hmem : m'.mem = m.mem)
    (hall : Acquired (regions.map (fun m => (m.start, m.stop))) m.frames m'.frames
      (ts.map (·.tracker)))
    (htrackers : m'.space.memset.trackers.Perm (ts ++ m.space.memset.trackers))
    (hpt : ∀ p e, m'.space.pt p = some e → m.space.pt p = some e ∨ e.flags.writable = true
      ∧ ∃ t ∈ m'.space.memset.trackers, t.vaddr = p ∧ t.tracker = e.frame)
    (hfile : ∀ a ∈ m'.space.memset.areas, a.file = none) : Backed regions m' := by
  obtain ⟨hzero, -⟩ := h.zero.hand_out _ (hall.inv.perm hall.held)
  have hframes := htrackers.map (·.tracker)
  rw [List.map_append] at hframes
  refine ⟨?_, ?_, ?_, ?_, hfile⟩
  · rw [hmem]
    exact hzero.perm hall.held.symm
  · rw [hframes.nodup_iff, List.nodup_append']
    refine ⟨(List.nodup_append'.mp hall.nodup).1, h.nodup, ?_⟩
    -- what was free before is no frame of an old tracker
    intro p hp hold
    obtain ⟨t, ht, rfl⟩ := List.mem_map.mp hold
    exact (List.nodup_append'.mp hall.nodup).2.2 hp (h.held t ht)
  · intro t ht
    rw [hall.held.mem_iff, List.mem_append]
    rcases List.mem_append.mp (htrackers.mem_iff.mp ht) with hts | hold
    · exact .inl (List.mem_map_of_mem (f := fun t : MapTrack => t.tracker) hts)
    · exact .inr (h.held t hold)
  · intro p e he
    rcases hpt p e he with hold | hnew
    · obtain ⟨hwritable, t, ht, htp, hte⟩ := h.mapped p e hold
      exact ⟨hwritable, t, htrackers.mem_iff.mpr (List.mem_append_right _ ht), htp, hte⟩
    · exact hnew

/-- Frames that are taken for something else. -/
theorem Backed.hold (h : Backed regions m) {m' : UserMem} {taken : List Nat}
    (hmem : m'.mem = m.mem) (hspace : m'.space = m.space)
    (hall : Acquired (regions.map (fun m => (m.start, m.stop))) m.frames m'.frames taken) :
    Backed regions m' := by
  obtain ⟨hzero, -⟩ := h.zero.hand_out _ (hall.inv.perm hall.held)
  refine ⟨?_, ?_, ?_, ?_, ?_⟩
  · rw [hmem]
    exact hzero.perm hall.held.symm
  · rw [hspace]
    exact h.nodup
  · rw [hspace]
    intro t ht
    exact hall.held.mem_iff.mpr (List.mem_append_right _ (h.held t ht))
  · rw [hspace]
    exact h.mapped
  · rw [hspace]
    exact h.noFile

end Backed

end UserMem

/-! ## Tables -/

namespace TaskSpace

variable {ms : List (Nat × Nat)} {s s' : TaskSpace}

/-- From `s` to `s'` frames were taken for tables, and that is all. -/
structure Tabled (ms : List (Nat × Nat)) (s s' : TaskSpace) : Prop where
  space : s'.space = s.space
  acquired : ∃ taken, Acquired ms s.frames s'.frames taken

theorem addTable_tabled (hinv : s.frames.fa.Inv ms s.frames.held) {table : Nat × Nat}
    (h : s.addTable table = some s') : Tabled ms s s' := by
  unfold addTable at h
  split at h
  · cases h
    exact ⟨rfl, [], .refl hinv⟩
  · obtain ⟨⟨p, fa⟩, halloc, rfl⟩ := Option.map_eq_some_iff.mp h
    exact ⟨rfl, [p], hinv.alloc halloc, .refl _⟩

theorem foldlM_addTable_tabled {tables : List (Nat × Nat)} :
    ∀ {s : TaskSpace}, s.frames.fa.Inv ms s.frames.held → tables.foldlM addTable s = some s' →
      Tabled ms s s' := by
  induction tables with
  | nil =>
    intro s hinv h
    cases h
    exact ⟨rfl, [], .refl hinv⟩
  | cons table tables ih =>
    intro s hinv h
    rw [List.foldlM_cons] at h
    obtain ⟨s₁, hadd, hrest⟩ := Option.bind_eq_some_iff.mp h
    obtain ⟨hspace, taken, htaken⟩ := addTable_tabled hinv hadd
    obtain ⟨hspace', taken', htaken'⟩ := ih htaken.inv hrest
    exact ⟨hspace'.trans hspace, taken ++ taken', htaken.trans htaken'⟩

theorem addTables_tabled (hinv : s.frames.fa.Inv ms s.frames.held) {pages : List Nat}
    (h : s.addTables pages = some s') : Tabled ms s s' :=
  foldlM_addTable_tabled hinv h

end TaskSpace

namespace UserMem

/-- The tables are put in, and no page of the task is any different. -/
theorem addTables_backed {regions : List MemRegion} {m m' : UserMem} (hb : Backed regions m)
    {pages : List Nat} (h : m.addTables pages = some m') :
    Backed regions m' ∧ m'.space = m.space ∧ m'.mem = m.mem := by
  obtain ⟨s', hs', rfl⟩ := Option.map_eq_some_iff.mp h
  obtain ⟨hspace, taken, htaken⟩ := TaskSpace.addTables_tabled hb.zero.inv hs'
  exact ⟨hb.hold rfl hspace htaken, hspace, rfl⟩

/-! ## Allocations -/

end UserMem

namespace MemSet

/-- More trackers for one area. -/
theorem trackers_extend (pre post : List MemArea) (a : MemArea) (ts : List MapTrack) :
    (trackers ⟨pre ++ { a with mtrackers := a.mtrackers ++ ts } :: post⟩).Perm
      (ts ++ trackers ⟨pre ++ a :: post⟩) := by
  rw [trackers_split, trackers_split, List.append_assoc]
  refine List.Perm.trans ?_ (List.perm_append_comm_assoc _ ts _)
  exact (List.perm_append_comm_assoc a.mtrackers ts _).append_left _

theorem noFile_extend {pre post : List MemArea} {a : MemArea}
    (h : ∀ b ∈ pre ++ a :: post, b.file = none) (ts : List MapTrack) :
    ∀ b ∈ pre ++ { a with mtrackers := ts } :: post, b.file = none := by
  intro b hb
  rcases List.mem_append.mp hb with hpre | hrest
  · exact h b (List.mem_append_left _ hpre)
  · rcases List.mem_cons.mp hrest with rfl | hpost
    · exact h a List.mem_append_cons_self
    · exact h b (List.mem_append_right _ (List.mem_cons_of_mem _ hpost))

variable (m : MemSet) (mtype : MemType) (ts : List MapTrack) (vaddr len : Nat)

theorem addTracks_trackers :
    (m.addTracks mtype ts vaddr len).trackers.Perm (ts ++ m.trackers) := by
  unfold addTracks
  split
  · split
    · rename_i areas hup
      obtain ⟨pre, a, post, hareas, -, -, rfl⟩ := updateFirst_eq_some hup
      have hm : m.trackers = trackers ⟨pre ++ a :: post⟩ := by rw [← hareas]
      rw [hm]
      exact trackers_extend pre post a ts
    · rw [trackers_push]
      exact List.perm_append_comm
  · rw [trackers_push]
    exact List.perm_append_comm

variable {m} in
theorem addTracks_noFile (h : ∀ a ∈ m.areas, a.file = none) :
    ∀ a ∈ (m.addTracks mtype ts vaddr len).areas, a.file = none := by
  have hpush : ∀ b : MemArea, b.file = none → ∀ a ∈ (m.push b).areas, a.file = none := by
    intro b hb a ha
    rcases List.mem_append.mp ha with hold | hnew
    · exact h a hold
    · rw [List.mem_singleton.mp hnew]
      exact hb
  unfold addTracks
  split
  · split
    · rename_i areas hup
      obtain ⟨pre, b, post, hareas, -, -, rfl⟩ := updateFirst_eq_some hup
      rw [hareas] at h
      exact noFile_extend h _
    · exact hpush _ rfl
  · exact hpush _ rfl

end MemSet

namespace UserMem

section Grew

variable {regions : List MemRegion} {m m' : UserMem} {vaddr count : Nat} {mtype : MemType}

theorem allocFlags_writable (mtype : MemType) : mtype.allocFlags.writable = true := by
  cases mtype with
  | _ => rfl

/-- A page of the request. -/
def InPages (vaddr count p : Nat) : Prop := ∃ i, i < count ∧ p = vaddr + i * pageSize

variable {e : PTE} {flags : MappingFlags} {r : Option Nat} {a : Nat}

/-- The frames of the pages are taken first, then those of the tables. -/
theorem frameAlloc_cases (h : m.frameAlloc vaddr mtype count = some (r, m')) :
    ∃ u, m.toUserSpace.frameAlloc vaddr mtype count = some (r, u)
      ∧ { m with toUserSpace := u }.addTables
        (if r.isSome then TaskSpace.newPages vaddr count else []) = some m' := by
  obtain ⟨⟨r', s'⟩, hres, hm'⟩ := Option.map_eq_some_iff.mp h
  cases hm'
  obtain ⟨⟨r', u⟩, halloc, hadd⟩ := Option.bind_eq_some_iff.mp hres
  obtain ⟨s', hs', heq⟩ := Option.map_eq_some_iff.mp hadd
  cases heq
  exact ⟨u, halloc, Option.map_eq_some_iff.mpr ⟨_, hs', rfl⟩⟩

theorem frameAlloc_count (h : m.frameAlloc vaddr mtype count = some (r, m')) :
    1 ≤ count := by
  apply Nat.one_le_iff_ne_zero.mpr
  rintro rfl
  obtain ⟨u, hu, -⟩ := frameAlloc_cases h
  unfold UserSpace.frameAlloc UserSpace.mapFrames at hu
  simp at hu

/-- The entries of new pages, inside the address space. -/
theorem mapArea_mapTracks (s : AddrSpace) (hv : vaddr ≠ 0) {frames : List Nat}
    (hlength : frames.length = count) (hfits : vaddr + count * pageSize ≤ 2 ^ 64) :
    s.mapArea vaddr ⟨mtype, mapTracks vaddr frames, none, 0, vaddr, count * pageSize % 2 ^ 64⟩
        mtype.allocFlags
      = s.pt.mapTrackers (pageTrackers vaddr frames) mtype.allocFlags :=
  congrArg AddrSpace.pt (UserSpace.install_mapTracks s hv hlength hfits)

theorem mapArea_cases {s : AddrSpace} {a : MemArea} {p : Nat}
    (h : s.mapArea vaddr a flags p = some e) :
    s.pt p = some e ∨ ∃ t ∈ a.mtrackers, t.vaddr = p ∧ e = ⟨t.tracker, flags⟩ := by
  unfold AddrSpace.mapArea at h
  split at h
  · rcases PageTable.mapTrackers_cases h with hold | ⟨t, ht, hte⟩
    · exact .inl hold
    · exact .inr ⟨t, List.mem_of_mem_filter ht, hte⟩
  · exact .inl h

section Took

variable {t : UserSpace} {r : Option Nat}
  (htook : UserSpace.Took (regions.map (fun m => (m.start, m.stop))) m.toUserSpace vaddr mtype count
    r t)

include htook

theorem took_backed (hb : Backed regions m) : Backed regions { m with toUserSpace := t } := by
  cases htook with
  | refused hnone =>
    rename_i frames
    exact hb.hold rfl rfl hnone
  | granted hall hlength htracks =>
    rename_i frames ts
    have hperm := m.space.memset.addTracks_trackers mtype ts vaddr (count * pageSize % 2 ^ 64)
    have hnew : ∀ u ∈ ts, u ∈ (m.space.memset.addTracks mtype ts vaddr
        (count * pageSize % 2 ^ 64)).trackers :=
      fun u hu => hperm.mem_iff.mpr (List.mem_append_left _ hu)
    refine hb.grow _ ts rfl hall hperm ?_ (MemSet.addTracks_noFile mtype ts vaddr _ hb.noFile)
    intro p e he
    rcases mapArea_cases he with hold | ⟨u, hu, hup, rfl⟩
    · exact .inl hold
    · exact .inr ⟨allocFlags_writable mtype, u, hnew u hu, hup, rfl⟩

/-- Only pages of the request are mapped. -/
theorem took_elsewhere (hfits : vaddr + count * pageSize ≤ 2 ^ 64) {p : Nat}
    (hp : ¬ InPages vaddr count p) : t.space.pt p = m.space.pt p := by
  cases htook with
  | refused hnone => rfl
  | granted hall hlength htracks =>
    rcases Nat.eq_zero_or_pos vaddr with hzero | hpos
    · -- nothing is mapped at page `0`
      show m.space.mapArea vaddr _ _ p = _
      unfold AddrSpace.mapArea
      rw [if_neg (not_not_intro hzero)]
    · have hv : vaddr ≠ 0 := by omega
      obtain ⟨frames, rfl⟩ := htracks hv hfits
      have hlen : frames.length = count := by
        rw [← hlength]
        simp [mapTracks]
      show m.space.mapArea vaddr _ _ p = _
      rw [mapArea_mapTracks m.space hv hlen hfits]
      apply PageTable.mapTrackers_of_not_mem
      intro u hu hup
      obtain ⟨i, hi, hui⟩ := mem_pageTrackers hv hu
      exact hp ⟨i, by omega, by rw [← hup, hui]⟩

/-- A granted request maps its pages, unless it is for page `0`. -/
theorem took_mapped (hr : r ≠ none) (hv : vaddr ≠ 0) (hfits : vaddr + count * pageSize ≤ 2 ^ 64)
    (hb : Backed regions m) {p : Nat} (hp : InPages vaddr count p) :
    ∃ e, t.space.pt p = some e ∧ ZeroFrame m.mem e.frame := by
  cases htook with
  | refused hnone => exact absurd rfl hr
  | granted hall hlength htracks =>
    obtain ⟨frames, rfl⟩ := htracks hv hfits
    have hlen : frames.length = count := by
      rw [← hlength]
      simp [mapTracks]
    obtain ⟨i, hi, rfl⟩ := hp
    have hmem : (⟨vaddr + i * pageSize, frames[i], 0⟩ : MapTrack) ∈ pageTrackers vaddr frames := by
      apply List.mem_mapIdx.mpr
      exact ⟨i, by omega, by rw [if_neg hv]⟩
    refine ⟨⟨frames[i], mtype.allocFlags⟩, ?_, ?_⟩
    · show m.space.mapArea vaddr _ _ _ = _
      rw [mapArea_mapTracks m.space hv hlen hfits]
      exact PageTable.mapTrackers_of_mem (nodup_pageTrackers hv frames) hmem _ _
    · -- what is handed out was not held
      rw [mapTracks_frames] at hall
      exact (hb.zero.hand_out _ (hall.inv.perm hall.held)).2 _ (List.getElem_mem _)

end Took

theorem frameAlloc_took (hb : Backed regions m) (halign : vaddr % pageSize = 0)
    (h : m.frameAlloc vaddr mtype count = some (r, m')) :
    ∃ u, UserSpace.Took (regions.map (fun m => (m.start, m.stop))) m.toUserSpace vaddr mtype count
        r u
      ∧ { m with toUserSpace := u }.addTables
        (if r.isSome then TaskSpace.newPages vaddr count else []) = some m' := by
  obtain ⟨u, hu, hadd⟩ := frameAlloc_cases h
  obtain ⟨r', u', heq, htook⟩ :=
    UserSpace.frameAlloc_took mtype hb.zero.inv halign (frameAlloc_count h)
  rw [heq] at hu
  cases hu
  exact ⟨u, htook, hadd⟩

/-- The pages that a request is for are the only ones it maps; when it is granted they are mapped
to frames of zeros, unless it is for page `0`. -/
theorem frameAlloc_grew (hb : Backed regions m) (halign : vaddr % pageSize = 0)
    (hfits : vaddr + count * pageSize ≤ 2 ^ 64)
    (h : m.frameAlloc vaddr mtype count = some (r, m')) :
    Grew regions (InPages vaddr count) m m'
      ∧ (r ≠ none → vaddr ≠ 0 → ∀ p, InPages vaddr count p →
        ∃ e, m'.space.pt p = some e ∧ ZeroFrame m'.mem e.frame) := by
  obtain ⟨u, htook, hadd⟩ := frameAlloc_took hb halign h
  obtain ⟨hb', hspace, hmem⟩ := addTables_backed (took_backed htook hb) hadd
  refine ⟨⟨hb', hmem, fun p hp => ?_⟩, fun hr hv p hp => ?_⟩
  · rw [hspace]
    exact took_elsewhere htook hfits hp
  · rw [hspace, hmem]
    exact took_mapped htook hr hv hfits hb hp

/-! ## Page faults -/

theorem faultFlags_writable (area : MemArea) (a : Nat) : (area.faultFlags a).writable = true := by
  unfold MemArea.faultFlags
  split
  · rfl
  · rfl

/-- One page more, mapped to the frame of a tracker; then the tables for it. -/
theorem grew_mapPage (hb : Backed regions m) (m₁ : UserMem) {frame : Nat} {page : Nat}
    (ts : List MapTrack)
    (hall : Acquired (regions.map (fun m => (m.start, m.stop))) m.frames m₁.frames
      (ts.map (·.tracker)))
    (htrackers : m₁.space.memset.trackers.Perm (ts ++ m.space.memset.trackers))
    (hpt : m₁.space.pt = m.space.pt.mapPage page frame flags) (hflags : flags.writable = true)
    (ht : ∃ t ∈ m₁.space.memset.trackers, t.vaddr = page ∧ t.tracker = frame)
    (hfile : ∀ a ∈ m₁.space.memset.areas, a.file = none) (hmem : m₁.mem = m.mem)
    (hadd : m₁.addTables [page] = some m') :
    Grew regions (· = page) m m' ∧ ∃ e, m'.space.pt page = some e := by
  have hb₁ : Backed regions m₁ := by
    refine hb.grow m₁ ts hmem hall htrackers ?_ hfile
    rw [hpt]
    intro p e he
    change (if p = page then some ⟨frame, flags⟩ else m.space.pt p) = some e at he
    split at he
    · rename_i hpage
      cases he
      rw [hpage]
      exact .inr ⟨hflags, ht⟩
    · exact .inl he
  obtain ⟨hb', hspace, hmem'⟩ := addTables_backed hb₁ hadd
  refine ⟨⟨hb', hmem'.trans hmem, fun p hp => ?_⟩, ⟨frame, flags⟩, ?_⟩
  · rw [hspace, hpt]
    exact if_neg hp
  · rw [hspace, hpt]
    exact if_pos rfl

/-- The stack grows by a page. -/
theorem stackPage_grew (hb : Backed regions m) (hstack : 0x70000000 ≤ a ∧ a < 0x80000000) {ppn : Nat}
    (halloc : m.frameAlloc (floor a) .stack 1 = some (some ppn, m')) :
    Grew regions (fun p => p = floor a) m m' ∧ ∃ e, m'.space.pt (floor a) = some e := by
  have hpage : 0x70000000 ≤ floor a ∧ floor a < 0x80000000 := by
    unfold floor pageSize
    omega
  have hfits : floor a + 1 * pageSize ≤ 2 ^ 64 := by
    unfold pageSize
    omega
  obtain ⟨hgrew, hmapped⟩ := frameAlloc_grew hb (floor_mod a) hfits halloc
  obtain ⟨e, he, -⟩ := hmapped (by simp) (by omega) (floor a)
    ⟨0, Nat.one_pos, by rw [Nat.zero_mul, Nat.add_zero]⟩
  refine ⟨⟨hgrew.backed, hgrew.mem, fun p hp => hgrew.elsewhere p ?_⟩, e, he⟩
  rintro ⟨i, hi, hpi⟩
  obtain rfl : i = 0 := Nat.lt_one_iff.mp hi
  rw [Nat.zero_mul, Nat.add_zero] at hpi
  exact hp hpi

/-- A page fault that is resolved maps the page. -/
theorem fault_grew (hb : Backed regions m) (h : m.fault a = some m') :
    Grew regions (fun p => p = floor a) m m' ∧ ∃ e, m'.space.pt (floor a) = some e := by
  unfold fault at h
  cases hcow : userCowInt m.space.memset m.space.pt m.faultEnv a with
  | some res =>
    rw [hcow] at h
    obtain ⟨pre, area, post, hareas, -, hfaulted⟩ := userCowInt_faulted hcow
    have hmemset : (⟨pre ++ area :: post⟩ : MemSet) = m.space.memset := by rw [← hareas]
    cases hfaulted with
    | segv => cases h
    | remapped ht hvaddr hmtype hcount =>
      rename_i t
      have hin : t ∈ (⟨pre ++ area :: post⟩ : MemSet).trackers :=
        MemSet.mem_trackers.mpr ⟨area, List.mem_append_cons_self, ht⟩
      refine grew_mapPage hb
        { m with space := { m.space with memset := ⟨pre ++ area :: post⟩, pt := _ } } []
        (.refl hb.zero.inv) ?_ rfl (faultFlags_writable area a) ⟨t, hin, hvaddr, rfl⟩ ?_ rfl h
      · rw [hmemset]
        exact .refl _
      · rw [hmemset]
        exact hb.noFile
    | copied hsplit hvaddr hmtype hcount hframe =>
      -- a tracker has one holder
      exact absurd hcount (Nat.lt_irrefl 1)
    | filled hnone hframe hsource =>
      rename_i frame source
      have hnoFile := hb.noFile
      have hfile : area.file = none :=
        hnoFile area (hareas ▸ List.mem_append_cons_self)
      obtain rfl : source = none := hsource hfile
      obtain ⟨⟨p, fa⟩, halloc, hp⟩ := Option.map_eq_some_iff.mp hframe
      obtain rfl : p = frame := hp
      have hcall : m.frames.call .alloc = ⟨fa, p :: m.frames.held⟩ := by
        unfold FrameState.call
        rw [halloc]
      have hnew : (⟨floor a, p, 0b111⟩ : MapTrack) ∈ area.mtrackers ++ [⟨floor a, p, 0b111⟩] :=
        List.mem_append_cons_self
      refine grew_mapPage hb
        { m with
          space := { m.space with memset := ⟨pre ++ _ :: post⟩, pt := _ }
          frames := m.frames.call .alloc }
        [⟨floor a, p, 0b111⟩] ?_ ?_ rfl (faultFlags_writable area a)
        ⟨⟨floor a, p, 0b111⟩, ?_, rfl, rfl⟩ ?_ rfl h
      · rw [hcall]
        exact ⟨hb.zero.inv.alloc halloc, .refl _⟩
      · rw [← hmemset]
        exact MemSet.trackers_extend pre post area _
      · exact MemSet.mem_trackers.mpr ⟨_, List.mem_append_cons_self, hnew⟩
      · rw [hareas] at hnoFile
        exact MemSet.noFile_extend hnoFile _
  | none =>
    rw [hcow] at h
    simp only at h
    split at h
    · rename_i hstack
      split at h
      · rename_i ppn m₁ halloc
        cases h
        exact stackPage_grew hb hstack halloc
      · cases h
    · cases h

/-! ## Stores -/

theorem Grew.byteAt {P : Nat → Prop} (hg : Grew regions P m m') (ha : ¬ P (floor a)) :
    m'.byteAt a = m.byteAt a := by
  unfold UserMem.byteAt
  rw [hg.elsewhere _ ha, hg.mem]

theorem floor_add_mod (a : Nat) : floor a + a % pageSize = a := by
  unfold floor
  rw [Nat.mul_comm]
  exact Nat.div_add_mod a pageSize

/-- Two addresses are behind one byte of a frame only if they are the same. -/
theorem Backed.eq_of_phys (hb : Backed regions m) {a' : Nat} {e' : PTE}
    (he : m.space.pt (floor a) = some e) (he' : m.space.pt (floor a') = some e')
    (h : e.frame + a % pageSize = e'.frame + a' % pageSize) : a = a' := by
  have halign := (hb.frame_aligned he).1
  have halign' := (hb.frame_aligned he').1
  have hmod : a % pageSize = a' % pageSize := by
    unfold pageSize at *
    omega
  have hpage : floor a = floor a' := hb.eq_of_frame he he' (by omega)
  rw [← floor_add_mod a, ← floor_add_mod a', hpage, hmod]

/-- Behind a mapped page are bytes of the task's own. -/
theorem Backed.phys_eq (hb : Backed regions m) (he : m.space.pt (floor a) = some e) :
    m.phys (e.frame + a % pageSize) = m.mem (e.frame + a % pageSize) := by
  obtain ⟨-, t, ht, -, htracker⟩ := hb.mapped _ e he
  have hfloor : floor (e.frame + a % pageSize) = e.frame := by
    have halign := (hb.frame_aligned he).1
    unfold floor pageSize at *
    omega
  unfold phys
  rw [hfloor]
  exact if_pos (List.mem_map.mpr ⟨t, ht, htracker⟩)

theorem byteAt_update (hb : Backed regions m) (he : m.space.pt (floor a) = some e) (b : UInt8)
    (x : Nat) :
    ({ m with mem := Function.update m.mem (e.frame + a % pageSize) b } : UserMem).byteAt x =
      if x = a then some b else m.byteAt x := by
  unfold byteAt
  show (m.space.pt (floor x)).map _ = _
  split
  · rename_i hx
    rw [hx, he]
    exact congrArg some (Function.update_self _ b m.mem)
  · rename_i hx
    cases hpt : m.space.pt (floor x) with
    | none => rfl
    | some e' =>
      have hne : e'.frame + x % pageSize ≠ e.frame + a % pageSize :=
        fun heq => hx (hb.eq_of_phys hpt he heq)
      exact congrArg some (Function.update_of_ne hne b m.mem)

theorem Backed.update (hb : Backed regions m) (he : m.space.pt (floor a) = some e) (b : UInt8) :
    Backed regions { m with mem := Function.update m.mem (e.frame + a % pageSize) b } := by
  have hlt := Nat.mod_lt a pageSize_pos
  have hzero : ZeroInv regions m.frames.fa (Function.update m.mem (e.frame + a % pageSize) b)
      m.frames.held :=
    hb.zero.write (hb.frame_aligned he).2 ⟨by omega, by omega⟩ b
  exact ⟨hzero, hb.nodup, hb.held, hb.mapped, hb.noFile⟩

/-- The page is there, and with it everything that was. -/
theorem touch_spec (hb : Backed regions m) (h : m.touch a = some m') :
    Backed regions m' ∧ (∃ e, m'.space.pt (floor a) = some e)
      ∧ ∀ x c, m.byteAt x = some c → m'.byteAt x = some c := by
  unfold touch at h
  cases hpt : m.space.pt (floor a) with
  | some e =>
    rw [hpt] at h
    simp only [(hb.mapped _ e hpt).1, if_true] at h
    cases h
    exact ⟨hb, ⟨e, hpt⟩, fun x c hx => hx⟩
  | none =>
    rw [hpt] at h
    obtain ⟨hgrew, hmapped⟩ := fault_grew hb h
    refine ⟨hgrew.backed, hmapped, ?_⟩
    intro x c hx
    rw [hgrew.byteAt, hx]
    -- the page that was faulted in had no byte before
    intro hpage
    unfold UserMem.byteAt at hx
    rw [hpage, hpt] at hx
    cases hx

theorem storeByte_spec (hb : Backed regions m) {b : UInt8} (h : m.storeByte a b = some m') :
    Backed regions m' ∧ m'.byteAt a = some b
      ∧ ∀ x c, x ≠ a → m.byteAt x = some c → m'.byteAt x = some c := by
  obtain ⟨m₁, htouch, hstore⟩ := Option.bind_eq_some_iff.mp h
  obtain ⟨hb₁, -, hkept⟩ := touch_spec hb htouch
  obtain ⟨e, he, rfl⟩ := Option.map_eq_some_iff.mp hstore
  refine ⟨hb₁.update he b, ?_, ?_⟩
  · rw [byteAt_update hb₁ he, if_pos rfl]
  intro x c hx hc
  rw [byteAt_update hb₁ he, if_neg hx]
  exact hkept x c hc

/-- A copy puts its bytes there, and changes no other. -/
theorem storeBytes_spec {bytes : List UInt8} :
    ∀ {m m' : UserMem} {a : Nat}, Backed regions m → m.storeBytes a bytes = some m' →
      Backed regions m' ∧ (∀ i b, bytes[i]? = some b → m'.byteAt (a + i) = some b)
        ∧ ∀ x c, ¬ (a ≤ x ∧ x < a + bytes.length) → m.byteAt x = some c → m'.byteAt x = some c := by
  induction bytes with
  | nil =>
    intro m m' a hb h
    cases h
    exact ⟨hb, fun i b hi => (by cases hi), fun x c _ hx => hx⟩
  | cons b bytes ih =>
    intro m m' a hb h
    obtain ⟨m₁, hstore, hrest⟩ := Option.bind_eq_some_iff.mp h
    obtain ⟨hfirst, hbyte, hkept⟩ := storeByte_spec hb hstore
    obtain ⟨hb', hbytes, hkept'⟩ := ih hfirst hrest
    refine ⟨hb', ?_, ?_⟩
    · intro i c hi
      cases i with
      | zero =>
        -- the first byte is not stored over
        cases hi
        exact hkept' a b (by omega) hbyte
      | succ i =>
        rw [show a + (i + 1) = a + 1 + i by omega]
        exact hbytes i c hi
    · intro x c hx hc
      rw [List.length_cons] at hx
      exact hkept' x c (by omega) (hkept x c (by omega) hc)

end Grew

end UserMem

end MonkeyOS
