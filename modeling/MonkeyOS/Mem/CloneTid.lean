import MonkeyOS.Lib.Bytes
import MonkeyOS.Mem.Twins

/-!
# MonkeyOS — the task ids that `clone` stores (`sys_clone` without `CLONE_THREAD`)

`sys_clone` forks the memory with `cow_fork`, and then stores the id of the new task at `ptid` and
at `ctid`. Both stores go through the page table of the parent. So the child finds its id at `ctid`
only where parent and child have one frame, in a resident page of a shared area; anywhere else the
fault handler gives the parent a copy of its own.

* `CloneCall.events` — the call, as a run of the copy-on-write system;
* `CloneCall.Law` — what the stores are for;
* `CloneCall.child_look`, `CloneCall.parent_look` — what child and parent read behind it;
* `clone_tid_iff` — the ids end up in the right address spaces exactly if there was nothing to
  store outside the shared pages.
-/

namespace MonkeyOS

open Lib

/-! ## The call -/

def cloneThread : Nat := 0x00010000

def cloneParentSettid : Nat := 0x00100000

def cloneChildSettid : Nat := 0x01000000

/-- The arguments of `sys_clone` that its effect on the memory depends on; `tid` is the id of the new
task. -/
structure CloneCall where
  flags : Nat
  ptid : Nat
  ctid : Nat
  tid : Nat
  fork : ¬ flags &&& cloneThread = cloneThread

namespace CloneCall

def ParentSettid (call : CloneCall) : Prop := call.flags &&& cloneParentSettid = cloneParentSettid

def ChildSettid (call : CloneCall) : Prop := call.flags &&& cloneChildSettid = cloneChildSettid

instance (call : CloneCall) : Decidable call.ParentSettid := inferInstanceAs (Decidable (_ = _))

instance (call : CloneCall) : Decidable call.ChildSettid := inferInstanceAs (Decidable (_ = _))

/-- `new_task.task_id as u32`, as it is stored. -/
def word (call : CloneCall) : List UInt8 := leBytes 4 call.tid

def parentStores (call : CloneCall) (p : Nat) : List CowEvent :=
  if call.ParentSettid then storedBytes p call.ptid call.word else []

def childStores (call : CloneCall) (p : Nat) : List CowEvent :=
  -- `ctid.is_valid()`
  if call.ChildSettid ∧ call.ctid ≠ 0 then storedBytes p call.ctid call.word else []

/-- What `sys_clone` does to the memory, up to its `yield_now`. -/
def events (call : CloneCall) (p child : Nat) : List CowEvent :=
  .forked p child :: (call.parentStores p ++ call.childStores p)

end CloneCall

/-! ## Attached segments

The second loop of `cow_fork` maps the attached segments into the child. In the model a segment is a
resident area of the type `Shared`, and its pages are mapped by the first loop like those of any
other area. -/

def attached (start : Nat) (seg : SharedMemory) : MemArea :=
  { mtype := .shared
    mtrackers := seg.trackers.zipIdx.map (fun x => ⟨start + x.2 * pageSize, x.1, 0b111⟩)
    file := none
    offset := 0
    start := start
    len := seg.trackers.length * pageSize }

/-- The loop of `cow_fork` over `pcb.shms`. -/
def PageTable.mapSegments (pt : PageTable) (shms : List (Nat × SharedMemory)) : PageTable :=
  shms.foldl (fun pt g => g.2.trackers.zipIdx.foldl
    (fun pt x => pt.mapPage (g.1 + x.2 * pageSize) x.1 urwx) pt) pt

theorem forkPt_attached (areas : List MemArea) (shms : List (Nat × SharedMemory))
    (pt : PageTable) :
    MemSet.forkPt ⟨areas ++ shms.map (fun g => attached g.1 g.2)⟩ pt
      = (MemSet.forkPt ⟨areas⟩ pt).mapSegments shms := by
  unfold MemSet.forkPt PageTable.mapSegments PageTable.mapTrackers
  rw [List.foldl_append, List.foldl_map]
  simp only [attached, List.foldl_map]
  rfl

theorem PageTable.mapPage_same {pt : PageTable} {v f : Nat} {flags : MappingFlags}
    (h : pt v = some ⟨f, flags⟩) : pt.mapPage v f flags = pt := by
  funext u
  show (if u = v then some ⟨f, flags⟩ else pt u) = pt u
  split
  · rename_i hu
    rw [hu, h]
  · rfl

/-- `cow_fork` leaves the segments of the parent as `sys_shmat` mapped them, which is the same as mapping
them again. -/
theorem PageTable.mapSegments_same {pt : PageTable} {shms : List (Nat × SharedMemory)}
    (h : ∀ g ∈ shms, ∀ x ∈ g.2.trackers.zipIdx, pt (g.1 + x.2 * pageSize) = some ⟨x.1, urwx⟩) :
    pt.mapSegments shms = pt := by
  have hpages : ∀ (start : Nat) (xs : List (Nat × Nat)),
      (∀ x ∈ xs, pt (start + x.2 * pageSize) = some ⟨x.1, urwx⟩) →
      xs.foldl (fun pt x => pt.mapPage (start + x.2 * pageSize) x.1 urwx) pt = pt := by
    intro start xs hxs
    induction xs with
    | nil => rfl
    | cons x xs ih =>
      rw [List.foldl_cons, mapPage_same (hxs x List.mem_cons_self)]
      exact ih (fun y hy => hxs y (List.mem_cons_of_mem _ hy))
  unfold mapSegments
  induction shms with
  | nil => rfl
  | cons g shms ih =>
    rw [List.foldl_cons, hpages g.1 _ (h g List.mem_cons_self)]
    exact ih (fun k hk => h k (List.mem_cons_of_mem _ hk))

/-! ## The whole call -/

namespace CloneCall

open Sys

/-- What the stores of `clone` are for. The parent is `p`, with the areas `m`; `s` is the state of
the call, `t` the one with its stores done, and `u` the one in which the child first runs. -/
structure Law (content : Nat → Nat → UInt8) (call : CloneCall) (p : Nat) (m : MemSet)
    (s t u : Sys) : Prop where
  child : call.ChildSettid → Lib.Holds (u.look content s.procs.length) call.ctid call.word
  parent : call.ChildSettid → ¬ (call.ParentSettid ∧ call.ptid = call.ctid) →
    ∀ i < 4, ¬ m.InShared (call.ctid + i) →
      t.look content p (call.ctid + i) = s.look content p (call.ctid + i)
  fork : ¬ call.ChildSettid → ∀ x, s.Covered p x →
    u.look content s.procs.length x = s.look content p x

/-- The word at `ctid` is the id already, except in resident shared pages; or, if there is nothing
to store at `ctid`, the word at `ptid` is the id already in those pages. -/
structure Harmless (content : Nat → Nat → UInt8) (call : CloneCall) (p : Nat) (m : MemSet)
    (s : Sys) : Prop where
  child : call.ChildSettid → ∀ i b, call.word[i]? = some b → m.cell (call.ctid + i) = none →
    s.look content p (call.ctid + i) = b
  fork : ¬ call.ChildSettid → call.ParentSettid → ∀ i b, call.word[i]? = some b →
    m.cell (call.ptid + i) ≠ none → s.look content p (call.ptid + i) = b

theorem length_word (call : CloneCall) : call.word.length = 4 := length_leBytes 4 call.tid

theorem stores_stored (call : CloneCall) (p : Nat) :
    (∀ ev ∈ call.parentStores p, ∃ y b, ev = .stored p y b)
      ∧ ∀ ev ∈ call.childStores p, ∃ y b, ev = .stored p y b := by
  have hnil : ∀ ev ∈ ([] : List CowEvent), ∃ y b, ev = .stored p y b :=
    fun ev h => absurd h List.not_mem_nil
  unfold parentStores childStores
  refine ⟨?_, ?_⟩ <;> split
  · exact storedBytes_stored
  · exact hnil
  · exact storedBytes_stored
  · exact hnil

section Call

variable {content : Nat → Nat → UInt8} {call : CloneCall} {s t u : Sys} {p : Nat} {proc : Proc}
  {evs : List CowEvent}

/-- The stores of the call, after the fork; `v` is the state between those at `ptid` and at `ctid`. -/
theorem call_stores (content : Nat → Nat → UInt8) (hs : s.IsolatedOn NotShared) (hp : s.procs[p]? = some proc)
    (hcall : Run CowStep s (call.events p s.procs.length) t) :
    ∃ v, Twins proc.memset p s.procs.length v ∧ Run CowStep v (call.childStores p) t
      ∧ Twins proc.memset p s.procs.length t
      ∧ (forked proc.memset).look content t.mem
        = (call.parentStores p ++ call.childStores p).foldl (cellStep proc.memset)
            ((forked proc.memset).look content s.mem) := by
  cases hcall with
  | cons hfork hstores =>
    obtain ⟨htwins, hmem⟩ := twins_fork hs hp hfork
    obtain ⟨hparent, hchild⟩ := call.stores_stored p
    obtain ⟨v, hptid, hctid⟩ := hstores.split
    obtain ⟨hv, hvlook⟩ := htwins.stores content hptid hparent
    obtain ⟨ht, htlook⟩ := hv.stores content hctid hchild
    refine ⟨v, hv, hctid, ht, ?_⟩
    rw [htlook, hvlook, hmem, List.foldl_append]

section Seen

variable (hs : s.IsolatedOn NotShared) (hp : s.procs[p]? = some proc)
  (hcall : Run CowStep s (call.events p s.procs.length) t)
  (hrest : Run (SparingStep s.procs.length) t evs u)

include hs hp hcall hrest

/-- What the child reads when it first runs. -/
theorem child_look (x : Nat) :
    u.look content s.procs.length x
      = (call.parentStores p ++ call.childStores p).foldl (cellStep proc.memset)
          ((forked proc.memset).look content s.mem) x := by
  obtain ⟨v, -, -, ht, hlook⟩ := call_stores content hs hp hcall
  obtain ⟨hchild, hmem⟩ := spares_run ht.isolated ht.child hrest
  rw [look_of_some hchild, forked_look_congr ht.wf hmem, hlook]

/-- Outside the resident shared pages it reads what the parent had at the fork. -/
theorem child_look_of_none {x : Nat} (hx : proc.memset.Covers x)
    (hcell : proc.memset.cell x = none) :
    u.look content s.procs.length x = s.look content p x := by
  rw [child_look hs hp hcall hrest, foldl_cellStep_of_none hcell, hs.forked_look hp hx,
    look_of_some hp]

/-- In them it reads what was stored at `ctid`. -/
theorem child_look_at (hset : call.ChildSettid ∧ call.ctid ≠ 0) {i : Nat} {b : UInt8}
    (hb : call.word[i]? = some b) (hcell : proc.memset.cell (call.ctid + i) ≠ none) :
    u.look content s.procs.length (call.ctid + i) = b := by
  rw [child_look hs hp hcall hrest, List.foldl_append, childStores, if_pos hset]
  exact foldl_cellStep_at (by rw [length_word]; decide) hb hcell

/-- Without `CLONE_CHILD_SETTID` only the store at `ptid` matters. -/
theorem child_look_of_not_set (hset : ¬ call.ChildSettid) (x : Nat) :
    u.look content s.procs.length x
      = (call.parentStores p).foldl (cellStep proc.memset)
          ((forked proc.memset).look content s.mem) x := by
  rw [child_look hs hp hcall hrest, childStores, if_neg (fun h => hset h.1), List.append_nil]

theorem child_look_eq (hset : ¬ call.ChildSettid)
    (hsame : call.ParentSettid → ∀ i b, call.word[i]? = some b →
      proc.memset.cell (call.ptid + i) ≠ none → s.look content p (call.ptid + i) = b)
    {x : Nat} (hx : proc.memset.Covers x) :
    u.look content s.procs.length x = s.look content p x := by
  have hwf := hs.wf p proc hp
  -- the bytes at `ptid` that the child could see are stored for the second time
  have hstores : (call.parentStores p).foldl (cellStep proc.memset)
      ((forked proc.memset).look content s.mem) = (forked proc.memset).look content s.mem := by
    unfold parentStores
    split
    · rename_i hparent
      refine foldl_cellStep_same (forked_look_cells hwf) (fun i b hb hcell => ?_)
      obtain ⟨a, ha, -, hax⟩ := hwf.inShared_of_cell hcell
      rw [hs.forked_look hp ⟨a, ha, hax⟩, ← look_of_some hp]
      exact hsame hparent i b hb hcell
    · rfl
  rw [child_look_of_not_set hs hp hcall hrest hset, hstores, hs.forked_look hp hx, look_of_some hp]

end Seen

/-- The parent reads the id at `ctid`, wherever that is. -/
theorem parent_look (content : Nat → Nat → UInt8) (hs : s.IsolatedOn NotShared)
    (hp : s.procs[p]? = some proc) (hcall : Run CowStep s (call.events p s.procs.length) t)
    (hset : call.ChildSettid ∧ call.ctid ≠ 0) {i : Nat} {b : UInt8} (hb : call.word[i]? = some b) :
    proc.memset.Covers (call.ctid + i) ∧ t.look content p (call.ctid + i) = b := by
  obtain ⟨v, hv, hrun, -, -⟩ := call_stores content hs hp hcall
  rw [childStores, if_pos hset] at hrun
  obtain ⟨hcov, hfinds⟩ := hv.finds_stores hrun (by rw [length_word]; decide) hb
  exact ⟨hcov, hfinds.look⟩

end Call

end CloneCall

open CloneCall Sys in
/-- **The ids that `clone` stores.** Whatever the other processes do until the child runs, as long as
they leave shared memory alone: child and parent read what they are to read at `ctid` exactly if the
word outside the resident shared pages was the id before. Without `CLONE_CHILD_SETTID` the child
reads what the parent had, unless `ptid` lies in such a page. -/
theorem clone_tid_iff {content : Nat → Nat → UInt8} {call : CloneCall} {s t u : Sys} {p : Nat}
    {proc : Proc} {evs : List CowEvent} (hs : s.IsolatedOn NotShared)
    (hp : s.procs[p]? = some proc) (hctid : call.ChildSettid → call.ctid ≠ 0)
    (hcall : Run CowStep s (call.events p s.procs.length) t)
    (hrest : Run (SparingStep s.procs.length) t evs u) :
    call.Law content p proc.memset s t u ↔ call.Harmless content p proc.memset s := by
  have hwf := hs.wf p proc hp
  constructor
  · intro hlaw
    refine ⟨?_, ?_⟩
    · intro hset i b hb hcell
      obtain ⟨hcov, -⟩ := parent_look content hs hp hcall ⟨hset, hctid hset⟩ hb
      rw [← child_look_of_none hs hp hcall hrest hcov hcell]
      exact hlaw.child hset i b hb
    · intro hset hparent i b hb hcell
      obtain ⟨a, ha, -, hx⟩ := hwf.inShared_of_cell hcell
      rw [← hlaw.fork hset _ ⟨proc, hp, a, ha, hx⟩, child_look_of_not_set hs hp hcall hrest hset,
        parentStores, if_pos hparent]
      exact foldl_cellStep_at (by rw [length_word]; decide) hb hcell
  · intro hok
    refine ⟨?_, ?_, ?_⟩
    · intro hset i b hb
      by_cases hcell : proc.memset.cell (call.ctid + i) = none
      · obtain ⟨hcov, -⟩ := parent_look content hs hp hcall ⟨hset, hctid hset⟩ hb
        rw [child_look_of_none hs hp hcall hrest hcov hcell]
        exact hok.child hset i b hb hcell
      · exact child_look_at hs hp hcall hrest ⟨hset, hctid hset⟩ hb hcell
    · -- the parent reads the id there, so it was there before
      intro hset _ i hi hshared
      obtain ⟨b, hb⟩ : ∃ b, call.word[i]? = some b :=
        ⟨_, List.getElem?_eq_getElem (by rw [length_word]; exact hi)⟩
      have hcell : proc.memset.cell (call.ctid + i) = none := by
        by_contra hcell
        exact hshared (hwf.inShared_of_cell hcell)
      obtain ⟨-, hlook⟩ := parent_look content hs hp hcall ⟨hset, hctid hset⟩ hb
      rw [hlook, hok.child hset i b hb hcell]
    · intro hset x ⟨proc', hp', hx⟩
      cases Option.some.inj (hp.symm.trans hp')
      exact child_look_eq hs hp hcall hrest hset (hok.fork hset) hx

namespace Sys

theorem isolatedOn_onePages (mtype : MemType) (f : Nat) (mem : Nat → Nat → UInt8) :
    (onePages [(mtype, some f)] mem).IsolatedOn NotShared := by
  have hproc : ∀ (p : Nat) (proc : Proc), (onePages [(mtype, some f)] mem).procs[p]? = some proc →
      p = 0 ∧ proc = forked (onePage mtype (some f)) := by
    intro p proc hp
    cases p with
    | zero => exact ⟨rfl, (Option.some.inj hp).symm⟩
    | succ p => cases hp
  -- one process with one page
  have hholds : ∀ p a t, (onePages [(mtype, some f)] mem).Holds p a t →
      (p, t) = (0, ⟨0x1000, f, 7⟩) := by
    rintro p a t ⟨proc, hp, ha, ht⟩
    obtain ⟨rfl, rfl⟩ := hproc p proc hp
    rw [List.mem_singleton.mp ha] at ht
    rw [List.mem_singleton.mp ht]
  refine ⟨?_, ?_, ?_⟩
  · intro p proc hp
    obtain ⟨-, rfl⟩ := hproc p proc hp
    exact ⟨onePage_separate _ _, onePage_aligned _ _, onePage_pages _ _, onePage_nodup _ _⟩
  · intro p proc hp
    obtain ⟨-, rfl⟩ := hproc p proc hp
    exact forkPt_agreesOn (onePage_nodup _ _) (fun _ _ _ => rfl)
  · intro p a t q b u ht _ hu _ hne
    exact absurd ((hholds p a t ht).trans (hholds q b u hu).symm) hne

end Sys

/-- `clone` for task 5 with `CLONE_CHILD_SETTID | SIGCHLD`. -/
def setTidCall : CloneCall := ⟨0x01000011, 0, 0x1000, 5, by decide⟩

open Sys in
/-- In a shared page the child reads its id. -/
theorem clone_tid_iff_shared :
    ∃ t, Run CowStep (onePages [(.shared, some 7)] (fun _ _ => 65)) (setTidCall.events 0 1) t
      ∧ setTidCall.Law (fun _ _ => 0) 0 (onePage .shared (some 7))
        (onePages [(.shared, some 7)] (fun _ _ => 65)) t t := by
  have hrun : Run CowStep (onePages [(.shared, some 7)] (fun _ _ => 65))
      [.forked 0 1, .stored 0 0x1000 5, .stored 0 0x1001 0, .stored 0 0x1002 0,
        .stored 0 0x1003 0] _ :=
    .cons (.fork rfl)
      (.cons (@CowStep.store _ _ ⟨100, none, fun _ => 0⟩ 0 0x1000 5 _
          ⟨_, rfl, _, List.mem_cons_self, rfl⟩ (fun f hf => nomatch hf) rfl)
        (.cons (@CowStep.store _ _ ⟨100, none, fun _ => 0⟩ 0 0x1001 0 _
            ⟨_, rfl, _, List.mem_cons_self, rfl⟩ (fun f hf => nomatch hf) rfl)
          (.cons (@CowStep.store _ _ ⟨100, none, fun _ => 0⟩ 0 0x1002 0 _
              ⟨_, rfl, _, List.mem_cons_self, rfl⟩ (fun f hf => nomatch hf) rfl)
            (.cons (@CowStep.store _ _ ⟨100, none, fun _ => 0⟩ 0 0x1003 0 _
                ⟨_, rfl, _, List.mem_cons_self, rfl⟩ (fun f hf => nomatch hf) rfl) (.nil _)))))
  obtain ⟨t, ht⟩ : ∃ t, Run CowStep (onePages [(.shared, some 7)] (fun _ _ => 65))
    (setTidCall.events 0 1) t := ⟨_, hrun⟩
  have hp : (onePages [(.shared, some 7)] (fun _ _ => 65)).procs[0]?
    = some (forked (onePage .shared (some 7))) := rfl
  have hset : setTidCall.ChildSettid := by decide
  refine ⟨t, ht, (clone_tid_iff (isolatedOn_onePages .shared 7 _) hp (fun _ => by decide) ht
    (.nil t)).mpr ⟨?_, fun hnot => absurd hset hnot⟩⟩
  intro _ i b hb hcell
  -- every byte of the word lies in the shared page
  have hcells : ∀ i < 4, (onePage .shared (some 7)).cell (setTidCall.ctid + i) ≠ none := by decide
  obtain ⟨hi, -⟩ := List.getElem?_eq_some_iff.mp hb
  rw [CloneCall.length_word] at hi
  exact absurd hcell (hcells i hi)

open Sys in
/-- In a private page the id is the parent's: the child still reads the old word, and the parent
reads the id of the child. -/
theorem clone_tid_lost :
    ∃ t, (onePages [(.mmap, some 7)] (fun _ _ => 65)).IsolatedOn NotShared
      ∧ Run CowStep (onePages [(.mmap, some 7)] (fun _ _ => 65)) (setTidCall.events 0 1) t
      ∧ t.look (fun _ _ => 0) 1 0x1000 = 65 ∧ t.look (fun _ _ => 0) 0 0x1000 = 5
      ∧ ¬ setTidCall.Law (fun _ _ => 0) 0 (onePage .mmap (some 7))
        (onePages [(.mmap, some 7)] (fun _ _ => 65)) t t := by
  have hrun : Run CowStep (onePages [(.mmap, some 7)] (fun _ _ => 65))
      [.forked 0 1, .stored 0 0x1000 5, .stored 0 0x1001 0, .stored 0 0x1002 0,
        .stored 0 0x1003 0] _ :=
    .cons (.fork rfl)
      (.cons (@CowStep.store _ _ ⟨100, some 8, fun _ => 0⟩ 0 0x1000 5 _
          ⟨_, rfl, _, List.mem_cons_self, rfl⟩ (fun f hf => by cases hf; rfl) rfl)
        (.cons (@CowStep.store _ _ ⟨100, none, fun _ => 0⟩ 0 0x1001 0 _
            ⟨_, rfl, _, List.mem_cons_self, rfl⟩ (fun f hf => nomatch hf) rfl)
          (.cons (@CowStep.store _ _ ⟨100, none, fun _ => 0⟩ 0 0x1002 0 _
              ⟨_, rfl, _, List.mem_cons_self, rfl⟩ (fun f hf => nomatch hf) rfl)
            (.cons (@CowStep.store _ _ ⟨100, none, fun _ => 0⟩ 0 0x1003 0 _
                ⟨_, rfl, _, List.mem_cons_self, rfl⟩ (fun f hf => nomatch hf) rfl) (.nil _)))))
  refine ⟨_, isolatedOn_onePages .mmap 7 _, hrun, rfl, rfl, fun hlaw => ?_⟩
  exact absurd (hlaw.child (by decide) 0 5 rfl) (by decide)

end MonkeyOS
