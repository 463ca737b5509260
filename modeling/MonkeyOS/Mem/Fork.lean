import MonkeyOS.Lib.RefCount
import MonkeyOS.Lib.Run
import MonkeyOS.Mem.Fault

/-!
# MonkeyOS — processes that share frames (`UserTask::cow_fork`)

A system of processes over one physical memory. `cow_fork` clones the areas (the child's
trackers hold the same frames) and maps every resident page of parent and child again:
writable in shared areas, read-only in all others. A store to a page that is not mapped
writable goes through `user_cow_int` first. An exit clears the memory set; a frame whose last
tracker goes is cleared and returned (`FrameTracker::drop`).

`Sys.strongCount` is `Arc::strong_count`: the number of trackers, in all processes, that hold a
frame, so the reference count of `Lib.RefCount` over the processes' trackers. What one holder can
conclude from it is at the end of the module.
-/

namespace MonkeyOS

open Lib

structure Proc where
  memset : MemSet
  pt : PageTable

/-- The processes, by number, and the bytes of every frame. -/
structure Sys where
  procs : List Proc
  mem : Nat → Nat → UInt8

/-- What a step did, as far as the bytes of a process are concerned. -/
inductive CowEvent where
  | stored (p x : Nat) (b : UInt8)
  /-- the store was refused with SIGSEGV -/
  | faulted (p x : Nat)
  | forked (p child : Nat)
  | exited (p : Nat)
  deriving DecidableEq

def MemType.IsShared (t : MemType) : Prop := t = .shared ∨ t = .shareFile

instance (t : MemType) : Decidable t.IsShared := inferInstanceAs (Decidable (_ ∨ _))

def MemType.forkFlags (t : MemType) : MappingFlags := if t.IsShared then urwx else urx

/-- The loop of `cow_fork` over the areas, for one of the two page tables. -/
def MemSet.forkPt (m : MemSet) (pt : PageTable) : PageTable :=
  m.areas.foldl (fun pt a => pt.mapTrackers a.mtrackers a.mtype.forkFlags) pt

/-- The parent and the child after `cow_fork`. -/
def Proc.cowFork (proc : Proc) : Proc × Proc :=
  ({ proc with pt := proc.memset.forkPt proc.pt },
    { memset := proc.memset, pt := proc.memset.forkPt .empty })

/-- What a process reads at an address; an unmapped page reads as zeros. -/
def Proc.read (proc : Proc) (mem : Nat → Nat → UInt8) (x : Nat) : UInt8 :=
  match proc.pt (floor x) with
  | some pte => mem pte.frame (x % pageSize)
  | none => 0

def PageTable.writable (pt : PageTable) (v : Nat) : Bool :=
  match pt v with
  | some pte => pte.flags.writable
  | none => false

theorem PageTable.writable_of_some {pt : PageTable} {v : Nat} {pte : PTE} (h : pt v = some pte) :
    pt.writable v = pte.flags.writable := by
  unfold writable
  rw [h]

/-- What the fault handler did to the frames; `data` is what a file read delivers. -/
def FaultEffect.apply (mem : Nat → Nat → UInt8) (data : Nat → UInt8) :
    FaultEffect → Nat → Nat → UInt8
  | .copied src dst => fun f o => if f = dst then mem src o else mem f o
  | .filled frame (some _) => fun f o => if f = frame then data o else mem f o
  | _ => mem

namespace Sys

def strongCount (s : Sys) (f : Nat) : Nat :=
  (s.procs.map (fun proc => proc.memset.trackers.countP (·.tracker == f))).sum

def fork (s : Sys) (p : Nat) : Option Sys :=
  (s.procs[p]?).map (fun proc =>
    { s with procs := s.procs.set p proc.cowFork.1 ++ [proc.cowFork.2] })

def exit (s : Sys) (p : Nat) : Option Sys :=
  (s.procs[p]?).map (fun proc =>
    let procs := s.procs.set p { proc with memset := ⟨[]⟩ }
    { procs := procs
      -- `FrameTracker::drop`, for the frames whose last tracker went
      mem := fun f o =>
        if s.strongCount f ≠ 0 ∧ strongCount ⟨procs, s.mem⟩ f = 0 then 0 else s.mem f o })

/-- The store itself, once the page is mapped writable. -/
def write (s : Sys) (frame x : Nat) (b : UInt8) : Sys :=
  { s with mem := fun f o => if f = frame ∧ o = x % pageSize then b else s.mem f o }

/-- What a store asks of the rest of the kernel. -/
structure StoreEnv where
  freePages : Nat
  frame : Option Nat
  data : Nat → UInt8

def afterFault (s : Sys) (p : Nat) (r : FaultResult) (data : Nat → UInt8) : Sys :=
  { procs := s.procs.set p ⟨r.memset, r.pt⟩, mem := r.effect.apply s.mem data }

/-- The access of process `p` to `x` through its page table. -/
def access (s : Sys) (p x : Nat) (b : UInt8) : Option Sys :=
  match s.procs[p]? with
  | none => none
  | some proc =>
    match proc.pt (floor x) with
    | some pte => if pte.flags.writable then some (s.write pte.frame x b) else none
    | none => none

/-- A store by `p`: the access, or else the fault and the access again. -/
def store (s : Sys) (env : StoreEnv) (p x : Nat) (b : UInt8) : Option (Sys × CowEvent) :=
  match s.access p x b with
  | some t => some (t, .stored p x b)
  | none =>
    match s.procs[p]? with
    | none => none
    | some proc =>
      (userCowInt proc.memset proc.pt ⟨s.strongCount, env.freePages, env.frame⟩ x).map (fun r =>
        let s := s.afterFault p r env.data
        match s.access p x b with
        | some t => (t, .stored p x b)
        | none => (s, .faulted p x))

/-- The address lies in an area of the process. -/
def Covered (s : Sys) (p x : Nat) : Prop :=
  ∃ proc, s.procs[p]? = some proc ∧ ∃ a ∈ proc.memset.areas, a.contains x = true

end Sys

/-- One step of the system. The allocator hands out frames nobody holds. -/
inductive CowStep : Sys → CowEvent → Sys → Prop where
  | fork {s t : Sys} {p : Nat} (h : s.fork p = some t) : CowStep s (.forked p s.procs.length) t
  | store {s t : Sys} {env : Sys.StoreEnv} {p x : Nat} {b : UInt8} {ev : CowEvent}
      (hcov : s.Covered p x) (hfresh : ∀ f, env.frame = some f → s.strongCount f = 0)
      (h : s.store env p x b = some (t, ev)) : CowStep s ev t
  | exit {s t : Sys} {p : Nat} (h : s.exit p = some t) : CowStep s (.exited p) t

/-! ## Counting holders -/

namespace Sys

variable {s : Sys}

/-- Process `p` holds the tracker `t`, in the area `a`. -/
def Holds (s : Sys) (p : Nat) (a : MemArea) (t : MapTrack) : Prop :=
  ∃ proc, s.procs[p]? = some proc ∧ a ∈ proc.memset.areas ∧ t ∈ a.mtrackers

/-- The trackers of every process: the clones that hold the frames. -/
def holders (s : Sys) : List (List MapTrack) := s.procs.map (·.memset.trackers)

theorem strongCount_eq (s : Sys) (f : Nat) :
    s.strongCount f = refCount MapTrack.tracker s.holders f := by
  unfold strongCount refCount holders
  rw [List.map_map]
  rfl

variable {p : Nat} {t : MapTrack} {proc : Proc} {a : MemArea}

theorem getElem?_holders (hp : s.procs[p]? = some proc) :
    s.holders[p]? = some proc.memset.trackers := by
  unfold holders
  rw [List.getElem?_map, hp]
  rfl

theorem Holds.getElem?_holders (h : s.Holds p a t) :
    ∃ ts, s.holders[p]? = some ts ∧ t ∈ ts := by
  obtain ⟨proc, hp, ha, ht⟩ := h
  exact ⟨_, Sys.getElem?_holders hp, MemSet.mem_trackers.mpr ⟨a, ha, ht⟩⟩

theorem strongCount_pos (h : s.Holds p a t) :
    0 < s.strongCount t.tracker := by
  obtain ⟨ts, hts, ht⟩ := h.getElem?_holders
  rw [strongCount_eq]
  exact refCount_pos _ hts ht

/-- A strong count of one means a single holder. -/
theorem holder_unique {q : Nat} {b : MemArea} {u : MapTrack} (hp : s.Holds p a t)
    (hq : s.Holds q b u) (hframe : u.tracker = t.tracker)
    (hcount : s.strongCount t.tracker ≤ 1) : p = q ∧ t = u := by
  obtain ⟨ts, hts, ht⟩ := hp.getElem?_holders
  obtain ⟨us, hus, hu⟩ := hq.getElem?_holders
  rw [strongCount_eq] at hcount
  exact refCount_unique hts ht hus hu hframe hcount

/-- The counts after one process has changed. -/
theorem strongCount_set (hp : s.procs[p]? = some proc) (new : Proc) (mem : Nat → Nat → UInt8)
    (f : Nat) :
    strongCount ⟨s.procs.set p new, mem⟩ f
        + proc.memset.trackers.countP (·.tracker == f)
      = s.strongCount f + new.memset.trackers.countP (·.tracker == f) := by
  rw [strongCount_eq, strongCount_eq]
  have hset : holders ⟨s.procs.set p new, mem⟩ = s.holders.set p new.memset.trackers :=
    List.map_set
  rw [hset]
  exact refCount_set _ _ (getElem?_holders hp) _

end Sys

end MonkeyOS
