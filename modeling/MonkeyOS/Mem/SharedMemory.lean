import MonkeyOS.Lib.RefCount
import MonkeyOS.Lib.Run
import MonkeyOS.Mem.Mmap

/-!
# MonkeyOS — System V shared memory (`kernel/src/tasks/shm.rs`, `kernel/src/syscall/shm.rs`)

`SHARED_MEMORY` maps keys to segments. A segment is an `Arc`: the table holds one reference and
every attachment of every process another. `sys_shmctl(IPC_RMID)` only sets a flag, and the removal
is left to `MapedSharedMemory::drop`, which removes the key when the strong count is 1.

* `Complete.two_le_strongCount` — the count a drop sees is never 1: the attachment that is dropped
  holds a reference, and so does the table;
* `complete_exec` — so every segment that was ever made is in the table for good;
* `kept_exec_iff` — when a call leaves no segment that is removed and unattached;
* `shm_lifetime_iff` — the lifetime is as it should be exactly as long as there is none.
-/

namespace MonkeyOS

open Lib

structure SharedMemory where
  /-- the frames of the trackers -/
  trackers : List Nat
  deleted : Bool
  deriving DecidableEq

/-- An attachment; `mem` is the number of the segment it points to. -/
structure MapedSharedMemory where
  key : Nat
  mem : Nat
  start : Nat
  size : Nat
  deriving DecidableEq

structure ShmSys where
  /-- `SHARED_MEMORY`: keys and the numbers of their segments -/
  table : List (Nat × Nat)
  /-- every segment that was made, by number -/
  segs : List SharedMemory
  /-- `pcb.shms` of every process -/
  procs : List (List MapedSharedMemory)
  deriving DecidableEq

namespace ShmSys

/-- `n` processes, and no segment yet. -/
def start (n : Nat) : ShmSys := ⟨[], [], List.replicate n []⟩

/-- `Arc::strong_count`: the references of the table and of the attachments. -/
def strongCount (s : ShmSys) (seg : Nat) : Nat :=
  refCount id (s.table.map Prod.snd :: s.procs.map (fun shms => shms.map (·.mem))) seg

def lookup (s : ShmSys) (key : Nat) : Option Nat :=
  (s.table.find? (·.1 == key)).map Prod.snd

def deleted (s : ShmSys) (seg : Nat) : Bool := (s.segs[seg]?.map SharedMemory.deleted).getD false

/-- The key `sys_shmget` looks for. -/
def shmKey (s : ShmSys) (key : Nat) : Nat :=
  if key = 0 then ((s.table.map Prod.fst).max?.getD 0 + 1) % 2 ^ 64 else key

/-- `sys_shmget`, where `frame_alloc_much` answers with the frames from `ppn` on. -/
def sysShmget (s : ShmSys) (ppn key size shmflg : Nat) : Except Errno Nat × ShmSys :=
  let key := s.shmKey key
  if (s.lookup key).isSome then (.ok key, s)
  -- `01000` is a decimal number in Rust: it is the mask of other flags than `IPC_CREAT`
  else if shmflg &&& 1000 > 0 then
    (.ok key,
      { s with
        table := s.table ++ [(key, s.segs.length)]
        segs := s.segs ++ [⟨contiguous ppn (divCeil size pageSize), false⟩] })
  else (.error .ENOENT, s)

/-- `sys_shmat` of process `p`, at the address `vaddr` it settles on. -/
def sysShmat (s : ShmSys) (p shmid vaddr : Nat) : Except Errno Nat × ShmSys :=
  match s.lookup shmid with
  | none => (.error .ENOENT, s)
  | some mem =>
    let size := ((s.segs[mem]?.map (·.trackers.length)).getD 0) * pageSize
    (.ok vaddr,
      { s with procs := s.procs.modify p (fun shms => shms ++ [⟨shmid, mem, vaddr, size⟩]) })

def sysShmctl (s : ShmSys) (shmid cmd : Nat) : Except Errno Nat × ShmSys :=
  if cmd = 0 then
    match s.lookup shmid with
    | some mem =>
      (.ok 0, { s with segs := s.segs.modify mem (fun x => { x with deleted := true }) })
    | none => (.ok 0, s)
  else (.error .EPERM, s)

/-- `cow_fork`: the child has a clone of every attachment. -/
def cowFork (s : ShmSys) (p : Nat) : ShmSys :=
  { s with procs := s.procs ++ [s.procs.getD p []] }

/-- `MapedSharedMemory::drop` of the first attachment of process `p`; its reference is still counted
when the count is read, and goes after that. -/
def dropFirst (s : ShmSys) (p : Nat) : ShmSys :=
  match s.procs.getD p [] with
  | [] => s
  | a :: shms =>
    let table :=
      if s.strongCount a.mem = 1 ∧ s.deleted a.mem = true then
        s.table.filter (·.1 != a.key)
      else s.table
    { s with table := table, procs := s.procs.set p shms }

/-- The end of process `p`: its attachments are dropped, first to last. -/
def teardown (s : ShmSys) (p : Nat) : ShmSys :=
  (s.procs.getD p []).foldl (fun s _ => s.dropFirst p) s

end ShmSys

inductive ShmCall where
  | shmget (ppn key size shmflg : Nat)
  | shmat (p shmid vaddr : Nat)
  | shmctl (shmid cmd : Nat)
  | fork (p : Nat)
  | teardown (p : Nat)

namespace ShmSys

def exec (s : ShmSys) : ShmCall → ShmSys
  | .shmget ppn key size shmflg => (s.sysShmget ppn key size shmflg).2
  | .shmat p shmid vaddr => (s.sysShmat p shmid vaddr).2
  | .shmctl shmid cmd => (s.sysShmctl shmid cmd).2
  | .fork p => s.cowFork p
  | .teardown p => s.teardown p

/-! ## The lifetime of a segment -/

def InTable (s : ShmSys) (seg : Nat) : Prop := seg ∈ s.table.map Prod.snd

def AttachedBy (s : ShmSys) (p seg : Nat) : Prop := ∃ a ∈ s.procs.getD p [], a.mem = seg

def Attached (s : ShmSys) (seg : Nat) : Prop := ∃ p, s.AttachedBy p seg

/-- Removed with `IPC_RMID`, and nothing is attached. -/
def Over (s : ShmSys) (seg : Nat) : Prop := s.deleted seg = true ∧ ¬ s.Attached seg

/-- The last reference is gone, and the frames went back to the allocator with it. -/
def Returned (s : ShmSys) (seg : Nat) : Prop := s.strongCount seg = 0

/-- A segment is in the table until it is removed and unattached; as soon as it is, it is out of the
table and its frames are back. -/
def Lifetime (s : ShmSys) : Prop :=
  ∀ seg < s.segs.length, (s.InTable seg ↔ ¬ s.Over seg) ∧ (s.Over seg → s.Returned seg)

/-- A removal finds its segment attached, and the end of a process leaves every removed segment it
holds attached to another. -/
def Attaching (s : ShmSys) : ShmCall → Prop
  | .shmctl shmid cmd => cmd = 0 → ∀ seg, s.lookup shmid = some seg → s.Attached seg
  | .teardown p => ∀ seg, s.deleted seg = true → s.AttachedBy p seg → ∃ q ≠ p, s.AttachedBy q seg
  | _ => True

/-- Every segment that was made is in the table, and every reference is to one that was made. -/
structure Complete (s : ShmSys) : Prop where
  all : ∀ seg < s.segs.length, s.InTable seg
  table : ∀ seg, s.InTable seg → seg < s.segs.length
  procs : ∀ seg, s.Attached seg → seg < s.segs.length

/-- Every removed segment is attached. -/
def Kept (s : ShmSys) : Prop := ∀ seg, s.deleted seg = true → s.Attached seg

variable {s : ShmSys}

theorem start_complete (n : Nat) : (start n).Complete where
  all _ h := nomatch h
  table _ h := nomatch h
  procs seg h := by
    obtain ⟨p, a, ha, -⟩ := h
    simp [start, List.getD_eq_getElem?_getD, List.getElem?_replicate] at ha
    split at ha <;> simp at ha

theorem start_kept (n : Nat) : (start n).Kept := fun _ h => nomatch h

theorem lookup_inTable {key seg : Nat} (h : s.lookup key = some seg) : s.InTable seg := by
  obtain ⟨x, hfind, rfl⟩ := Option.map_eq_some_iff.mp h
  exact List.mem_map_of_mem (List.mem_of_find?_eq_some hfind)

theorem deleted_lt {seg : Nat} (h : s.deleted seg = true) : seg < s.segs.length := by
  by_contra hge
  unfold deleted at h
  rw [List.getElem?_eq_none (Nat.le_of_not_lt hge)] at h
  cases h

/-- In a table that is complete, the lifetime is right if nothing is over. -/
theorem Complete.lifetime_iff (hc : s.Complete) : s.Lifetime ↔ s.Kept := by
  constructor
  · intro hl seg hdel
    have hlt := deleted_lt hdel
    have hnot := (hl seg hlt).1.mp (hc.all seg hlt)
    exact not_not.mp (fun hatt => hnot ⟨hdel, hatt⟩)
  · intro hk seg hlt
    have hnot : ¬ s.Over seg := fun hover => hover.2 (hk seg hover.1)
    exact ⟨iff_of_true (hc.all seg hlt) hnot, fun hover => absurd hover hnot⟩

/-! ## The drop -/

/-- The table's reference, and the attachment's own. -/
theorem Complete.two_le_strongCount (hc : s.Complete) {p seg : Nat} (hp : s.AttachedBy p seg) :
    2 ≤ s.strongCount seg := by
  have htable : 0 < (s.table.map Prod.snd).countP (fun t => id t == seg) :=
    List.countP_pos_iff.mpr ⟨seg, hc.all seg (hc.procs seg ⟨p, hp⟩), beq_self_eq_true seg⟩
  obtain ⟨a, ha, rfl⟩ := hp
  rw [List.getD_eq_getElem?_getD] at ha
  cases hget : s.procs[p]? with
  | none =>
    rw [hget] at ha
    cases ha
  | some shms =>
    rw [hget] at ha
    have hholder : (s.procs.map (fun shms => shms.map (·.mem)))[p]?
        = some (shms.map (·.mem)) := by rw [List.getElem?_map, hget, Option.map_some]
    have hprocs := refCount_pos id hholder (List.mem_map_of_mem ha)
    unfold strongCount
    rw [refCount_cons]
    dsimp only [id] at hprocs htable ⊢
    omega

/-- A drop leaves the table as it is. -/
theorem Complete.dropFirst_eq (hc : s.Complete) {p : Nat} {a : MapedSharedMemory}
    {shms : List MapedSharedMemory} (hp : s.procs.getD p [] = a :: shms) :
    s.dropFirst p = { s with procs := s.procs.set p shms } := by
  have hcount : 2 ≤ s.strongCount a.mem := by
    apply hc.two_le_strongCount (p := p)
    exact ⟨a, by rw [hp]; exact List.mem_cons_self, rfl⟩
  unfold dropFirst
  rw [hp]
  dsimp only
  rw [if_neg (fun h => by omega)]

theorem Complete.withProcs (hc : s.Complete) {procs : List (List MapedSharedMemory)}
    (hsub : ∀ seg, Attached { s with procs := procs } seg → s.Attached seg) :
    Complete { s with procs := procs } :=
  ⟨hc.all, hc.table, fun seg h => hc.procs seg (hsub seg h)⟩

theorem getD_set (p q : Nat) (shms : List MapedSharedMemory) :
    (s.procs.set p shms).getD q []
      = if q = p then (if p < s.procs.length then shms else []) else s.procs.getD q [] := by
  rw [List.getD_eq_getElem?_getD, List.getD_eq_getElem?_getD, List.getElem?_set]
  by_cases hq : q = p
  · subst hq
    rw [if_pos rfl, if_pos rfl]
    split
    · rfl
    · rfl
  · rw [if_neg (fun h => hq h.symm), if_neg hq]

theorem set_nil_of_getD {p : Nat} (h : s.procs.getD p [] = []) : s.procs.set p [] = s.procs := by
  rw [List.getD_eq_getElem?_getD] at h
  apply List.ext_getElem?
  intro q
  rw [List.getElem?_set]
  split
  · rename_i hq
    subst hq
    split
    · rename_i hlt
      rw [List.getElem?_eq_getElem hlt] at h ⊢
      exact congrArg some h.symm
    · rename_i hge
      exact (List.getElem?_eq_none (Nat.le_of_not_lt hge)).symm
  · rfl

/-- **The end of a process** empties its list and does nothing else. -/
theorem Complete.teardown_eq (hc : s.Complete) (p : Nat) :
    s.teardown p = { s with procs := s.procs.set p [] } := by
  unfold teardown
  generalize hshms : s.procs.getD p [] = shms
  -- over the attachments that are left; each drop sees a table that is complete
  induction shms generalizing s with
  | nil =>
    show s = { s with procs := s.procs.set p [] }
    rw [set_nil_of_getD hshms]
  | cons a shms ih =>
    have hlt : p < s.procs.length := by
      by_contra hge
      rw [List.getD_eq_default _ _ (Nat.le_of_not_lt hge)] at hshms
      cases hshms
    have hnext : Complete { s with procs := s.procs.set p shms } := by
      apply hc.withProcs
      intro seg hatt
      obtain ⟨q, b, hb, hmem⟩ := hatt
      refine ⟨q, b, ?_, hmem⟩
      dsimp only at hb
      rw [getD_set, if_pos hlt] at hb
      split at hb
      · rename_i hq
        rw [hq, hshms]
        exact List.mem_cons_of_mem a hb
      · exact hb
    rw [List.foldl_cons, hc.dropFirst_eq hshms, ih hnext]
    · dsimp only
      rw [List.set_set]
    · dsimp only
      rw [getD_set, if_pos rfl, if_pos hlt]

theorem Complete.attachedBy_teardown (hc : s.Complete) (p q seg : Nat) :
    (s.teardown p).AttachedBy q seg ↔ q ≠ p ∧ s.AttachedBy q seg := by
  rw [hc.teardown_eq]
  unfold AttachedBy
  dsimp only
  rw [getD_set, ite_self]
  by_cases hq : q = p
  · rw [if_pos hq]
    exact iff_of_false (fun ⟨_, ha, _⟩ => nomatch ha) (·.1 hq)
  · rw [if_neg hq]
    exact (and_iff_right hq).symm

/-! ## The other calls -/

theorem sysShmget_cases (ppn key size shmflg : Nat) :
    (s.sysShmget ppn key size shmflg).2 = s
      ∨ ∃ key' frames, (s.sysShmget ppn key size shmflg).2
          = { s with
              table := s.table ++ [(key', s.segs.length)]
              segs := s.segs ++ [⟨frames, false⟩] } := by
  unfold sysShmget
  dsimp only
  split
  · exact .inl rfl
  split
  · exact .inr ⟨_, _, rfl⟩
  · exact .inl rfl

theorem sysShmat_cases (p shmid vaddr : Nat) :
    (s.sysShmat p shmid vaddr).2 = s
      ∨ ∃ a, s.lookup shmid = some a.mem
          ∧ (s.sysShmat p shmid vaddr).2
            = { s with procs := s.procs.modify p (fun shms => shms ++ [a]) } := by
  unfold sysShmat
  split
  · exact .inl rfl
  · rename_i mem hmem
    exact .inr ⟨⟨shmid, mem, vaddr, _⟩, hmem, rfl⟩

theorem sysShmctl_cases (shmid cmd : Nat) :
    ((s.sysShmctl shmid cmd).2 = s ∧ (cmd = 0 → s.lookup shmid = none))
      ∨ ∃ mem, cmd = 0 ∧ s.lookup shmid = some mem
          ∧ (s.sysShmctl shmid cmd).2
            = { s with segs := s.segs.modify mem (fun x => { x with deleted := true }) } := by
  unfold sysShmctl
  split
  · rename_i hcmd
    split
    · rename_i mem hmem
      exact .inr ⟨mem, hcmd, hmem, rfl⟩
    · rename_i hnone
      exact .inl ⟨rfl, fun _ => hnone⟩
  · rename_i hcmd
    exact .inl ⟨rfl, fun h => absurd h hcmd⟩

/-- A new segment is not removed. -/
theorem deleted_concat (s : ShmSys) (table : List (Nat × Nat)) (frames : List Nat) (seg : Nat) :
    deleted { s with table := table, segs := s.segs ++ [⟨frames, false⟩] } seg = s.deleted seg := by
  unfold deleted
  dsimp only
  rcases Nat.lt_trichotomy seg s.segs.length with hlt | heq | hgt
  · rw [List.getElem?_append_left hlt]
  · rw [heq, List.getElem?_concat_length, List.getElem?_eq_none (Nat.le_refl _)]
    rfl
  · rw [List.getElem?_eq_none (by simp; omega), List.getElem?_eq_none (Nat.le_of_lt hgt)]

/-- A new segment comes with its entry. -/
theorem Complete.concat (hc : s.Complete) (key : Nat) (frames : List Nat) :
    Complete { s with
      table := s.table ++ [(key, s.segs.length)]
      segs := s.segs ++ [⟨frames, false⟩] } := by
  have hlen : (s.segs ++ [(⟨frames, false⟩ : SharedMemory)]).length = s.segs.length + 1 := by
    rw [List.length_append, List.length_singleton]
  have hin : ∀ seg, seg ∈ (s.table ++ [(key, s.segs.length)]).map Prod.snd
      ↔ s.InTable seg ∨ seg = s.segs.length := by
    intro seg
    rw [List.map_append, List.mem_append]
    exact or_congr Iff.rfl List.mem_singleton
  constructor
  · intro seg hlt
    apply (hin seg).mpr
    rcases Nat.lt_succ_iff_lt_or_eq.mp (hlen ▸ hlt) with hold | hnew
    · exact .inl (hc.all seg hold)
    · exact .inr hnew
  · intro seg htable
    show seg < (s.segs ++ [(⟨frames, false⟩ : SharedMemory)]).length
    rw [hlen]
    rcases (hin seg).mp htable with hold | hnew
    · exact Nat.lt_succ_of_lt (hc.table seg hold)
    · exact Nat.lt_succ_of_le (Nat.le_of_eq hnew)
  · intro seg hatt
    show seg < (s.segs ++ [(⟨frames, false⟩ : SharedMemory)]).length
    rw [hlen]
    exact Nat.lt_succ_of_lt (hc.procs seg hatt)

theorem deleted_modify {mem : Nat} (hmem : mem < s.segs.length) (seg : Nat) :
    deleted { s with segs := s.segs.modify mem (fun x => { x with deleted := true }) } seg = true
      ↔ seg = mem ∨ s.deleted seg = true := by
  unfold deleted
  dsimp only
  rw [List.getElem?_modify]
  by_cases hseg : mem = seg
  · subst hseg
    rw [List.getElem?_eq_getElem hmem]
    simp
  · have hne : seg ≠ mem := fun h => hseg h.symm
    simp [hseg, hne]

theorem attachedBy_modify (s : ShmSys) (a : MapedSharedMemory) (p q seg : Nat) :
    (s.AttachedBy q seg →
        AttachedBy { s with procs := s.procs.modify p (fun shms => shms ++ [a]) } q seg)
      ∧ (AttachedBy { s with procs := s.procs.modify p (fun shms => shms ++ [a]) } q seg →
        s.AttachedBy q seg ∨ seg = a.mem) := by
  unfold AttachedBy
  dsimp only
  rw [List.getD_eq_getElem?_getD, List.getD_eq_getElem?_getD, List.getElem?_modify]
  cases s.procs[q]? with
  | none => exact ⟨id, .inl⟩
  | some shms =>
    by_cases hq : p = q
    · simp only [hq, if_true, Option.map_eq_map, Option.map_some, Option.getD_some]
      constructor
      · intro h
        obtain ⟨b, hb, hmem⟩ := h
        exact ⟨b, List.mem_append_left _ hb, hmem⟩
      · intro h
        obtain ⟨b, hb, hmem⟩ := h
        rcases List.mem_append.mp hb with hold | hnew
        · exact .inl ⟨b, hold, hmem⟩
        · rw [List.mem_singleton.mp hnew] at hmem
          exact .inr hmem.symm
    · simp only [hq, if_false, Option.map_eq_map, Option.map_some, Option.getD_some]
      exact ⟨id, .inl⟩

theorem attached_cowFork (s : ShmSys) (p seg : Nat) :
    (s.cowFork p).Attached seg ↔ s.Attached seg := by
  have hget : ∀ q, (s.procs ++ [s.procs.getD p []]).getD q []
      = if q = s.procs.length then s.procs.getD p [] else s.procs.getD q [] := by
    intro q
    rcases Nat.lt_trichotomy q s.procs.length with hlt | heq | hgt
    · rw [if_neg (Nat.ne_of_lt hlt), List.getD_append _ _ _ _ hlt]
    · rw [if_pos heq, heq, List.getD_append_right _ _ _ _ (Nat.le_refl _), Nat.sub_self]
      rfl
    · rw [if_neg (Nat.ne_of_gt hgt), List.getD_eq_default _ _ (Nat.le_of_lt hgt),
        List.getD_eq_default _ _ (by simp; omega)]
  constructor
  · intro h
    obtain ⟨q, a, ha, hmem⟩ := h
    have ha' : a ∈ (s.procs ++ [s.procs.getD p []]).getD q [] := ha
    rw [hget] at ha'
    split at ha'
    · exact ⟨p, a, ha', hmem⟩
    · exact ⟨q, a, ha', hmem⟩
  · intro h
    obtain ⟨q, a, ha, hmem⟩ := h
    refine ⟨q, a, ?_, hmem⟩
    show a ∈ (s.procs ++ [s.procs.getD p []]).getD q []
    -- the process `q` that holds the segment is one of the old ones
    have hq : q ≠ s.procs.length := by
      intro heq
      rw [heq, List.getD_eq_default _ _ (Nat.le_refl _)] at ha
      cases ha
    rw [hget, if_neg hq]
    exact ha

/-! ## Every call -/

/-- **No segment ever leaves the table.** -/
theorem complete_exec (hc : s.Complete) (call : ShmCall) : (s.exec call).Complete := by
  cases call with
  | shmget ppn key size shmflg =>
    show (s.sysShmget ppn key size shmflg).2.Complete
    rcases sysShmget_cases ppn key size shmflg with heq | ⟨key', frames, heq⟩
    · rw [heq]
      exact hc
    · rw [heq]
      exact hc.concat key' frames
  | shmat p shmid vaddr =>
    show (s.sysShmat p shmid vaddr).2.Complete
    rcases sysShmat_cases p shmid vaddr with heq | ⟨a, hlookup, heq⟩
    · rw [heq]
      exact hc
    · rw [heq]
      refine ⟨hc.all, hc.table, fun seg hatt => ?_⟩
      obtain ⟨q, hq⟩ := hatt
      rcases (attachedBy_modify s a p q seg).2 hq with hold | hnew
      · exact hc.procs seg ⟨q, hold⟩
      · rw [hnew]
        exact hc.table a.mem (lookup_inTable hlookup)
  | shmctl shmid cmd =>
    show (s.sysShmctl shmid cmd).2.Complete
    rcases sysShmctl_cases shmid cmd with ⟨heq, -⟩ | ⟨mem, -, -, heq⟩
    · rw [heq]
      exact hc
    · rw [heq]
      have hlen : (s.segs.modify mem (fun x => { x with deleted := true })).length
          = s.segs.length := List.length_modify _ _ _
      constructor
      · intro seg hlt
        exact hc.all seg (hlen ▸ hlt)
      · intro seg hin
        exact hlen ▸ hc.table seg hin
      · intro seg hatt
        exact hlen ▸ hc.procs seg hatt
  | fork p => exact hc.withProcs (fun seg => (attached_cowFork s p seg).mp)
  | teardown p =>
    show (s.teardown p).Complete
    have hsub : ∀ seg, (s.teardown p).Attached seg → s.Attached seg := by
      intro seg hatt
      obtain ⟨q, hq⟩ := hatt
      exact ⟨q, ((hc.attachedBy_teardown p q seg).mp hq).2⟩
    rw [hc.teardown_eq] at hsub ⊢
    exact hc.withProcs hsub

theorem kept_sysShmctl_iff (hc : s.Complete) (hk : s.Kept) (shmid cmd : Nat) :
    (s.sysShmctl shmid cmd).2.Kept
      ↔ (cmd = 0 → ∀ seg, s.lookup shmid = some seg → s.Attached seg) := by
  rcases sysShmctl_cases shmid cmd with ⟨heq, hnone⟩ | ⟨mem, hcmd, hlookup, heq⟩
  · rw [heq]
    refine iff_of_true hk (fun hcmd seg hseg => ?_)
    rw [hnone hcmd] at hseg
    cases hseg
  · rw [heq]
    have hmem := hc.table mem (lookup_inTable hlookup)
    constructor
    · intro hkept _ seg hseg
      rw [hlookup] at hseg
      cases hseg
      exact hkept mem ((deleted_modify hmem mem).mpr (.inl rfl))
    · intro hatt seg hdel
      show s.Attached seg
      rcases (deleted_modify hmem seg).mp hdel with hnew | hold
      · rw [hnew]
        exact hatt hcmd mem hlookup
      · exact hk seg hold

theorem Complete.kept_teardown_iff (hc : s.Complete) (hk : s.Kept) (p : Nat) :
    (s.teardown p).Kept ↔ ∀ seg, s.deleted seg = true → s.AttachedBy p seg →
      ∃ q ≠ p, s.AttachedBy q seg := by
  have hdeleted : ∀ seg, (s.teardown p).deleted seg = s.deleted seg := by
    intro seg
    rw [hc.teardown_eq]
    rfl
  constructor
  · intro hkept seg hdel _
    obtain ⟨q, hq⟩ := hkept seg ((hdeleted seg).trans hdel)
    exact ⟨q, (hc.attachedBy_teardown p q seg).mp hq⟩
  · intro hother seg hdel
    rw [hdeleted] at hdel
    obtain ⟨q, hq⟩ := hk seg hdel
    by_cases hqp : q = p
    · rw [hqp] at hq
      obtain ⟨r, hr⟩ := hother seg hdel hq
      exact ⟨r, (hc.attachedBy_teardown p r seg).mpr hr⟩
    · exact ⟨q, (hc.attachedBy_teardown p q seg).mpr ⟨hqp, hq⟩⟩

/-- **One call.** Where every removed segment is attached, they all are after a call exactly if the
call is attaching. -/
theorem kept_exec_iff (hc : s.Complete) (hk : s.Kept) (call : ShmCall) :
    (s.exec call).Kept ↔ s.Attaching call := by
  cases call with
  | shmget ppn key size shmflg =>
    refine iff_of_true ?_ trivial
    show (s.sysShmget ppn key size shmflg).2.Kept
    rcases sysShmget_cases ppn key size shmflg with heq | ⟨key', frames, heq⟩
    · rw [heq]
      exact hk
    · rw [heq]
      intro seg hdel
      rw [deleted_concat] at hdel
      exact hk seg hdel
  | shmat p shmid vaddr =>
    refine iff_of_true ?_ trivial
    show (s.sysShmat p shmid vaddr).2.Kept
    rcases sysShmat_cases p shmid vaddr with heq | ⟨a, -, heq⟩
    · rw [heq]
      exact hk
    · rw [heq]
      intro seg hdel
      obtain ⟨q, hq⟩ := hk seg hdel
      exact ⟨q, (attachedBy_modify s a p q seg).1 hq⟩
  | shmctl shmid cmd => exact kept_sysShmctl_iff hc hk shmid cmd
  | fork p =>
    refine iff_of_true (fun seg hdel => ?_) trivial
    exact (attached_cowFork s p seg).mpr (hk seg hdel)
  | teardown p => exact hc.kept_teardown_iff hk p

end ShmSys

def ShmStep (s : ShmSys) (call : ShmCall) (t : ShmSys) : Prop := t = s.exec call

/-- **The lifetime of shared memory.** Over every sequence of calls, forks and exits of any number
of processes, every segment has its lifetime after every call exactly if every removal and every
exit leaves the removed segments attached. No call ever takes a segment out of the table. -/
theorem shm_lifetime_iff (n : Nat) (calls : List ShmCall) :
    (Throughout ShmStep (fun s call => (s.exec call).Lifetime) (.start n) calls
      ↔ Throughout ShmStep ShmSys.Attaching (.start n) calls)
    ∧ ∀ t, Run ShmStep (.start n) calls t → ∀ seg < t.segs.length, t.InTable seg := by
  constructor
  · apply throughout_iff (I := fun s => s.Complete ∧ s.Kept)
    · intro s call hs
      rw [(ShmSys.complete_exec hs.1 call).lifetime_iff]
      exact ShmSys.kept_exec_iff hs.1 hs.2 call
    · intro s call t hs hatt hstep
      rw [hstep]
      exact ⟨ShmSys.complete_exec hs.1 call, (ShmSys.kept_exec_iff hs.1 hs.2 call).mpr hatt⟩
    · exact ⟨ShmSys.start_complete n, ShmSys.start_kept n⟩
  · intro t hrun
    have hend : t.Complete := by
      apply hrun.invariant (I := ShmSys.Complete) _ (ShmSys.start_complete n)
      intro s call t hs hstep
      rw [hstep]
      exact ShmSys.complete_exec hs call
    exact hend.all

/-- A segment that is removed with nothing attached, and one whose only process ends after the
removal: both are over, and both are in the table with a reference. -/
theorem shm_removed_stays :
    (∃ t, Run ShmStep (.start 1) [.shmget 0x1000 7 4096 512, .shmctl 7 0] t
      ∧ t.Over 0 ∧ t.InTable 0 ∧ ¬ t.Returned 0)
    ∧ ∃ t, Run ShmStep (.start 1)
        [.shmget 0x1000 7 4096 512, .shmat 0 7 0x40000000, .shmctl 7 0, .teardown 0] t
      ∧ t.Over 0 ∧ t.InTable 0 ∧ ¬ t.Returned 0 := by
  have hnone : ∀ table segs, ¬ (⟨table, segs, [[]]⟩ : ShmSys).Attached 0 := by
    intro table segs h
    obtain ⟨p, a, ha, -⟩ := h
    cases p with
    | zero => cases ha
    | succ p => cases ha
  have hin : (⟨[(7, 0)], [⟨[0x1000], true⟩], [[]]⟩ : ShmSys).InTable 0 := List.mem_singleton.mpr rfl
  have hheld : ¬ (⟨[(7, 0)], [⟨[0x1000], true⟩], [[]]⟩ : ShmSys).Returned 0 := by
    show ¬ ShmSys.strongCount _ 0 = 0
    decide
  exact ⟨⟨_, .cons rfl (.cons (show _ = _ by decide) (.nil _)), ⟨rfl, hnone _ _⟩, hin, hheld⟩,
    ⟨_, .cons rfl (.cons rfl (.cons rfl (.cons (show _ = _ by decide) (.nil _)))),
      ⟨rfl, hnone _ _⟩, hin, hheld⟩⟩

end MonkeyOS
