import MonkeyOS.Mem.CowRun

/-!
# MonkeyOS — what a process reads, and the bytes it shares

`Proc.look` is the byte that a load delivers: from the frame if the page is mapped, and otherwise
what `user_cow_int` would bring in (`Proc.look_of_fault`). A process and the child it forks read the
same (`IsolatedOn.forked_look`).

Behind an address of a resident shared page is a byte that others see as well, its cell
(`MemSet.cell`, by frame and place in the frame). `cellStep` says what a store does to all that is
read through cells, and the lemmas after it what a run of bytes leaves there.
-/

namespace MonkeyOS

open Lib

/-! ## What a process reads -/

section Look

variable (content : Nat → Nat → UInt8)

/-- What the first access to a page that is not resident brings in: the bytes of the file
(`content`, by file and offset), or zeros. -/
def MemArea.absent (a : MemArea) (x : Nat) : UInt8 :=
  match a.file with
  | some file => content file ((a.offset + (floor x + 2 ^ 64 - a.start)) % 2 ^ 64 + x % pageSize)
  | none => 0

/-- The byte a load from `x` delivers. -/
def Proc.look (proc : Proc) (mem : Nat → Nat → UInt8) (x : Nat) : UInt8 :=
  match proc.pt (floor x) with
  | some pte => mem pte.frame (x % pageSize)
  | none =>
    ((proc.memset.areas.find? (·.contains x)).map (·.absent content x)).getD 0

def Sys.look (s : Sys) (p x : Nat) : UInt8 :=
  match s.procs[p]? with
  | some proc => proc.look content s.mem x
  | none => 0

variable {content}

variable {r : FaultResult} {env : FaultEnv} {proc : Proc} {x : Nat} {pte : PTE}
  {mem : Nat → Nat → UInt8}

theorem Proc.read_of_some
    (h : proc.pt (floor x) = some pte) : proc.read mem x = mem pte.frame (x % pageSize) := by
  unfold read
  rw [h]

theorem Proc.look_of_some (h : proc.pt (floor x) = some pte) :
    proc.look content mem x = mem pte.frame (x % pageSize) := by
  unfold look
  rw [h]

theorem Sys.look_of_some {s : Sys} {p : Nat} (hp : s.procs[p]? = some proc)
    (x : Nat) : s.look content p x = proc.look content s.mem x := by
  unfold look
  rw [hp]

/-- `user_cow_int` on a page without a tracker, if it is not refused. -/
theorem userCowInt_of_absent {m : MemSet} {pt : PageTable} {a : MemArea}
    (hfind : m.areas.find? (·.contains x) = some a)
    (hnone : a.mtrackers.find? (fun t => t.vaddr == floor x) = none)
    (h : userCowInt m pt env x = some r) (heffect : r.effect ≠ .segv) :
    ∃ frame, env.frame = some frame ∧ r.pt = pt.mapPage (floor x) frame (a.faultFlags x)
      ∧ r.effect = .filled frame (a.file.map (fun file =>
          (file, (a.offset + (floor x + 2 ^ 64 - a.start)) % 2 ^ 64))) := by
  unfold userCowInt at h
  simp only [hfind, hnone] at h
  split at h
  · cases h
    exact absurd rfl heffect
  split at h
  · cases h
    exact absurd rfl heffect
  rename_i frame hframe
  cases h
  exact ⟨frame, hframe, rfl, rfl⟩

/-- The load of a page that is not mapped: `user_cow_int` brings it in, and what is read there then is
what `look` says. -/
theorem Proc.look_of_fault {data : Nat → UInt8} (hwf : proc.memset.WF)
    (hagrees : proc.pt.AgreesOn proc.memset.Covers proc.memset) (hpt : proc.pt (floor x) = none)
    (h : userCowInt proc.memset proc.pt env x = some r) (heffect : r.effect ≠ .segv)
    (hzero : ∀ f, env.frame = some f → ∀ o, mem f o = 0)
    (hdata : ∀ f file offset, r.effect = .filled f (some (file, offset)) →
      ∀ o, data o = content file (offset + o)) :
    Proc.read ⟨r.memset, r.pt⟩ (r.effect.apply mem data) x = proc.look content mem x := by
  cases hfind : proc.memset.areas.find? (·.contains x) with
  | none =>
    unfold userCowInt at h
    rw [hfind] at h
    cases h
  | some a =>
    have ha := List.mem_of_find?_eq_some hfind
    have hax : a.contains x = true := List.find?_some (p := fun a : MemArea => a.contains x) hfind
    -- a tracker for the page would be in the page table
    have hnone : a.mtrackers.find? (fun t => t.vaddr == floor x) = none := by
      refine List.find?_eq_none.mpr (fun t ht hv => ?_)
      have hv : t.vaddr = floor x := by simpa using hv
      have hcov : proc.memset.Covers (floor x) :=
        ⟨a, ha, MemArea.contains_floor (hwf.aligned a ha).1 hax⟩
      obtain ⟨flags, hpte⟩ := (hagrees _ hcov t.tracker).mpr
        ⟨t, MemSet.mem_trackers.mpr ⟨a, ha, ht⟩, hv, rfl⟩
      rw [hpt] at hpte
      cases hpte
    obtain ⟨frame, hframe, hrpt, hfilled⟩ := userCowInt_of_absent hfind hnone h heffect
    have hpte : Proc.pt ⟨r.memset, r.pt⟩ (floor x) = some ⟨frame, a.faultFlags x⟩ := by
      show r.pt (floor x) = _
      rw [hrpt]
      exact if_pos rfl
    have hlook : proc.look content mem x = a.absent content x := by
      unfold Proc.look
      rw [hpt, hfind]
      rfl
    rw [hlook, Proc.read_of_some hpte, hfilled]
    unfold MemArea.absent
    cases hfile : a.file with
    | none => exact hzero frame hframe _
    | some file =>
      have hbytes := hdata frame file _ (by rw [hfilled, hfile]; rfl)
      simp [FaultEffect.apply, hbytes]

end Look

/-! ## Shared memory

The byte behind an address of a resident shared page, by frame and place in the frame. -/

namespace MemSet

def sharedTrackers (m : MemSet) : List MapTrack :=
  (m.areas.filter (·.mtype.IsShared)).flatMap (·.mtrackers)

def cell (m : MemSet) (x : Nat) : Option (Nat × Nat) :=
  (m.sharedTrackers.find? (fun t => t.vaddr == floor x)).map (fun t => (t.tracker, x % pageSize))

/-- The address lies in a shared area. -/
def InShared (m : MemSet) (x : Nat) : Prop :=
  ∃ a ∈ m.areas, a.mtype.IsShared ∧ a.contains x = true

variable {m : MemSet} {x y : Nat}

theorem mem_sharedTrackers {t : MapTrack} :
    t ∈ m.sharedTrackers ↔ ∃ a ∈ m.areas, a.mtype.IsShared ∧ t ∈ a.mtrackers := by
  simp [sharedTrackers, and_assoc]

theorem cell_cases {k : Nat × Nat} (h : m.cell x = some k) :
    ∃ a ∈ m.areas, a.mtype.IsShared ∧ ∃ t ∈ a.mtrackers, t.vaddr = floor x
      ∧ k = (t.tracker, x % pageSize) := by
  obtain ⟨t, ht, rfl⟩ := Option.map_eq_some_iff.mp h
  obtain ⟨a, ha, hshared, hta⟩ := mem_sharedTrackers.mp (List.mem_of_find?_eq_some ht)
  have hv : t.vaddr = floor x := by simpa using List.find?_some ht
  exact ⟨a, ha, hshared, t, hta, hv, rfl⟩

theorem cell_of_mem (hwf : m.WF) {a : MemArea} (ha : a ∈ m.areas) (hshared : a.mtype.IsShared)
    {t : MapTrack} (ht : t ∈ a.mtrackers) (hv : t.vaddr = floor x) :
    m.cell x = some (t.tracker, x % pageSize) := by
  have hmem : t ∈ m.sharedTrackers := mem_sharedTrackers.mpr ⟨a, ha, hshared, ht⟩
  unfold cell
  cases hfind : m.sharedTrackers.find? (fun t => t.vaddr == floor x) with
  | none => exact absurd (List.find?_eq_none.mp hfind t hmem) (by simp [hv])
  | some u =>
    have huv : u.vaddr = floor x := by simpa using List.find?_some hfind
    obtain ⟨c, hc, -, hu⟩ := mem_sharedTrackers.mp (List.mem_of_find?_eq_some hfind)
    -- one tracker for a page
    have hut : u = t := hwf.eq_of_vaddr (mem_trackers.mpr ⟨c, hc, hu⟩)
      (mem_trackers.mpr ⟨a, ha, ht⟩) (huv.trans hv.symm)
    rw [hut]
    rfl

theorem cell_offset (h : m.cell x = m.cell y) (hy : m.cell y ≠ none) :
    x % pageSize = y % pageSize := by
  obtain ⟨k, hk⟩ := Option.ne_none_iff_exists'.mp hy
  obtain ⟨_, -, -, t, -, -, rfl⟩ := cell_cases hk
  obtain ⟨_, -, -, u, -, -, heq⟩ := cell_cases (h.trans hk)
  exact (Prod.mk.inj heq).2.symm

end MemSet

/-- An area that begins and ends at pages covers all of a page or nothing. -/
theorem MemArea.contains_of_floor {a : MemArea} (halign : a.Aligned) {x : Nat}
    (h : a.contains (floor x) = true) : a.contains x = true := by
  rw [MemArea.contains_iff] at h ⊢
  obtain ⟨hstart, hlen⟩ := halign
  unfold MemArea.stop floor pageSize at *
  omega

theorem MemSet.WF.inShared_of_cell {m : MemSet} (hwf : m.WF) {x : Nat} (h : m.cell x ≠ none) :
    m.InShared x := by
  obtain ⟨k, hk⟩ := Option.ne_none_iff_exists'.mp h
  obtain ⟨a, ha, hshared, t, ht, hv, -⟩ := cell_cases hk
  refine ⟨a, ha, hshared, MemArea.contains_of_floor (hwf.aligned a ha) ?_⟩
  rw [← hv]
  exact hwf.separate.inside a ha t ht

/-- Bytes stored by `p` one after the other. -/
def storedBytes (p : Nat) : (x : Nat) → List UInt8 → List CowEvent
  | _, [] => []
  | x, b :: bs => .stored p x b :: storedBytes p (x + 1) bs

theorem storedBytes_stored {p x : Nat} {bs : List UInt8} :
    ∀ ev ∈ storedBytes p x bs, ∃ y b, ev = .stored p y b := by
  induction bs generalizing x with
  | nil => exact fun ev h => absurd h List.not_mem_nil
  | cons b bs ih =>
    intro ev hev
    rcases List.mem_cons.mp hev with rfl | hev
    · exact ⟨x, b, rfl⟩
    · exact ih ev hev

/-- What an event does to the bytes that are read through shared pages. -/
def cellStep (m : MemSet) (view : Nat → UInt8) : CowEvent → Nat → UInt8
  | .stored _ y b => fun z => if m.cell y ≠ none ∧ m.cell z = m.cell y then b else view z
  | _ => view

section CellStep

variable {m : MemSet} {p x z : Nat} {bs : List UInt8} {view : Nat → UInt8}

theorem foldl_cellStep_of_none (hz : m.cell z = none) (evs : List CowEvent) :
    evs.foldl (cellStep m) view z = view z := by
  induction evs generalizing view with
  | nil => rfl
  | cons ev evs ih =>
    rw [List.foldl_cons, ih]
    cases ev with
    | stored q y b => exact if_neg (fun h => h.1 (h.2.symm.trans hz))
    | faulted q y => rfl
    | forked q child => rfl
    | exited q => rfl

theorem foldl_cellStep_far (h : ∀ i < bs.length, z % pageSize ≠ (x + i) % pageSize) :
    (storedBytes p x bs).foldl (cellStep m) view z = view z := by
  induction bs generalizing x view with
  | nil => rfl
  | cons b bs ih =>
    show (storedBytes p (x + 1) bs).foldl (cellStep m) (cellStep m view (.stored p x b)) z = view z
    rw [ih]
    · exact if_neg (fun hhit => h 0 (Nat.zero_lt_succ _) (MemSet.cell_offset hhit.2 hhit.1))
    intro i hi
    have hstep := h (i + 1) (Nat.succ_lt_succ hi)
    rwa [show x + (i + 1) = x + 1 + i by omega] at hstep

/-- The places of a run of bytes in their pages differ, so each byte is read where it was stored. -/
theorem foldl_cellStep_at (hlen : bs.length ≤ pageSize) {i : Nat} {b : UInt8}
    (hb : bs[i]? = some b) (hcell : m.cell (x + i) ≠ none) :
    (storedBytes p x bs).foldl (cellStep m) view (x + i) = b := by
  induction bs generalizing x view i with
  | nil => cases hb
  | cons c bs ih =>
    rw [List.length_cons] at hlen
    show (storedBytes p (x + 1) bs).foldl (cellStep m) (cellStep m view (.stored p x c)) (x + i) = b
    cases i with
    | zero =>
      cases hb
      rw [foldl_cellStep_far]
      · exact if_pos ⟨hcell, rfl⟩
      intro j hj
      unfold pageSize at *
      omega
    | succ i =>
      rw [show x + (i + 1) = x + 1 + i by omega] at hcell ⊢
      exact ih (by omega) hb hcell

/-- Bytes that are there already change nothing. -/
theorem foldl_cellStep_same
    (hview : ∀ y z, m.cell y ≠ none → m.cell z = m.cell y → view z = view y)
    (hsame : ∀ i b, bs[i]? = some b → m.cell (x + i) ≠ none → view (x + i) = b) :
    (storedBytes p x bs).foldl (cellStep m) view = view := by
  induction bs generalizing x with
  | nil => rfl
  | cons b bs ih =>
    have hstep : cellStep m view (.stored p x b) = view := by
      funext y
      show (if m.cell x ≠ none ∧ m.cell y = m.cell x then b else view y) = view y
      split
      · rename_i hhit
        rw [hview x y hhit.1 hhit.2]
        exact (hsame 0 b rfl hhit.1).symm
      · rfl
    show (storedBytes p (x + 1) bs).foldl (cellStep m) (cellStep m view (.stored p x b)) = view
    rw [hstep]
    refine ih (fun i c hc hcell => ?_)
    rw [show x + 1 + i = x + (i + 1) by omega] at hcell ⊢
    exact hsame (i + 1) c hc hcell

end CellStep

namespace Sys

/-- The areas that are not shared, with or without a file. -/
def NotShared (mtype : MemType) (_ : Option Nat) : Prop := ¬ mtype.IsShared

/-! ## What a forked child reads -/

section Forked

variable {content : Nat → Nat → UInt8} {m : MemSet} {mem mem' : Nat → Nat → UInt8}

/-- The child maps pages of its own trackers only. -/
theorem forked_mapped (hwf : m.WF) {v : Nat} {pte : PTE} (h : (forked m).pt v = some pte) :
    ∃ t ∈ m.trackers, t.vaddr = v ∧ t.tracker = pte.frame := by
  have hagrees : (forked m).pt.AgreesOn (fun _ => True) m :=
    forkPt_agreesOn hwf.nodup (fun _ _ _ => rfl)
  exact (hagrees v trivial pte.frame).mp ⟨pte.flags, h⟩

theorem forked_look_congr (hwf : m.WF)
    (hmem : ∀ t ∈ m.trackers, mem' t.tracker = mem t.tracker) (x : Nat) :
    (forked m).look content mem' x = (forked m).look content mem x := by
  unfold Proc.look
  cases hpte : (forked m).pt (floor x) with
  | none => rfl
  | some pte =>
    obtain ⟨t, ht, -, hframe⟩ := forked_mapped hwf hpte
    show mem' pte.frame _ = mem pte.frame _
    rw [← hframe, hmem t ht]

theorem forked_look_cell (hwf : m.WF) {x f o : Nat} (h : m.cell x = some (f, o)) :
    (forked m).look content mem x = mem f o := by
  obtain ⟨a, ha, -, t, ht, hv, heq⟩ := MemSet.cell_cases h
  cases heq
  have hpte : (forked m).pt (floor x) = some _ := hv ▸ forkPt_of_mem hwf.nodup ha ht .empty
  rw [Proc.look_of_some hpte]

/-- Addresses of one cell read alike. -/
theorem forked_look_cells (hwf : m.WF) (y z : Nat) (hy : m.cell y ≠ none)
    (hz : m.cell z = m.cell y) :
    (forked m).look content mem z = (forked m).look content mem y := by
  obtain ⟨⟨f, o⟩, hk⟩ := Option.ne_none_iff_exists'.mp hy
  rw [forked_look_cell hwf hk, forked_look_cell hwf (hz.trans hk)]

/-- At the fork the child reads what the parent reads. -/
theorem IsolatedOn.forked_look {P : MemType → Option Nat → Prop} {s : Sys} (hinv : s.IsolatedOn P)
    {p : Nat} {proc : Proc} (hp : s.procs[p]? = some proc) {x : Nat}
    (hx : proc.memset.Covers x) :
    (forked proc.memset).look content s.mem x = proc.look content s.mem x := by
  obtain ⟨a, ha, hax⟩ := hx
  have hframe := frame_of_agreesOn (hinv.agrees p proc hp) (hinv.forkPt_agrees hp (Or.inr rfl))
    (hinv.covers_floor hp ha hax)
  change ((forked proc.memset).pt (floor x)).map PTE.frame = _ at hframe
  unfold Proc.look
  cases hpte : proc.pt (floor x) with
  | none =>
    rw [hpte, Option.map_none, Option.map_eq_none_iff] at hframe
    rw [hframe]
    rfl
  | some pte =>
    rw [hpte, Option.map_some, Option.map_eq_some_iff] at hframe
    obtain ⟨pte', hpte', heq⟩ := hframe
    rw [hpte']
    show s.mem pte'.frame _ = s.mem pte.frame _
    rw [heq]

end Forked

end Sys

end MonkeyOS
