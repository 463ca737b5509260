import MonkeyOS.Mem.Fork

/-!
# MonkeyOS — copy-on-write isolation

Whatever the other processes do, the bytes a process reads in its private areas are those it
had at the start, or inherited at its own fork, overwritten by its own stores.

The invariant (`Sys.Inv`) ties three things together: the holders of a frame, the write bits in
every process that maps it, and the bytes of the frames nobody holds. Its core is
`isolated`: a frame that a private page shares with another holder is mapped read-only by
both, and the other is no page of a shared area. So a store hits a frame of a private page only
through that very page. That much does not depend on which areas count as private, as long as no
shared one does: `IsolatedOn P` says it for the areas of one kind.

* `IsolatedOn.update` — one process changes one page, to a frame it alone holds: all a fault does;
* `IsolatedOn.afterFault` — the fault handler as such an update;
* `Inv.fault_read`, `Inv.fault_zero`, `Inv.afterFault` — and what it does to the bytes.

The other steps, and the runs, are in `Mem.CowRun`.
-/

namespace MonkeyOS

open Lib

/-- A private area: neither shared nor backed by a file. -/
def MemArea.Private (a : MemArea) : Prop := ¬ a.mtype.IsShared ∧ a.file = none

instance (a : MemArea) : Decidable a.Private := inferInstanceAs (Decidable (_ ∧ _))

def MemSet.Covers (m : MemSet) (v : Nat) : Prop := ∃ a ∈ m.areas, a.contains v = true

namespace Sys

def ReadOnly (s : Sys) (p v : Nat) : Prop :=
  ∀ proc, s.procs[p]? = some proc → proc.pt.writable v = false

/-- The pages of the areas with `P` share their frames read-only, and with no shared area. -/
structure IsolatedOn (P : MemType → Option Nat → Prop) (s : Sys) : Prop where
  wf : ∀ (p : Nat) (proc : Proc), s.procs[p]? = some proc → proc.memset.WF
  agrees : ∀ (p : Nat) (proc : Proc), s.procs[p]? = some proc →
    proc.pt.AgreesOn proc.memset.Covers proc.memset
  isolated : ∀ p a t q b u, s.Holds p a t → P a.mtype a.file → s.Holds q b u →
    u.tracker = t.tracker → (p, t) ≠ (q, u) →
    ¬ b.mtype.IsShared ∧ s.ReadOnly p t.vaddr ∧ s.ReadOnly q u.vaddr

/-- The kind of the private areas (`MemArea.Private`). -/
def PrivateKind (mtype : MemType) (file : Option Nat) : Prop := ¬ mtype.IsShared ∧ file = none

structure Inv (s : Sys) : Prop extends IsolatedOn PrivateKind s where
  zero : ∀ f, s.strongCount f = 0 → ∀ o, s.mem f o = 0

/-! ## Reading through trackers -/

section Trackers

variable {P : MemType → Option Nat → Prop} {s : Sys} (hinv : s.IsolatedOn P)

include hinv

variable {p x : Nat} {proc : Proc} {a : MemArea}

theorem IsolatedOn.covers_floor (hp : s.procs[p]? = some proc) (ha : a ∈ proc.memset.areas)
    (hx : a.contains x = true) : proc.memset.Covers (floor x) :=
  ⟨a, ha, MemArea.contains_floor ((hinv.wf p proc hp).aligned a ha).1 hx⟩

/-- A mapped page of a covered address has its tracker in the area that covers it. -/
theorem IsolatedOn.holds_of_mapped (hp : s.procs[p]? = some proc) (ha : a ∈ proc.memset.areas)
    (hx : a.contains x = true) {pte : PTE} (hpte : proc.pt (floor x) = some pte) :
    ∃ t, s.Holds p a t ∧ t.vaddr = floor x ∧ t.tracker = pte.frame := by
  have hcov := hinv.covers_floor hp ha hx
  obtain ⟨t, ht, hv, hf⟩ := (hinv.agrees p proc hp _ hcov pte.frame).mp ⟨pte.flags, hpte⟩
  obtain ⟨b, hb, htb⟩ := MemSet.mem_trackers.mp ht
  have hwf := hinv.wf p proc hp
  have hbin := hwf.separate.inside b hb t htb
  rw [hv] at hbin
  have hfloor := MemArea.contains_floor (hwf.aligned a ha).1 hx
  have hba : b = a := hwf.separate.eq_of_contains hb ha hbin hfloor
  exact ⟨t, ⟨proc, hp, ha, hba ▸ htb⟩, hv, hf⟩

theorem IsolatedOn.mapped_of_holds (hp : s.procs[p]? = some proc) (ha : a ∈ proc.memset.areas)
    {t : MapTrack} (ht : t ∈ a.mtrackers) : ∃ flags, proc.pt t.vaddr = some ⟨t.tracker, flags⟩ := by
  have hcov : proc.memset.Covers t.vaddr :=
    ⟨a, ha, (hinv.wf p proc hp).separate.inside a ha t ht⟩
  exact (hinv.agrees p proc hp _ hcov t.tracker).mpr
    ⟨t, MemSet.mem_trackers.mpr ⟨a, ha, ht⟩, rfl, rfl⟩

end Trackers

/-! ## One process changes -/

theorem getElem?_set_procs {procs : List Proc} {p q : Nat} {proc new qroc : Proc}
    (hp : procs[p]? = some proc) (hq : (procs.set p new)[q]? = some qroc) :
    q = p ∧ qroc = new ∨ q ≠ p ∧ procs[q]? = some qroc := by
  by_cases hqp : q = p
  · subst hqp
    obtain ⟨hlt, -⟩ := List.getElem?_eq_some_iff.mp hp
    rw [List.getElem?_set_self hlt] at hq
    cases hq
    exact Or.inl ⟨rfl, rfl⟩
  · rw [List.getElem?_set_ne (Ne.symm hqp)] at hq
    exact Or.inr ⟨hqp, hq⟩

section Update

variable {P : MemType → Option Nat → Prop} {s : Sys} {p : Nat} {proc new : Proc}
  {mem : Nat → Nat → UInt8} {t₀ : MapTrack}
  (hp : s.procs[p]? = some proc)
  (hpt : ∀ v, v ≠ t₀.vaddr → new.pt v = proc.pt v)
  (horigin : ∀ b ∈ new.memset.areas, ∃ c ∈ proc.memset.areas,
    b = { c with mtrackers := b.mtrackers }
      ∧ ∀ u ∈ b.mtrackers, u = t₀ ∨ u.vaddr ≠ t₀.vaddr ∧ u ∈ c.mtrackers)

include hp horigin in
/-- A holder afterwards is the new page, or a holder of before on another page. -/
theorem holds_before {q : Nat} {b : MemArea} {u : MapTrack}
    (h : Holds ⟨s.procs.set p new, mem⟩ q b u) :
    q = p ∧ u = t₀ ∨ (q = p → u.vaddr ≠ t₀.vaddr)
      ∧ ∃ c, s.Holds q c u ∧ c.mtype = b.mtype ∧ c.file = b.file := by
  obtain ⟨qroc, hq, hb, hu⟩ := h
  rcases getElem?_set_procs hp hq with ⟨rfl, rfl⟩ | ⟨hne, hq⟩
  · obtain ⟨c, hc, hbc, hplace⟩ := horigin b hb
    rcases hplace u hu with rfl | ⟨hv, huc⟩
    · exact Or.inl ⟨rfl, rfl⟩
    · exact Or.inr ⟨fun _ => hv, c, ⟨proc, hp, hc, huc⟩, by rw [hbc], by rw [hbc]⟩
  · exact Or.inr ⟨fun heq => absurd heq hne, b, ⟨qroc, hq, hb, hu⟩, rfl, rfl⟩

include hp hpt in
theorem readOnly_after {q v : Nat} (hv : q = p → v ≠ t₀.vaddr) (h : s.ReadOnly q v) :
    ReadOnly ⟨s.procs.set p new, mem⟩ q v := by
  intro qroc hq
  rcases getElem?_set_procs hp hq with ⟨rfl, rfl⟩ | ⟨-, hq⟩
  · have hold := h proc hp
    unfold PageTable.writable at hold ⊢
    rw [hpt v (hv rfl)]
    exact hold
  · exact h qroc hq

include hp hpt horigin in
/-- **One page changes.** The process `p` maps one page anew, to a frame it alone holds. -/
theorem IsolatedOn.update (hinv : s.IsolatedOn P) (hwf : new.memset.WF)
    (hagrees : new.pt.AgreesOn new.memset.Covers new.memset)
    (hsole : ∀ q b u, Holds ⟨s.procs.set p new, mem⟩ q b u → u.tracker = t₀.tracker →
      (q, u) = (p, t₀)) :
    IsolatedOn P ⟨s.procs.set p new, mem⟩ := by
  refine ⟨?_, ?_, ?_⟩
  · intro q qroc hq
    rcases getElem?_set_procs hp hq with ⟨rfl, rfl⟩ | ⟨-, hq⟩
    · exact hwf
    · exact hinv.wf q qroc hq
  · intro q qroc hq
    rcases getElem?_set_procs hp hq with ⟨rfl, rfl⟩ | ⟨-, hq⟩
    · exact hagrees
    · exact hinv.agrees q qroc hq
  · intro q a t q' b u ht hprivate hu hframe hne
    -- the new page shares its frame with nobody, so both holders are old ones
    have hold : t.tracker ≠ t₀.tracker := by
      intro heq
      exact hne ((hsole q a t ht heq).trans (hsole q' b u hu (hframe.trans heq)).symm)
    rcases holds_before hp horigin ht with ⟨-, rfl⟩ | ⟨hqv, c, hc, hmtype, hfile⟩
    · exact absurd rfl hold
    rcases holds_before hp horigin hu with ⟨-, rfl⟩ | ⟨hqv', d, hd, hmtype', -⟩
    · exact absurd hframe.symm hold
    have hkind : P c.mtype c.file := by
      rw [hmtype, hfile]
      exact hprivate
    obtain ⟨hshared, hro, hro'⟩ := hinv.isolated q c t q' d u hc hkind hd hframe hne
    exact ⟨hmtype' ▸ hshared, readOnly_after hp hpt hqv hro, readOnly_after hp hpt hqv' hro'⟩

end Update

/-! ## What each process reads -/

/-- One byte map for each process. -/
def View := Nat → Nat → UInt8

/-- The bytes of every private area are those of the view. -/
def Shows (s : Sys) (view : View) : Prop :=
  ∀ (p : Nat) (proc : Proc), s.procs[p]? = some proc → ∀ a ∈ proc.memset.areas, a.Private →
    ∀ x, a.contains x = true → proc.read s.mem x = view p x

theorem read_congr {proc new : Proc} {mem mem' : Nat → Nat → UInt8} {x : Nat}
    (hpt : new.pt (floor x) = proc.pt (floor x))
    (hmem : ∀ pte, proc.pt (floor x) = some pte → mem' pte.frame = mem pte.frame) :
    new.read mem' x = proc.read mem x := by
  unfold Proc.read
  rw [hpt]
  cases h : proc.pt (floor x) with
  | none => rfl
  | some pte =>
    show mem' pte.frame _ = mem pte.frame _
    rw [hmem pte h]

section Update

variable {s : Sys} {p : Nat} {proc new : Proc} {mem : Nat → Nat → UInt8} {view : View}

/-- What is read does not change while held frames keep their bytes, except where it is said
for the page that changes. -/
theorem Shows.update (h : s.Shows view) (hinv : s.Inv) (hp : s.procs[p]? = some proc)
    {page : Nat} (hpt : ∀ v, v ≠ page → new.pt v = proc.pt v)
    (horigin : ∀ b ∈ new.memset.areas, ∃ c ∈ proc.memset.areas,
      b = { c with mtrackers := b.mtrackers })
    (hmem : ∀ f, 0 < s.strongCount f → mem f = s.mem f)
    (hpage : ∀ c ∈ proc.memset.areas, c.Private → ∀ x, c.contains x = true → floor x = page →
      new.read mem x = proc.read s.mem x) :
    Shows ⟨s.procs.set p new, mem⟩ view := by
  -- frames that are read are held
  have hheld : ∀ (q : Nat) (qroc : Proc), s.procs[q]? = some qroc → ∀ a ∈ qroc.memset.areas,
      ∀ x, a.contains x = true → ∀ pte, qroc.pt (floor x) = some pte →
        mem pte.frame = s.mem pte.frame := by
    intro q qroc hq a ha x hx pte hpte
    obtain ⟨t, ht, -, hf⟩ := hinv.holds_of_mapped hq ha hx hpte
    exact hmem _ (hf ▸ strongCount_pos ht)
  intro q qroc hq b hb hprivate x hx
  rcases getElem?_set_procs hp hq with ⟨rfl, rfl⟩ | ⟨-, hq⟩
  · obtain ⟨c, hc, hbc⟩ := horigin b hb
    have hcx : c.contains x = true := by
      rw [hbc] at hx
      exact hx
    have hcpriv : c.Private := by
      rw [hbc] at hprivate
      exact hprivate
    rw [← h q proc hp c hc hcpriv x hcx]
    by_cases hx : floor x = page
    · exact hpage c hc hcpriv x hcx hx
    · exact read_congr (hpt _ hx) (hheld q proc hp c hc x hcx)
  · rw [← h q qroc hq b hb hprivate x hx]
    exact read_congr rfl (hheld q qroc hq b hb x hx)

end Update

/-! ## A fault -/

section AfterFault

variable {P : MemType → Option Nat → Prop} {s : Sys} {p x : Nat} {proc : Proc} {r : FaultResult}
  {view : View}

variable {pt : PageTable} {env : FaultEnv} {a c : MemArea} {f y : Nat} {post pre : List MemArea}

/-- The bytes of a resident page are where the fault put them. -/
theorem IsolatedOn.fault_read (hinv : s.IsolatedOn P) (hp : s.procs[p]? = some proc)
    (hareas : proc.memset.areas = pre ++ a :: post) (ha : a.contains x = true)
    (h : Faulted pre post a proc.pt env x r) (data : Nat → UInt8) (hpage : floor y = floor x)
    (hresident : proc.pt (floor x) ≠ none) :
    Proc.read ⟨r.memset, r.pt⟩ (r.effect.apply s.mem data) y = proc.read s.mem y := by
  have hmem : a ∈ proc.memset.areas := by
    rw [hareas]
    exact List.mem_append_cons_self
  unfold Proc.read
  rw [hpage]
  cases h with
  | segv => rfl
  | @remapped t ht hvaddr hmtype hcount =>
    obtain ⟨flags, hpt⟩ := hinv.mapped_of_holds hp hmem ht
    rw [hvaddr] at hpt
    rw [hpt]
    simp [PageTable.mapPage, FaultEffect.apply]
  | @copied tpre tpost t dst hsplit hvaddr hmtype hcount hframe =>
    obtain ⟨flags, hpt⟩ := hinv.mapped_of_holds hp hmem (t := t) (by rw [hsplit]; simp)
    rw [hvaddr] at hpt
    rw [hpt]
    simp [PageTable.mapPage, FaultEffect.apply]
  | @filled frame source hnone hframe hsource =>
    obtain ⟨pte, hpte⟩ := Option.ne_none_iff_exists'.mp hresident
    obtain ⟨t, ⟨_, -, -, ht⟩, hv, -⟩ := hinv.holds_of_mapped hp hmem ha hpte
    exact absurd hv (hnone t ht)

/-- The bytes a fault brings to its page are those that were read there before. -/
theorem Inv.fault_read (hinv : s.Inv) (hp : s.procs[p]? = some proc)
    (hareas : proc.memset.areas = pre ++ a :: post) (ha : a.contains x = true)
    (hfresh : ∀ f, env.frame = some f → s.strongCount f = 0)
    (h : Faulted pre post a proc.pt env x r) (data : Nat → UInt8) (hc : c ∈ proc.memset.areas)
    (hprivate : c.Private) (hy : c.contains y = true) (hpage : floor y = floor x) :
    Proc.read ⟨r.memset, r.pt⟩ (r.effect.apply s.mem data) y = proc.read s.mem y := by
  have hwf := hinv.wf p proc hp
  have hmem : a ∈ proc.memset.areas := by
    rw [hareas]
    exact List.mem_append_cons_self
  by_cases hresident : proc.pt (floor x) = none
  · unfold Proc.read
    rw [hpage]
    cases h with
    | segv => rfl
    | @remapped t ht hvaddr hmtype hcount =>
      obtain ⟨flags, hpt⟩ := hinv.mapped_of_holds hp hmem ht
      rw [hvaddr, hresident] at hpt
      cases hpt
    | @copied tpre tpost t dst hsplit hvaddr hmtype hcount hframe =>
      obtain ⟨flags, hpt⟩ := hinv.mapped_of_holds hp hmem (t := t) (by rw [hsplit]; simp)
      rw [hvaddr, hresident] at hpt
      cases hpt
    | @filled frame source hnone hframe hsource =>
      -- the page lies in the private area `a`, so there is no file, and the new frame is zero
      have hca : c = a := by
        refine hwf.separate.eq_of_contains hc hmem
          (MemArea.contains_floor (hwf.aligned c hc).1 hy) ?_
        rw [hpage]
        exact MemArea.contains_floor (hwf.aligned a hmem).1 ha
      rw [hresident, hsource (hca ▸ hprivate.2)]
      simp [PageTable.mapPage, FaultEffect.apply, hinv.zero frame (hfresh frame hframe)]
  · exact hinv.toIsolatedOn.fault_read hp hareas ha h data hpage hresident

/-- Only the frame that was allocated gets new bytes. -/
theorem faultEffect_of_ne (h : Faulted pre post a pt env x r) (data : Nat → UInt8)
    (hf : env.frame ≠ some f) : r.effect.apply s.mem data f = s.mem f := by
  cases h with
  | segv => rfl
  | remapped ht hvaddr hmtype hcount => rfl
  | @copied tpre tpost t dst hsplit hvaddr hmtype hcount hframe =>
    funext o
    exact if_neg (fun heq : f = dst => hf (by rw [hframe, heq]))
  | @filled frame source hnone hframe hsource =>
    cases source with
    | none => rfl
    | some src =>
      funext o
      exact if_neg (fun heq : f = frame => hf (by rw [hframe, heq]))

/-- A frame nobody holds after a fault was held by nobody before, and has its old bytes. -/
theorem Inv.fault_zero (hinv : s.Inv) (hp : s.procs[p]? = some proc)
    (hareas : proc.memset.areas = pre ++ a :: post) (hcount : env.strongCount = s.strongCount)
    (h : Faulted pre post a proc.pt env x r) (data : Nat → UInt8)
    (hf : (s.afterFault p r data).strongCount f = 0) (o : Nat) :
    (s.afterFault p r data).mem f o = 0 := by
  have hset := strongCount_set hp ⟨r.memset, r.pt⟩ (r.effect.apply s.mem data) f
  have hf' : strongCount ⟨s.procs.set p ⟨r.memset, r.pt⟩, r.effect.apply s.mem data⟩ f = 0 := hf
  have htrackers : proc.memset.trackers
      = MemSet.trackers ⟨pre⟩ ++ (a.mtrackers ++ MemSet.trackers ⟨post⟩) := by
    rw [← MemSet.trackers_split, ← hareas]
  rw [hf', htrackers] at hset
  show r.effect.apply s.mem data f o = 0
  cases h with
  | segv =>
    rw [MemSet.trackers_split] at hset
    exact hinv.zero f (by omega) o
  | remapped ht hvaddr hmtype hone =>
    rw [MemSet.trackers_split] at hset
    exact hinv.zero f (by omega) o
  | @copied tpre tpost t dst hsplit hvaddr hmtype htwo hframe =>
    -- the frame that was copied keeps a holder, the copy has one now
    rw [hcount] at htwo
    rw [MemSet.trackers_split, hsplit] at hset
    simp only [List.countP_append, List.countP_cons] at hset
    have hsrc : t.tracker ≠ f := by
      rintro rfl
      simp only [beq_self_eq_true, if_true] at hset
      omega
    have hdst : f ≠ dst := by
      rintro rfl
      simp only [beq_self_eq_true, if_true, beq_iff_eq, hsrc, if_false] at hset
      omega
    have hold : s.strongCount f = 0 := by
      simp only [beq_iff_eq, hsrc, Ne.symm hdst, if_false] at hset
      omega
    show (if f = dst then s.mem t.tracker o else s.mem f o) = 0
    rw [if_neg hdst]
    exact hinv.zero f hold o
  | @filled frame source hnone hframe hsource =>
    rw [MemSet.trackers_split] at hset
    simp only [List.countP_append, List.countP_cons, List.countP_nil] at hset
    have hne : f ≠ frame := by
      rintro rfl
      simp only [beq_self_eq_true, if_true] at hset
      omega
    have hold : s.strongCount f = 0 := by omega
    cases source with
    | none => exact hinv.zero f hold o
    | some src =>
      show (if f = frame then data o else s.mem f o) = 0
      rw [if_neg hne]
      exact hinv.zero f hold o

/-- The page of the fault is held by nobody else: it was counted, or its frame is new. -/
theorem fault_sole (hp : s.procs[p]? = some proc) (hareas : proc.memset.areas = pre ++ a :: post)
    (hcount : env.strongCount = s.strongCount)
    (hfresh : ∀ f, env.frame = some f → s.strongCount f = 0)
    (h : Faulted pre post a proc.pt env x r) (heffect : r.effect ≠ .segv) {pte : PTE}
    (hpte : r.pt (floor x) = some pte) {q : Nat} {u : MapTrack} (hu : s.Holds q c u)
    (hframe : u.tracker = pte.frame) : q = p ∧ u.vaddr = floor x := by
  have hnew : ∀ f, env.frame = some f → pte.frame ≠ f := by
    intro f hf heq
    have hpos := strongCount_pos hu
    rw [hframe, heq, hfresh f hf] at hpos
    cases hpos
  cases h with
  | segv => exact absurd rfl heffect
  | @remapped t ht hvaddr hmtype hone =>
    simp only [PageTable.mapPage, if_true] at hpte
    cases hpte
    have hholds : s.Holds p a t :=
      ⟨proc, hp, by rw [hareas]; exact List.mem_append_cons_self, ht⟩
    obtain ⟨rfl, rfl⟩ := holder_unique hholds hu hframe (hcount ▸ hone)
    exact ⟨rfl, hvaddr⟩
  | @copied tpre tpost t dst hsplit hvaddr hmtype htwo hframe' =>
    simp only [PageTable.mapPage, if_true] at hpte
    cases hpte
    exact absurd rfl (hnew dst hframe')
  | @filled frame source hnone hframe' hsource =>
    simp only [PageTable.mapPage, if_true] at hpte
    cases hpte
    exact absurd rfl (hnew frame hframe')

theorem afterFault_segv (hp : s.procs[p]? = some proc) (data : Nat → UInt8) :
    s.afterFault p ⟨proc.memset, proc.pt, .segv⟩ data = s := by
  show Sys.mk (s.procs.set p proc) s.mem = s
  obtain ⟨hlt, hget⟩ := List.getElem?_eq_some_iff.mp hp
  rw [← hget, List.set_getElem_self]

/-- A fault that is not refused gives the page one frame, and leaves the rest of the areas and of
the page table alone. -/
theorem IsolatedOn.fault_origin (hinv : s.IsolatedOn P) (hp : s.procs[p]? = some proc)
    (hareas : proc.memset.areas = pre ++ a :: post) (ha : a.contains x = true)
    (h : Faulted pre post a proc.pt env x r) (heffect : r.effect ≠ .segv) :
    ∃ t₀ : MapTrack, t₀.vaddr = floor x ∧ r.pt (floor x) = some ⟨t₀.tracker, a.faultFlags x⟩
      ∧ (∀ v, v ≠ t₀.vaddr → r.pt v = proc.pt v)
      ∧ ∀ b ∈ r.memset.areas, ∃ c ∈ proc.memset.areas, b = { c with mtrackers := b.mtrackers }
        ∧ ∀ u ∈ b.mtrackers, u = t₀ ∨ u.vaddr ≠ t₀.vaddr ∧ u ∈ c.mtrackers := by
  have hwf : MemSet.WF ⟨pre ++ a :: post⟩ := hareas ▸ hinv.wf p proc hp
  obtain ⟨t₀, -, hvaddr, hrpt, horigin⟩ := h.origin hwf ha heffect
  rw [← hareas, ← hvaddr] at horigin
  refine ⟨t₀, hvaddr, ?_, ?_, horigin⟩
  · rw [hrpt]
    exact if_pos rfl
  intro v hv
  rw [hrpt, ← hvaddr]
  exact if_neg hv

theorem fault_segv (hareas : proc.memset.areas = pre ++ a :: post)
    (h : Faulted pre post a proc.pt env x r)
    (heffect : r.effect = .segv) : r = ⟨proc.memset, proc.pt, .segv⟩ := by
  cases h with
  | segv => rw [← hareas]
  | remapped => cases heffect
  | copied => cases heffect
  | filled => cases heffect

theorem IsolatedOn.afterFault (hinv : s.IsolatedOn P) (hp : s.procs[p]? = some proc)
    (hcount : env.strongCount = s.strongCount)
    (hfresh : ∀ f, env.frame = some f → s.strongCount f = 0)
    (h : userCowInt proc.memset proc.pt env x = some r) (data : Nat → UInt8) :
    (s.afterFault p r data).IsolatedOn P := by
  obtain ⟨pre, a, post, hareas, ha, hfaulted⟩ := userCowInt_faulted h
  have hm : proc.memset = ⟨pre ++ a :: post⟩ := by rw [← hareas]
  have hwf := hinv.wf p proc hp
  have hagrees := hinv.agrees p proc hp
  by_cases heffect : r.effect = .segv
  · rw [fault_segv hareas hfaulted heffect, afterFault_segv hp]
    exact hinv
  obtain ⟨t₀, hvaddr, hpte, hpt, horigin⟩ := hinv.fault_origin hp hareas ha hfaulted heffect
  rw [hm] at hwf
  refine IsolatedOn.update hp hpt horigin hinv (hfaulted.wf hwf ha) ?_ ?_
  · -- the areas cover what they covered
    have hall := hfaulted.agreesOn hwf ha (hm ▸ hagrees)
    intro v ⟨b, hb, hbv⟩
    obtain ⟨c, hc, hbc, -⟩ := horigin b hb
    rw [hbc] at hbv
    exact hall v ⟨c, hareas ▸ hc, hbv⟩
  · intro q b u hu hframe
    rcases holds_before hp horigin hu with ⟨rfl, rfl⟩ | ⟨hqv, c, hc, -, -⟩
    · rfl
    · obtain ⟨hqp, huv⟩ :=
        fault_sole hp hareas hcount hfresh hfaulted heffect hpte hc hframe
      exact absurd (huv.trans hvaddr.symm) (hqv hqp)

/-- A frame that is held keeps its bytes through a fault. -/
theorem fault_mem_of_held (hfresh : ∀ f, env.frame = some f → s.strongCount f = 0)
    (h : Faulted pre post a pt env x r) (data : Nat → UInt8) (hf : 0 < s.strongCount f) :
    r.effect.apply s.mem data f = s.mem f := by
  refine faultEffect_of_ne h data (fun hframe => ?_)
  rw [hfresh f hframe] at hf
  cases hf

theorem Inv.afterFault (hinv : s.Inv) (hshows : s.Shows view) (hp : s.procs[p]? = some proc)
    (hcount : env.strongCount = s.strongCount)
    (hfresh : ∀ f, env.frame = some f → s.strongCount f = 0)
    (h : userCowInt proc.memset proc.pt env x = some r) (data : Nat → UInt8) :
    (s.afterFault p r data).Inv ∧ (s.afterFault p r data).Shows view := by
  obtain ⟨pre, a, post, hareas, ha, hfaulted⟩ := userCowInt_faulted h
  refine ⟨⟨hinv.toIsolatedOn.afterFault hp hcount hfresh h data,
    fun f hf o => hinv.fault_zero hp hareas hcount hfaulted data hf o⟩, ?_⟩
  by_cases heffect : r.effect = .segv
  · rw [fault_segv hareas hfaulted heffect, afterFault_segv hp]
    exact hshows
  obtain ⟨t₀, hvaddr, -, hpt, horigin⟩ := hinv.fault_origin hp hareas ha hfaulted heffect
  rw [hvaddr] at hpt
  refine hshows.update hinv hp hpt ?_ ?_ ?_
  · intro b hb
    obtain ⟨c, hc, hbc, -⟩ := horigin b hb
    exact ⟨c, hc, hbc⟩
  · intro f hf
    exact fault_mem_of_held hfresh hfaulted data hf
  · intro c hc hprivate y hy hpage
    exact hinv.fault_read hp hareas ha hfresh hfaulted data hc hprivate hy hpage

end AfterFault

end Sys

end MonkeyOS
