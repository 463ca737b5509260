import MonkeyOS.Mem.Overlap
import MonkeyOS.Mem.SharedCell

/-!
# MonkeyOS — parent and child after a fork

A process that has been forked and does not run yet: what the stores of its parent and the steps of
the other processes change for it.

* `IsolatedOn.store_hits` — a store reaches a frame of another process through a shared page only;
* `Spares`, `spares_run` — so steps that store nothing to shared areas are not seen at all;
* `Twins` — parent and child: the parent keeps the shared pages they have in common mapped
  writable, and what it maps anew is its own;
* `Twins.stored`, `Twins.stores` — the child sees the stores of the parent as `cellStep` says;
* `Twins.finds_stores` — the parent finds what it stored.
-/

namespace MonkeyOS

open Lib

namespace Sys

/-! ## Stores of other processes -/

section Stored

variable {P : MemType → Option Nat → Prop} {s t : Sys} {p y : Nat} {b : UInt8}

theorem stored_cases (h : CowStep s (.stored p y b) t) :
    s.Covered p y ∧ ∃ env : StoreEnv, (∀ f, env.frame = some f → s.strongCount f = 0)
      ∧ (s.access p y b = some t
        ∨ s.access p y b = none ∧ ∃ proc r, s.procs[p]? = some proc
          ∧ userCowInt proc.memset proc.pt ⟨s.strongCount, env.freePages, env.frame⟩ y = some r
          ∧ (s.afterFault p r env.data).access p y b = some t) := by
  cases h with
  | @store _ env p' y' b' _ hcov hfresh h =>
    rcases store_cases h with ⟨haccess, heq⟩ | ⟨hmiss, proc, r, hp, hr, hretry⟩
    · cases heq
      exact ⟨hcov, env, hfresh, Or.inl haccess⟩
    · rcases hretry with ⟨haccess, heq⟩ | ⟨-, heq⟩
      · cases heq
        exact ⟨hcov, env, hfresh, Or.inr ⟨hmiss, proc, r, hp, hr, haccess⟩⟩
      · cases heq

theorem faulted_cases (h : CowStep s (.faulted p y) t) :
    ∃ (env : StoreEnv) (proc : Proc) (r : FaultResult), s.procs[p]? = some proc
      ∧ (∀ f, env.frame = some f → s.strongCount f = 0)
      ∧ userCowInt proc.memset proc.pt ⟨s.strongCount, env.freePages, env.frame⟩ y = some r
      ∧ t = s.afterFault p r env.data := by
  cases h with
  | @store _ env p' y' b' _ hcov hfresh h =>
    rcases store_cases h with ⟨-, heq⟩ | ⟨-, proc, r, hp, hr, ⟨-, heq⟩ | ⟨rfl, heq⟩⟩
    · cases heq
    · cases heq
    · cases heq
      exact ⟨env, proc, r, hp, hfresh, hr, rfl⟩

variable {q c : Nat} {r : FaultResult} {env : FaultEnv} {a : MemArea} {proc : Proc}
  {data : Nat → UInt8} {u : MapTrack}

theorem forked_cases (h : CowStep s (.forked p c) t) :
    s.fork p = some t ∧ c = s.procs.length := by
  cases h with
  | fork h => exact ⟨h, rfl⟩
  | store hcov hfresh h =>
    rcases store_cases h with ⟨-, heq⟩ | ⟨-, _, _, -, -, ⟨-, heq⟩ | ⟨-, heq⟩⟩ <;> cases heq

theorem exited_cases (h : CowStep s (.exited p) t) : s.exit p = some t := by
  cases h with
  | exit h => exact h
  | store hcov hfresh h =>
    rcases store_cases h with ⟨-, heq⟩ | ⟨-, _, _, -, -, ⟨-, heq⟩ | ⟨-, heq⟩⟩ <;> cases heq

/-- A fault after which the access goes through was not refused. -/
theorem fault_ne_segv {pre post : List MemArea} (hp : s.procs[p]? = some proc)
    (hareas : proc.memset.areas = pre ++ a :: post) (h : Faulted pre post a proc.pt env y r)
    (hmiss : s.access p y b = none) (haccess : (s.afterFault p r data).access p y b = some t) :
    r.effect ≠ .segv := by
  intro heffect
  rw [fault_segv hareas h heffect, afterFault_segv hp, hmiss] at haccess
  cases haccess

/-- The frame that is written after a fault is held by the process of the fault alone. -/
theorem fault_write_mem (hp : s.procs[p]? = some proc) (hcount : env.strongCount = s.strongCount)
    (hfresh : ∀ f, env.frame = some f → s.strongCount f = 0)
    (h : userCowInt proc.memset proc.pt env y = some r) (hmiss : s.access p y b = none)
    (haccess : (s.afterFault p r data).access p y b = some t) {c : MemArea} (hu : s.Holds q c u)
    (hq : q ≠ p) : t.mem u.tracker = s.mem u.tracker := by
  obtain ⟨pre, a, post, hareas, -, hfaulted⟩ := userCowInt_faulted h
  have heffect := fault_ne_segv hp hareas hfaulted hmiss haccess
  obtain ⟨new, pte, hnew, hpte, -, rfl⟩ := access_cases haccess
  obtain ⟨hlt, -⟩ := List.getElem?_eq_some_iff.mp hp
  have hnew' : some new = some ⟨r.memset, r.pt⟩ := hnew.symm.trans (List.getElem?_set_self hlt)
  cases hnew'
  have hne : u.tracker ≠ pte.frame := fun heq =>
    hq (fault_sole hp hareas hcount hfresh hfaulted heffect hpte hu heq).1
  funext o
  show (if u.tracker = pte.frame ∧ o = y % pageSize then b
    else r.effect.apply s.mem data u.tracker o) = s.mem u.tracker o
  rw [if_neg (fun hhit => hne hhit.1), fault_mem_of_held hfresh hfaulted data (strongCount_pos hu)]

/-- **A store reaches a frame of another process through a shared page only.** -/
theorem IsolatedOn.store_hits (hinv : s.IsolatedOn NotShared) (h : CowStep s (.stored p y b) t)
    (hu : s.Holds c a u) (hc : c ≠ p) :
    t.mem u.tracker = s.mem u.tracker
      ∨ ∃ d w, s.Holds p d w ∧ d.mtype.IsShared ∧ d.contains y = true ∧ w.vaddr = floor y
        ∧ w.tracker = u.tracker := by
  obtain ⟨⟨proc, hp, d, hd, hy⟩, env, hfresh, haccess | ⟨hmiss, proc', r, hp', hr, haccess⟩⟩ :=
    stored_cases h
  · obtain ⟨proc', pte, hp', hpte, hw, rfl⟩ := access_cases haccess
    cases Option.some.inj (hp.symm.trans hp')
    by_cases hframe : u.tracker = pte.frame
    · obtain ⟨w, hheld, hv, hwf⟩ := hinv.holds_of_mapped hp hd hy hpte
      refine Or.inr ⟨d, w, hheld, ?_, hy, hv, hwf.trans hframe.symm⟩
      -- a page that is not shared would be read-only
      by_contra hshared
      obtain ⟨-, hro, -⟩ := hinv.isolated p d w c a u hheld hshared hu (hframe.trans hwf.symm)
        (fun heq => hc (Prod.mk.inj heq).1.symm)
      have hro := hro proc hp
      rw [hv, PageTable.writable_of_some hpte, hw] at hro
      cases hro
    · refine Or.inl (funext fun o => ?_)
      exact if_neg (fun hhit => hframe hhit.1)
  · exact Or.inl (fault_write_mem hp' rfl hfresh hr hmiss haccess hu hc)

/-- A frame of a shared area is one of shared areas only. -/
theorem IsolatedOn.shared_of_frame (hinv : s.IsolatedOn NotShared) {d : MemArea} {w : MapTrack}
    (hu : s.Holds p a u) (hshared : a.mtype.IsShared) (hw : s.Holds q d w)
    (hframe : u.tracker = w.tracker) : d.mtype.IsShared := by
  by_contra hd
  by_cases heq : (q, w) = (p, u)
  · cases heq
    obtain ⟨proc, hp, ha, hua⟩ := hu
    obtain ⟨proc', hp', hd', hud⟩ := hw
    cases Option.some.inj (hp.symm.trans hp')
    have hsep := (hinv.wf p proc hp).separate
    have hda := hsep.eq_of_contains hd' ha (hsep.inside d hd' u hud) (hsep.inside a ha u hua)
    exact hd (hda ▸ hshared)
  · exact (hinv.isolated q d w p a u hw hd hu hframe heq).1 hshared

end Stored

/-! ## The other processes -/

end Sys

/-- The process that takes the step. -/
def CowEvent.actor : CowEvent → Nat
  | .stored p _ _ => p
  | .faulted p _ => p
  | .forked p _ => p
  | .exited p => p

namespace Sys

/-- The step is not one of `c`, and no store to a shared area. -/
structure Spares (s : Sys) (c : Nat) (ev : CowEvent) : Prop where
  actor : ev.actor ≠ c
  store : ∀ p y b, ev = .stored p y b → ∀ proc, s.procs[p]? = some proc → ¬ proc.memset.InShared y

/-- A step that `c` does not see. -/
def SparingStep (c : Nat) (s : Sys) (ev : CowEvent) (t : Sys) : Prop :=
  CowStep s ev t ∧ s.Spares c ev

section Spares

variable {s t : Sys} {c : Nat} {child : Proc} {ev : CowEvent}

theorem step_getElem? (h : CowStep s ev t) (hne : ev.actor ≠ c) (hc : s.procs[c]? = some child) :
    t.procs[c]? = some child := by
  have hset : ∀ (p : Nat) (new : Proc), p ≠ c → (s.procs.set p new)[c]? = some child := by
    intro p new hp
    rw [List.getElem?_set_ne hp]
    exact hc
  cases ev with
  | stored p y b =>
    obtain ⟨-, env, -, haccess | ⟨-, proc, r, -, -, haccess⟩⟩ := stored_cases h
    · obtain ⟨_, _, -, -, -, rfl⟩ := access_cases haccess
      exact hc
    · obtain ⟨_, _, -, -, -, rfl⟩ := access_cases haccess
      exact hset p _ hne
  | faulted p y =>
    obtain ⟨env, proc, r, -, -, -, rfl⟩ := faulted_cases h
    exact hset p _ hne
  | forked p new =>
    obtain ⟨proc, -, rfl⟩ := Option.map_eq_some_iff.mp (forked_cases h).1
    obtain ⟨hlt, -⟩ := List.getElem?_eq_some_iff.mp hc
    show (s.procs.set p proc.cowFork.1 ++ [proc.cowFork.2])[c]? = some child
    rw [List.getElem?_append_left (by rw [List.length_set]; exact hlt)]
    exact hset p _ hne
  | exited p =>
    obtain ⟨proc, -, rfl⟩ := Option.map_eq_some_iff.mp (exited_cases h)
    exact hset p _ hne

theorem IsolatedOn.spares_step (hinv : s.IsolatedOn NotShared) (hc : s.procs[c]? = some child)
    (h : CowStep s ev t) (hspares : s.Spares c ev) :
    ∀ u ∈ child.memset.trackers, t.mem u.tracker = s.mem u.tracker := by
  intro u hu
  obtain ⟨a, ha, hua⟩ := MemSet.mem_trackers.mp hu
  have hheld : s.Holds c a u := ⟨child, hc, ha, hua⟩
  have hafter := step_getElem? h hspares.actor hc
  cases ev with
  | stored p y b =>
    rcases hinv.store_hits h hheld hspares.actor.symm with hkeep | ⟨d, w, ⟨proc, hp, hd, -⟩, hits⟩
    · exact hkeep
    · exact absurd ⟨d, hd, hits.1, hits.2.1⟩ (hspares.store p y b rfl proc hp)
  | faulted p y =>
    obtain ⟨env, proc, r, -, hfresh, hr, rfl⟩ := faulted_cases h
    obtain ⟨_, _, _, -, -, hfaulted⟩ := userCowInt_faulted hr
    exact fault_mem_of_held hfresh hfaulted env.data (strongCount_pos hheld)
  | forked p new =>
    obtain ⟨proc, -, rfl⟩ := Option.map_eq_some_iff.mp (forked_cases h).1
    rfl
  | exited p => exact exit_mem_of_held (exited_cases h) ⟨child, hafter, ha, hua⟩

/-- **What the child does not see.** -/
theorem spares_run {evs : List CowEvent} (hinv : s.IsolatedOn NotShared)
    (hc : s.procs[c]? = some child) (hrun : Run (SparingStep c) s evs t) :
    t.procs[c]? = some child ∧ ∀ u ∈ child.memset.trackers, t.mem u.tracker = s.mem u.tracker := by
  have hend := hrun.invariant (I := fun v => v.IsolatedOn NotShared ∧ v.procs[c]? = some child
      ∧ ∀ u ∈ child.memset.trackers, v.mem u.tracker = s.mem u.tracker) ?_ ⟨hinv, hc, fun _ _ => rfl⟩
  · exact hend.2
  intro v ev w ⟨hv, hvc, hmem⟩ ⟨hstep, hspares⟩
  refine ⟨hv.step (fun _ _ h => h) hstep, step_getElem? hstep hspares.actor hvc, fun u hu => ?_⟩
  rw [hv.spares_step hvc hstep hspares u hu, hmem u hu]

end Spares

/-! ## Parent and child

`m` are the areas at the fork, which the child keeps as they are. -/

/-- The parent has the areas of `m`, with the shared pages of `m` mapped writable; the frames it got
later are none of `m`. -/
structure Twin (m : MemSet) (proc : Proc) : Prop where
  strip : proc.memset.strip = m.strip
  own : ∀ b ∈ proc.memset.areas, b.mtype.IsShared → ∀ t ∈ b.mtrackers,
    t ∈ m.trackers ∨ ∀ u ∈ m.trackers, u.tracker ≠ t.tracker
  mapped : ∀ a ∈ m.areas, a.mtype.IsShared → ∀ t ∈ a.mtrackers,
    proc.pt t.vaddr = some ⟨t.tracker, urwx⟩

structure Twins (m : MemSet) (p c : Nat) (s : Sys) : Prop where
  isolated : s.IsolatedOn NotShared
  ne : p ≠ c
  child : s.procs[c]? = some (forked m)
  parent : ∃ proc, s.procs[p]? = some proc ∧ Twin m proc

section Twin

variable {m : MemSet} {proc : Proc}

variable {r : FaultResult} {env : FaultEnv} {m' : MemSet} {a : MemArea} {post pre : List MemArea}
  {x : Nat}

theorem strip_area (h : m'.strip = m.strip) {b : MemArea} (hb : b ∈ m'.areas) :
    ∃ a ∈ m.areas, a.mtype = b.mtype ∧ ∀ v, a.contains v = b.contains v := by
  have hmem : b.strip ∈ m.areas.map MemArea.strip := by
    rw [show m.areas.map MemArea.strip = m'.areas.map MemArea.strip from
      congrArg MemSet.areas h.symm]
    exact List.mem_map_of_mem hb
  obtain ⟨a, ha, heq⟩ := List.mem_map.mp hmem
  refine ⟨a, ha, ?_, fun v => ?_⟩
  · show a.strip.mtype = b.strip.mtype
    rw [heq]
  · show a.strip.contains v = b.strip.contains v
    rw [heq]

theorem strip_covers (h : m'.strip = m.strip) (hx : m'.Covers x) :
    m.Covers x := by
  obtain ⟨b, hb, hbx⟩ := hx
  obtain ⟨a, ha, -, hcontains⟩ := strip_area h hb
  exact ⟨a, ha, (hcontains x).trans hbx⟩

theorem strip_faulted {pt : PageTable} (h : Faulted pre post a pt env x r) :
    r.memset.strip = MemSet.strip ⟨pre ++ a :: post⟩ := by
  cases h <;> simp [MemSet.strip, MemArea.strip]

/-- A fault on a page that is no shared page of `m`. -/
theorem Twin.fault {s : Sys} {p c y : Nat} (h : Twin m proc) (hinv : s.IsolatedOn NotShared)
    (hp : s.procs[p]? = some proc) (hc : s.procs[c]? = some (forked m)) (hne : p ≠ c)
    (hareas : proc.memset.areas = pre ++ a :: post) (ha : a.contains y = true)
    (hcount : env.strongCount = s.strongCount)
    (hfresh : ∀ f, env.frame = some f → s.strongCount f = 0)
    (hfaulted : Faulted pre post a proc.pt env y r) (heffect : r.effect ≠ .segv)
    (hcell : ∀ d ∈ m.areas, d.mtype.IsShared → ∀ t ∈ d.mtrackers, t.vaddr ≠ floor y) :
    Twin m ⟨r.memset, r.pt⟩ := by
  obtain ⟨t₀, hvaddr, hpte, hpt, horigin⟩ := hinv.fault_origin hp hareas ha hfaulted heffect
  refine ⟨?_, ?_, ?_⟩
  · show r.memset.strip = m.strip
    rw [strip_faulted hfaulted, ← hareas]
    exact h.strip
  · intro b hb hshared t ht
    obtain ⟨d, hd, hbd, hplace⟩ := horigin b hb
    rcases hplace t ht with rfl | ⟨-, htd⟩
    · -- the frame of the fault has no other holder
      refine Or.inr (fun u hu heq => ?_)
      obtain ⟨e, he, hue⟩ := MemSet.mem_trackers.mp hu
      exact hne (fault_sole hp hareas hcount hfresh hfaulted heffect hpte
        ⟨forked m, hc, he, hue⟩ heq).1.symm
    · rw [hbd] at hshared
      exact h.own d hd hshared t htd
  · intro d hd hshared t ht
    show r.pt t.vaddr = _
    rw [hpt t.vaddr (by rw [hvaddr]; exact hcell d hd hshared t ht)]
    exact h.mapped d hd hshared t ht

end Twin

namespace Twins

variable {content : Nat → Nat → UInt8} {m : MemSet} {p c y : Nat} {b : UInt8} {s t : Sys}

theorem wf (h : Twins m p c s) : m.WF := h.isolated.wf c _ h.child

theorem covers_iff (h : Twins m p c s) (x : Nat) : s.Covered p x ↔ m.Covers x := by
  obtain ⟨proc, hp, htwin⟩ := h.parent
  constructor
  · rintro ⟨proc', hp', hx⟩
    cases Option.some.inj (hp.symm.trans hp')
    exact strip_covers htwin.strip hx
  · intro hx
    exact ⟨proc, hp, strip_covers htwin.strip.symm hx⟩

/-- A shared page is written at once. -/
theorem access_of_cell (h : Twins m p c s) {f o : Nat} (hcell : m.cell y = some (f, o)) :
    s.access p y b = some (s.write f y b) := by
  obtain ⟨proc, hp, htwin⟩ := h.parent
  obtain ⟨a, ha, hshared, u, hu, hv, heq⟩ := MemSet.cell_cases hcell
  cases heq
  have hpte := htwin.mapped a ha hshared u hu
  rw [hv] at hpte
  unfold Sys.access
  simp only [hp, hpte]
  rfl

/-- A store anywhere else leaves the frames of the child alone. -/
theorem mem_of_not_cell (h : Twins m p c s) (hstep : CowStep s (.stored p y b) t)
    (hcell : m.cell y = none) : ∀ u ∈ m.trackers, t.mem u.tracker = s.mem u.tracker := by
  intro u hu
  obtain ⟨a, ha, hua⟩ := MemSet.mem_trackers.mp hu
  have hheld : s.Holds c a u := ⟨forked m, h.child, ha, hua⟩
  obtain ⟨proc, hp, htwin⟩ := h.parent
  rcases h.isolated.store_hits hstep hheld h.ne.symm with
    hkeep | ⟨d, w, ⟨proc', hp', hd, hwd⟩, hshared, hy, hv, hframe⟩
  · exact hkeep
  · cases Option.some.inj (hp.symm.trans hp')
    rcases htwin.own d hd hshared w hwd with hw | hw
    · -- a page of `m`, in the area that `d` was at the fork
      obtain ⟨e, he, hwe⟩ := MemSet.mem_trackers.mp hw
      obtain ⟨d', hd', hmtype, hcontains⟩ := strip_area htwin.strip hd
      have halign := ((h.isolated.wf p proc hp).aligned d hd).1
      have hdy : d'.contains w.vaddr = true := by
        rw [hcontains, hv]
        exact MemArea.contains_floor halign hy
      have hed := h.wf.separate.eq_of_contains he hd' (h.wf.separate.inside e he w hwe) hdy
      rw [MemSet.cell_of_mem h.wf he (hed ▸ hmtype ▸ hshared) hwe hv] at hcell
      cases hcell
    · exact absurd hframe.symm (hw u hu)

theorem parent_stored (h : Twins m p c s) (hstep : CowStep s (.stored p y b) t) :
    ∃ proc, t.procs[p]? = some proc ∧ Twin m proc := by
  obtain ⟨proc, hp, htwin⟩ := h.parent
  obtain ⟨-, env, hfresh, haccess | ⟨hmiss, proc', r, hp', hr, haccess⟩⟩ := stored_cases hstep
  · obtain ⟨_, _, -, -, -, rfl⟩ := access_cases haccess
    exact ⟨proc, hp, htwin⟩
  · cases Option.some.inj (hp.symm.trans hp')
    obtain ⟨pre, a, post, hareas, ha, hfaulted⟩ := userCowInt_faulted hr
    have heffect := fault_ne_segv hp hareas hfaulted hmiss haccess
    obtain ⟨_, _, -, -, -, rfl⟩ := access_cases haccess
    obtain ⟨hlt, -⟩ := List.getElem?_eq_some_iff.mp hp
    refine ⟨⟨r.memset, r.pt⟩, List.getElem?_set_self hlt, ?_⟩
    refine htwin.fault h.isolated hp h.child h.ne hareas ha rfl hfresh hfaulted heffect ?_
    -- there is no fault on a shared page
    intro d hd hshared u hu hv
    rw [h.access_of_cell (MemSet.cell_of_mem h.wf hd hshared hu hv)] at hmiss
    cases hmiss

theorem step (h : Twins m p c s) (hstep : CowStep s (.stored p y b) t) : Twins m p c t where
  isolated := h.isolated.step (fun _ _ h => h) hstep
  ne := h.ne
  child := step_getElem? hstep h.ne h.child
  parent := h.parent_stored hstep

/-- What the child reads when a shared page of `m` is written. -/
theorem look_write (h : Twins m p c s) {f o : Nat} (hcell : m.cell y = some (f, o)) (z : Nat) :
    (forked m).look content (s.write f y b).mem z
      = if m.cell z = some (f, o) then b else (forked m).look content s.mem z := by
  obtain ⟨a, ha, hshared, u, hu, -, heq⟩ := MemSet.cell_cases hcell
  cases heq
  split
  · rename_i hz
    rw [forked_look_cell h.wf hz]
    exact if_pos ⟨rfl, rfl⟩
  · rename_i hz
    unfold Proc.look
    cases hpte : (forked m).pt (floor z) with
    | none => rfl
    | some pte =>
      refine if_neg (fun hhit => hz ?_)
      -- the frame is that of the shared page, so the page of `z` is shared too
      obtain ⟨w, hw, hwv, hwf⟩ := forked_mapped h.wf hpte
      obtain ⟨d, hd, hwd⟩ := MemSet.mem_trackers.mp hw
      have hframe : u.tracker = w.tracker := hhit.1.symm.trans hwf.symm
      have hdshared := h.isolated.shared_of_frame ⟨_, h.child, ha, hu⟩ hshared
        ⟨_, h.child, hd, hwd⟩ hframe
      rw [MemSet.cell_of_mem h.wf hd hdshared hwd hwv, hframe, hhit.2]

/-- **The step lemma.** The child sees a store of the parent through the cells only. -/
theorem stored (h : Twins m p c s) (hstep : CowStep s (.stored p y b) t) :
    Twins m p c t ∧ (forked m).look content t.mem
      = cellStep m ((forked m).look content s.mem) (.stored p y b) := by
  refine ⟨h.step hstep, funext fun z => ?_⟩
  show _ = if m.cell y ≠ none ∧ m.cell z = m.cell y then b else (forked m).look content s.mem z
  cases hcell : m.cell y with
  | none =>
    rw [if_neg (·.1 rfl)]
    exact forked_look_congr h.wf (h.mem_of_not_cell hstep hcell) z
  | some k =>
    have ht : t = s.write k.1 y b := by
      obtain ⟨-, _, -, haccess | ⟨hmiss, -⟩⟩ := stored_cases hstep
      · exact Option.some.inj (haccess.symm.trans (h.access_of_cell hcell))
      · rw [h.access_of_cell hcell] at hmiss
        cases hmiss
    rw [ht, h.look_write hcell]
    simp only [ne_eq, reduceCtorEq, not_false_eq_true, true_and]

/-- **The run lemma.** -/
theorem stores (content : Nat → Nat → UInt8) (h : Twins m p c s) {evs : List CowEvent}
    (hrun : Run CowStep s evs t) (hevs : ∀ ev ∈ evs, ∃ y b, ev = .stored p y b) :
    Twins m p c t ∧ (forked m).look content t.mem
      = evs.foldl (cellStep m) ((forked m).look content s.mem) := by
  refine (hrun.restrict hevs).simulates (R := fun s view =>
    Twins m p c s ∧ (forked m).look content s.mem = view) ?_ ⟨h, rfl⟩
  rintro v ev w view ⟨hv, rfl⟩ ⟨⟨y, b, rfl⟩, hstep⟩
  exact hv.stored hstep

end Twins

/-! ## What the parent finds -/

/-- The page of `z` is mapped, and `b` is there. -/
def Finds (s : Sys) (p z : Nat) (b : UInt8) : Prop :=
  ∃ proc pte, s.procs[p]? = some proc ∧ proc.pt (floor z) = some pte
    ∧ s.mem pte.frame (z % pageSize) = b

section Finds

variable {content : Nat → Nat → UInt8} {P : MemType → Option Nat → Prop} {s t : Sys} {p q y z : Nat}
  {b d : UInt8}

theorem Finds.look (h : s.Finds p z b) : s.look content p z = b := by
  obtain ⟨proc, pte, hp, hpte, rfl⟩ := h
  rw [look_of_some hp, Proc.look_of_some hpte]

theorem access_finds (h : s.access p y b = some t) : t.Finds p y b := by
  obtain ⟨proc, pte, hp, hpte, -, rfl⟩ := access_cases h
  exact ⟨proc, pte, hp, hpte, if_pos ⟨rfl, rfl⟩⟩

theorem stored_finds (h : CowStep s (.stored p y b) t) : t.Finds p y b := by
  obtain ⟨-, _, -, haccess | ⟨-, _, _, -, -, haccess⟩⟩ := stored_cases h
  · exact access_finds haccess
  · exact access_finds haccess

/-- Another place in a page keeps its byte, whatever frame is written. -/
theorem Finds.access (h : s.Finds p z d) (haccess : s.access q y b = some t)
    (hz : z % pageSize ≠ y % pageSize) : t.Finds p z d := by
  obtain ⟨proc, pte, hp, hpte, rfl⟩ := h
  obtain ⟨_, pte', -, -, -, rfl⟩ := access_cases haccess
  exact ⟨proc, pte, hp, hpte, if_neg (fun hhit => hz hhit.2)⟩

theorem IsolatedOn.finds_fault (hinv : s.IsolatedOn P) (h : s.Finds p z d) (hz : s.Covered p z)
    {proc : Proc} (hp : s.procs[p]? = some proc) {env : FaultEnv} {r : FaultResult}
    (hfresh : ∀ f, env.frame = some f → s.strongCount f = 0)
    (hr : userCowInt proc.memset proc.pt env y = some r) (data : Nat → UInt8) :
    (s.afterFault p r data).Finds p z d := by
  obtain ⟨proc', pte, hp', hpte, hd⟩ := h
  cases Option.some.inj (hp.symm.trans hp')
  obtain ⟨proc', hp', a', ha', haz⟩ := hz
  cases Option.some.inj (hp.symm.trans hp')
  obtain ⟨pre, a, post, hareas, ha, hfaulted⟩ := userCowInt_faulted hr
  obtain ⟨hlt, -⟩ := List.getElem?_eq_some_iff.mp hp
  by_cases heffect : r.effect = .segv
  · rw [fault_segv hareas hfaulted heffect, afterFault_segv hp]
    exact ⟨proc, pte, hp, hpte, hd⟩
  obtain ⟨t₀, hvaddr, hpte', hpt, -⟩ := hinv.fault_origin hp hareas ha hfaulted heffect
  by_cases hpage : floor z = floor y
  · have hread := hinv.fault_read hp hareas ha hfaulted data hpage
      (by rw [← hpage, hpte]; exact Option.some_ne_none pte)
    have hnew : Proc.pt ⟨r.memset, r.pt⟩ (floor z) = some ⟨t₀.tracker, a.faultFlags y⟩ := by
      rw [hpage]
      exact hpte'
    rw [Proc.read_of_some hnew, Proc.read_of_some hpte] at hread
    exact ⟨_, _, List.getElem?_set_self hlt, hnew, hread.trans hd⟩
  · refine ⟨_, pte, List.getElem?_set_self hlt, ?_, ?_⟩
    · show r.pt (floor z) = some pte
      rw [hpt _ (by rw [hvaddr]; exact hpage)]
      exact hpte
    · obtain ⟨u, hu, -, hframe⟩ := hinv.holds_of_mapped hp ha' haz hpte
      show r.effect.apply s.mem data pte.frame _ = d
      rw [fault_mem_of_held hfresh hfaulted data (hframe ▸ strongCount_pos hu)]
      exact hd

theorem IsolatedOn.finds_stored (hinv : s.IsolatedOn P) (h : s.Finds p z d) (hcov : s.Covered p z)
    (hz : z % pageSize ≠ y % pageSize) (hstep : CowStep s (.stored p y b) t) : t.Finds p z d := by
  obtain ⟨-, env, hfresh, haccess | ⟨-, proc, r, hp, hr, haccess⟩⟩ := stored_cases hstep
  · exact h.access haccess hz
  · exact (hinv.finds_fault h hcov hp hfresh hr env.data).access haccess hz

end Finds

namespace Twins

variable {m : MemSet} {p c x z : Nat} {d : UInt8} {bs : List UInt8} {s t : Sys}

theorem finds_far (h : Twins m p c s) (hrun : Run CowStep s (storedBytes p x bs) t)
    (hz : ∀ i < bs.length, z % pageSize ≠ (x + i) % pageSize) (hcov : m.Covers z)
    (hfinds : s.Finds p z d) : t.Finds p z d := by
  induction bs generalizing x s with
  | nil =>
    cases hrun
    exact hfinds
  | cons b bs ih =>
    cases hrun with
    | cons hstep hrest =>
      refine ih (h.step hstep) hrest ?_ ?_
      · intro i hi
        have hfar := hz (i + 1) (Nat.succ_lt_succ hi)
        rwa [show x + (i + 1) = x + 1 + i by omega] at hfar
      · exact h.isolated.finds_stored hfinds ((h.covers_iff z).mpr hcov)
          (hz 0 (Nat.zero_lt_succ _)) hstep

/-- The parent finds every byte that it stored. -/
theorem finds_stores (h : Twins m p c s) (hrun : Run CowStep s (storedBytes p x bs) t)
    (hlen : bs.length ≤ pageSize) {i : Nat} (hd : bs[i]? = some d) :
    m.Covers (x + i) ∧ t.Finds p (x + i) d := by
  induction bs generalizing x s i with
  | nil => cases hd
  | cons b bs ih =>
    rw [List.length_cons] at hlen
    cases hrun with
    | @cons _ v _ _ _ hstep hrest =>
      have hv := h.step hstep
      cases i with
      | zero =>
        cases hd
        have hcov : m.Covers x := (h.covers_iff x).mp (stored_cases hstep).1
        refine ⟨hcov, hv.finds_far hrest ?_ hcov (stored_finds hstep)⟩
        intro j hj
        unfold pageSize at *
        omega
      | succ i =>
        rw [show x + (i + 1) = x + 1 + i by omega]
        exact ih hv hrest (by omega) hd

end Twins

/-! ## The fork -/

theorem twins_fork {s t : Sys} {p c : Nat} {proc : Proc} (hinv : s.IsolatedOn NotShared)
    (hp : s.procs[p]? = some proc) (hstep : CowStep s (.forked p c) t) :
    Twins proc.memset p c t ∧ t.mem = s.mem := by
  obtain ⟨hfork, rfl⟩ := forked_cases hstep
  obtain ⟨proc', hp', rfl⟩ := Option.map_eq_some_iff.mp hfork
  cases Option.some.inj (hp.symm.trans hp')
  obtain ⟨hlt, -⟩ := List.getElem?_eq_some_iff.mp hp
  refine ⟨⟨hinv.fork (fun _ _ h => h) hp, Nat.ne_of_lt hlt, ?_, proc.cowFork.1, ?_, ?_⟩, rfl⟩
  · show (s.procs.set p proc.cowFork.1 ++ [proc.cowFork.2])[s.procs.length]? = _
    rw [List.getElem?_append_right (by rw [List.length_set]), List.length_set, Nat.sub_self]
    rfl
  · show (s.procs.set p proc.cowFork.1 ++ [proc.cowFork.2])[p]? = _
    rw [List.getElem?_append_left (by rw [List.length_set]; exact hlt)]
    exact List.getElem?_set_self hlt
  · refine ⟨rfl, fun b hb _ u hu => Or.inl (MemSet.mem_trackers.mpr ⟨b, hb, hu⟩), ?_⟩
    intro a ha hshared u hu
    have hpte := forkPt_of_mem (hinv.wf p proc hp).nodup ha hu proc.pt
    rw [MemType.forkFlags, if_pos hshared] at hpte
    exact hpte

end Sys

end MonkeyOS
