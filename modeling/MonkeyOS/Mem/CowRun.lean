import MonkeyOS.Mem.Cow

/-!
# MonkeyOS — copy-on-write isolation over runs

The remaining steps of `CowStep` (the store itself, `cow_fork`, the exit) keep `Sys.Inv`, and
change what a process reads exactly as `View.step` says: a store changes one byte of the process
that stores, a fork gives the child what its parent reads. `cow_isolation` follows by
simulation. The part of the invariant that is about frames and write bits is kept for any kind of
areas that leaves out the shared ones (`IsolatedOn.step`).
-/

namespace MonkeyOS

open Lib

namespace Sys

/-- What an event does to the byte maps. -/
def View.step (view : View) : CowEvent → View
  | .stored p x b => fun q y => if q = p ∧ y = x then b else view q y
  | .forked p child => fun q y => if q = child then view p y else view q y
  | .faulted _ _ => view
  | .exited _ => view

/-! ## The store -/

section Write

/-- A store changes bytes only. -/
theorem IsolatedOn.write {P : MemType → Option Nat → Prop} {s : Sys} (hinv : s.IsolatedOn P)
    (frame x : Nat) (b : UInt8) : (s.write frame x b).IsolatedOn P :=
  ⟨hinv.wf, hinv.agrees, hinv.isolated⟩

variable {s : Sys} {p x : Nat} {proc : Proc} {a : MemArea} {pte : PTE} {view : View}
  (hinv : s.Inv) (hp : s.procs[p]? = some proc) (ha : a ∈ proc.memset.areas)
  (hx : a.contains x = true) (hpte : proc.pt (floor x) = some pte)

include hinv hp ha hx hpte

theorem Inv.write (b : UInt8) : (s.write pte.frame x b).Inv := by
  refine ⟨hinv.toIsolatedOn.write pte.frame x b, ?_⟩
  intro f hf o
  obtain ⟨t, ht, -, htracker⟩ := hinv.holds_of_mapped hp ha hx hpte
  -- the frame that is written is held
  have hne : f ≠ pte.frame := by
    rintro rfl
    have hpos := strongCount_pos ht
    rw [htracker] at hpos
    exact absurd hf (Nat.ne_of_gt hpos)
  show (if f = pte.frame ∧ o = x % pageSize then b else s.mem f o) = 0
  rw [if_neg (fun h => hne h.1)]
  exact hinv.zero f hf o

/-- A writable page is the only private page of its frame. -/
theorem Inv.writable_sole (hw : pte.flags.writable = true) {q y : Nat} {qroc : Proc}
    {c : MemArea} {pte' : PTE} (hq : s.procs[q]? = some qroc) (hc : c ∈ qroc.memset.areas)
    (hprivate : c.Private) (hy : c.contains y = true) (hpte' : qroc.pt (floor y) = some pte')
    (hframe : pte'.frame = pte.frame) : q = p ∧ floor y = floor x := by
  obtain ⟨t, ht, htv, htf⟩ := hinv.holds_of_mapped hp ha hx hpte
  obtain ⟨u, hu, huv, huf⟩ := hinv.holds_of_mapped hq hc hy hpte'
  by_cases heq : (q, u) = (p, t)
  · cases heq
    exact ⟨rfl, huv.symm.trans htv⟩
  obtain ⟨-, -, hro⟩ := hinv.isolated q c u p a t hu hprivate ht
    (by rw [htf, huf, hframe]) heq
  have hro := hro proc hp
  rw [htv, PageTable.writable_of_some hpte, hw] at hro
  cases hro

theorem Shows.write (h : s.Shows view) (hw : pte.flags.writable = true) (b : UInt8) :
    (s.write pte.frame x b).Shows (view.step (.stored p x b)) := by
  intro q qroc hq c hc hprivate y hy
  show qroc.read (s.write pte.frame x b).mem y = if q = p ∧ y = x then b else view q y
  by_cases hown : q = p ∧ y = x
  · obtain ⟨rfl, rfl⟩ := hown
    have hqp : qroc = proc := Option.some.inj (hq.symm.trans hp)
    rw [if_pos ⟨rfl, rfl⟩, hqp]
    unfold Proc.read
    rw [hpte]
    exact if_pos ⟨rfl, rfl⟩
  · rw [if_neg hown, ← h q qroc hq c hc hprivate y hy]
    unfold Proc.read
    cases hpte' : qroc.pt (floor y) with
    | none => rfl
    | some pte' =>
      refine if_neg (fun hhit => hown ?_)
      obtain ⟨hqp, hfloor⟩ :=
        hinv.writable_sole hp ha hx hpte hw hq hc hprivate hy hpte' hhit.1
      refine ⟨hqp, ?_⟩
      -- same page and same place in the page
      have hdivx := Nat.div_add_mod' x pageSize
      have hdivy := Nat.div_add_mod' y pageSize
      unfold floor at hfloor
      omega

end Write

/-! ## Fork -/

section ForkPt

variable {pt : PageTable} {m : MemSet} {v : Nat} {D : Nat → Prop} {areas : List MemArea}

theorem forkPt_of_not_mem (hv : ∀ t ∈ MemSet.trackers ⟨areas⟩, t.vaddr ≠ v) (pt : PageTable) :
    MemSet.forkPt ⟨areas⟩ pt v = pt v := by
  induction areas generalizing pt with
  | nil => rfl
  | cons a areas ih =>
    show MemSet.forkPt ⟨areas⟩ (pt.mapTrackers a.mtrackers a.mtype.forkFlags) v = pt v
    rw [ih (fun t ht => hv t (List.mem_append_right a.mtrackers ht))]
    exact PageTable.mapTrackers_of_not_mem
      (fun t ht => hv t (MemSet.mem_trackers.mpr ⟨a, List.mem_cons_self, ht⟩)) _ _

/-- A resident page is mapped with the flags of its own area. -/
theorem forkPt_of_mem (hnodup : ((MemSet.trackers ⟨areas⟩).map (·.vaddr)).Nodup)
    {a : MemArea} (ha : a ∈ areas) {t : MapTrack} (ht : t ∈ a.mtrackers) (pt : PageTable) :
    MemSet.forkPt ⟨areas⟩ pt t.vaddr = some ⟨t.tracker, a.mtype.forkFlags⟩ := by
  induction areas generalizing pt with
  | nil => cases ha
  | cons c areas ih =>
    have hcons : ((c.mtrackers ++ MemSet.trackers ⟨areas⟩).map (·.vaddr)).Nodup := hnodup
    rw [List.map_append, List.nodup_append] at hcons
    obtain ⟨hc, hrest, hapart⟩ := hcons
    show MemSet.forkPt ⟨areas⟩ (pt.mapTrackers c.mtrackers c.mtype.forkFlags) t.vaddr = _
    rcases List.mem_cons.mp ha with rfl | ha
    · -- mapped here, and no later area has a tracker for the page
      rw [forkPt_of_not_mem, PageTable.mapTrackers_of_mem hc ht]
      intro u hu heq
      exact hapart _ (List.mem_map_of_mem ht) _ (List.mem_map_of_mem hu) heq.symm
    · exact ih hrest ha _

/-- After a fork both page tables map what the trackers hold. -/
theorem forkPt_agreesOn (hnodup : (m.trackers.map (·.vaddr)).Nodup)
    (hpt : ∀ v, D v → (∀ t ∈ m.trackers, t.vaddr ≠ v) → pt v = none) :
    (m.forkPt pt).AgreesOn D m := by
  intro v hv f
  by_cases hv' : ∃ t ∈ m.trackers, t.vaddr = v
  · obtain ⟨t, ht, rfl⟩ := hv'
    obtain ⟨a, ha, hta⟩ := MemSet.mem_trackers.mp ht
    rw [forkPt_of_mem hnodup ha hta]
    constructor
    · rintro ⟨flags, heq⟩
      cases heq
      exact ⟨t, ht, rfl, rfl⟩
    · rintro ⟨u, hu, huv, rfl⟩
      rw [List.inj_on_of_nodup_map hnodup hu ht huv]
      exact ⟨_, rfl⟩
  · have hnone : ∀ t ∈ m.trackers, t.vaddr ≠ v := fun t ht heq => hv' ⟨t, ht, heq⟩
    rw [forkPt_of_not_mem hnone, hpt v hv hnone]
    constructor
    · rintro ⟨_, heq⟩
      cases heq
    · rintro ⟨t, ht, htv, -⟩
      exact absurd htv (hnone t ht)

/-- Page tables that agree with the same trackers map a page to the same frame. -/
theorem frame_of_agreesOn {pt' : PageTable} (h : pt.AgreesOn D m) (h' : pt'.AgreesOn D m)
    (hv : D v) :
    (pt' v).map PTE.frame = (pt v).map PTE.frame := by
  have hiff := fun f => (h v hv f).trans (h' v hv f).symm
  cases hpt : pt v with
  | none =>
    cases hpt' : pt' v with
    | none => rfl
    | some pte' =>
      obtain ⟨flags, heq⟩ := (hiff pte'.frame).mpr ⟨pte'.flags, hpt'⟩
      rw [hpt] at heq
      cases heq
  | some pte =>
    obtain ⟨flags, heq⟩ := (hiff pte.frame).mp ⟨pte.flags, hpt⟩
    rw [heq]
    rfl

/-- So they read alike. -/
theorem read_of_agreesOn {proc qroc : Proc} (h : proc.pt.AgreesOn D m) (h' : qroc.pt.AgreesOn D m)
    (mem : Nat → Nat → UInt8) {x : Nat} (hx : D (floor x)) : qroc.read mem x = proc.read mem x := by
  have hframe := frame_of_agreesOn h h' hx
  unfold Proc.read
  cases hpt : proc.pt (floor x) with
  | none =>
    rw [hpt, Option.map_none, Option.map_eq_none_iff] at hframe
    rw [hframe]
  | some pte =>
    rw [hpt, Option.map_some, Option.map_eq_some_iff] at hframe
    obtain ⟨pte', hpte', heq⟩ := hframe
    rw [hpte']
    show mem pte'.frame _ = mem pte.frame _
    rw [heq]

theorem not_writable_forkFlags {t : MemType} (h : ¬ t.IsShared) : t.forkFlags.writable = false := by
  unfold MemType.forkFlags
  rw [if_neg h]
  rfl

end ForkPt

section Fork

variable {P : MemType → Option Nat → Prop} {s : Sys} {p : Nat} {proc : Proc} {view : View}

/-- `q` is the parent or the child, or a process the fork does not touch. -/
theorem fork_getElem? (hp : s.procs[p]? = some proc) {q : Nat} {qroc : Proc}
    (hq : (s.procs.set p proc.cowFork.1 ++ [proc.cowFork.2])[q]? = some qroc) :
    ((q = p ∨ q = s.procs.length) ∧ ∃ pt, qroc = ⟨proc.memset, proc.memset.forkPt pt⟩
        ∧ (pt = proc.pt ∨ pt = .empty))
      ∨ q ≠ p ∧ q ≠ s.procs.length ∧ s.procs[q]? = some qroc := by
  by_cases hlen : q < s.procs.length
  · rw [List.getElem?_append_left (by rw [List.length_set]; exact hlen)] at hq
    rcases getElem?_set_procs hp hq with ⟨rfl, rfl⟩ | ⟨hne, hq⟩
    · exact Or.inl ⟨Or.inl rfl, proc.pt, rfl, Or.inl rfl⟩
    · exact Or.inr ⟨hne, Nat.ne_of_lt hlen, hq⟩
  · rw [List.getElem?_append_right (by rw [List.length_set]; omega), List.length_set] at hq
    obtain ⟨hsub, rfl⟩ := List.getElem?_eq_some_iff.mp hq
    have hq : q = s.procs.length := by
      simp only [List.length_singleton] at hsub
      omega
    refine Or.inl ⟨Or.inr hq, .empty, ?_, Or.inr rfl⟩
    simp [Proc.cowFork]

/-- A page of parent or child, with the entry both page tables have for it, or a page of
another process. -/
theorem IsolatedOn.fork_holds (hinv : s.IsolatedOn P) (hp : s.procs[p]? = some proc) {q : Nat} {a : MemArea}
    {t : MapTrack} (h : Holds ⟨s.procs.set p proc.cowFork.1 ++ [proc.cowFork.2], s.mem⟩ q a t) :
    ((q = p ∨ q = s.procs.length) ∧ s.Holds p a t ∧ (¬ a.mtype.IsShared →
        ReadOnly ⟨s.procs.set p proc.cowFork.1 ++ [proc.cowFork.2], s.mem⟩ q t.vaddr))
      ∨ q ≠ p ∧ s.Holds q a t ∧ (s.ReadOnly q t.vaddr →
        ReadOnly ⟨s.procs.set p proc.cowFork.1 ++ [proc.cowFork.2], s.mem⟩ q t.vaddr) := by
  obtain ⟨qroc, hq, ha, ht⟩ := h
  rcases fork_getElem? hp hq with ⟨hqp, pt, rfl, -⟩ | ⟨hne, -, hq'⟩
  · refine Or.inl ⟨hqp, ⟨proc, hp, ha, ht⟩, fun hshared rroc hr => ?_⟩
    cases Option.some.inj (hq.symm.trans hr)
    rw [PageTable.writable_of_some (forkPt_of_mem (hinv.wf p proc hp).nodup ha ht pt)]
    exact not_writable_forkFlags hshared
  · refine Or.inr ⟨hne, ⟨qroc, hq', ha, ht⟩, fun hro rroc hr => ?_⟩
    cases Option.some.inj (hq.symm.trans hr)
    exact hro qroc hq'

theorem IsolatedOn.forkPt_agrees (hinv : s.IsolatedOn P) (hp : s.procs[p]? = some proc) {pt : PageTable}
    (hpt : pt = proc.pt ∨ pt = .empty) :
    (proc.memset.forkPt pt).AgreesOn proc.memset.Covers proc.memset := by
  refine forkPt_agreesOn (hinv.wf p proc hp).nodup (fun v hv hnone => ?_)
  rcases hpt with rfl | rfl
  · cases hpte : proc.pt v with
    | none => rfl
    | some pte =>
      obtain ⟨t, ht, htv, -⟩ := (hinv.agrees p proc hp v hv pte.frame).mp ⟨pte.flags, hpte⟩
      exact absurd htv (hnone t ht)
  · rfl

theorem strongCount_fork (hp : s.procs[p]? = some proc) (f : Nat) :
    strongCount ⟨s.procs.set p proc.cowFork.1 ++ [proc.cowFork.2], s.mem⟩ f
      = s.strongCount f + proc.memset.trackers.countP (·.tracker == f) := by
  -- the parent's areas are the same, the child adds its own
  have hset := strongCount_set hp proc.cowFork.1 s.mem f
  have hconcat : strongCount ⟨s.procs.set p proc.cowFork.1 ++ [proc.cowFork.2], s.mem⟩ f
      = strongCount ⟨s.procs.set p proc.cowFork.1, s.mem⟩ f
        + proc.memset.trackers.countP (·.tracker == f) := by
    rw [strongCount_eq, strongCount_eq]
    unfold holders
    rw [List.map_append]
    exact refCount_concat _
  rw [hconcat]
  exact hset

theorem IsolatedOn.fork (hinv : s.IsolatedOn P) (hP : ∀ mtype file, P mtype file → ¬ mtype.IsShared)
    (hp : s.procs[p]? = some proc) :
    IsolatedOn P ⟨s.procs.set p proc.cowFork.1 ++ [proc.cowFork.2], s.mem⟩ := by
  refine ⟨?_, ?_, ?_⟩
  · intro q qroc hq
    rcases fork_getElem? hp hq with ⟨-, pt, rfl, -⟩ | ⟨-, -, hq⟩
    · exact hinv.wf p proc hp
    · exact hinv.wf q qroc hq
  · intro q qroc hq
    rcases fork_getElem? hp hq with ⟨-, pt, rfl, hpt⟩ | ⟨-, -, hq⟩
    · exact hinv.forkPt_agrees hp hpt
    · exact hinv.agrees q qroc hq
  · intro q a t q' b u ht hkind hu hframe hne
    have hown := hP a.mtype a.file hkind
    rcases hinv.fork_holds hp ht with ⟨hqp, ht', hro⟩ | ⟨hqp, ht', hro⟩
      <;> rcases hinv.fork_holds hp hu with ⟨hqp', hu', hro'⟩ | ⟨hqp', hu', hro'⟩
    · by_cases htu : t = u
      · -- the two copies of one page
        subst htu
        obtain ⟨proc₁, hp₁, ha, hta⟩ := ht'
        obtain ⟨proc₂, hp₂, hb, htb⟩ := hu'
        cases Option.some.inj (hp.symm.trans hp₁)
        cases Option.some.inj (hp.symm.trans hp₂)
        have hsep := (hinv.wf p proc hp).separate
        have hab : b = a :=
          hsep.eq_of_contains hb ha (hsep.inside b hb t htb) (hsep.inside a ha t hta)
        subst hab
        exact ⟨hown, hro hown, hro' hown⟩
      · obtain ⟨hshared, -, -⟩ := hinv.isolated p a t p b u ht' hkind hu' hframe
          (fun heq => htu (Prod.mk.inj heq).2)
        exact ⟨hshared, hro hown, hro' hshared⟩
    · obtain ⟨hshared, -, hro₂⟩ := hinv.isolated p a t q' b u ht' hkind hu' hframe
        (fun heq => hqp' (Prod.mk.inj heq).1.symm)
      exact ⟨hshared, hro hown, hro' hro₂⟩
    · obtain ⟨hshared, hro₁, -⟩ := hinv.isolated q a t p b u ht' hkind hu' hframe
        (fun heq => hqp (Prod.mk.inj heq).1)
      exact ⟨hshared, hro hro₁, hro' hshared⟩
    · obtain ⟨hshared, hro₁, hro₂⟩ := hinv.isolated q a t q' b u ht' hkind hu' hframe hne
      exact ⟨hshared, hro hro₁, hro' hro₂⟩

theorem Inv.fork (hinv : s.Inv) (hp : s.procs[p]? = some proc) :
    Inv ⟨s.procs.set p proc.cowFork.1 ++ [proc.cowFork.2], s.mem⟩ := by
  refine ⟨hinv.toIsolatedOn.fork (fun _ _ h => h.1) hp, ?_⟩
  intro f hf o
  rw [strongCount_fork hp] at hf
  exact hinv.zero f (by omega) o

theorem Shows.fork (h : s.Shows view) (hinv : s.Inv) (hp : s.procs[p]? = some proc) :
    Shows ⟨s.procs.set p proc.cowFork.1 ++ [proc.cowFork.2], s.mem⟩
      (view.step (.forked p s.procs.length)) := by
  intro q qroc hq a ha hprivate x hx
  show qroc.read s.mem x = if q = s.procs.length then view p x else view q x
  rcases fork_getElem? hp hq with ⟨hqp, pt, rfl, hpt⟩ | ⟨-, hlen, hq⟩
  · have hview : (if q = s.procs.length then view p x else view q x) = view p x := by
      rcases hqp with rfl | rfl
      · split <;> rfl
      · rw [if_pos rfl]
    rw [hview, ← h p proc hp a ha hprivate x hx]
    exact read_of_agreesOn (hinv.agrees p proc hp) (hinv.forkPt_agrees hp hpt) s.mem
      (hinv.covers_floor hp ha hx)
  · rw [if_neg hlen]
    exact h q qroc hq a ha hprivate x hx

end Fork

/-! ## Exit -/

section Exit

variable {P : MemType → Option Nat → Prop} {s t : Sys} {p : Nat} {view : View}

variable {q : Nat} {a : MemArea} {u : MapTrack}

theorem exit_getElem? (h : s.exit p = some t) {qroc : Proc} (hq : t.procs[q]? = some qroc) :
    q = p ∧ qroc.memset = ⟨[]⟩ ∨ q ≠ p ∧ s.procs[q]? = some qroc := by
  obtain ⟨proc, hp, rfl⟩ := Option.map_eq_some_iff.mp h
  rcases getElem?_set_procs hp hq with ⟨rfl, rfl⟩ | hq
  · exact Or.inl ⟨rfl, rfl⟩
  · exact Or.inr hq

theorem exit_mem (h : s.exit p = some t) (f o : Nat) :
    t.mem f o = if s.strongCount f ≠ 0 ∧ t.strongCount f = 0 then 0 else s.mem f o := by
  obtain ⟨proc, hp, rfl⟩ := Option.map_eq_some_iff.mp h
  rfl

theorem exit_holds (h : s.exit p = some t)
    (hu : t.Holds q a u) : s.Holds q a u ∧ (s.ReadOnly q u.vaddr → t.ReadOnly q u.vaddr) := by
  obtain ⟨qroc, hq, ha, hua⟩ := hu
  rcases exit_getElem? h hq with ⟨rfl, hnil⟩ | ⟨-, hq'⟩
  · rw [hnil] at ha
    cases ha
  · refine ⟨⟨qroc, hq', ha, hua⟩, fun hro rroc hr => ?_⟩
    cases Option.some.inj (hq.symm.trans hr)
    exact hro qroc hq'

theorem IsolatedOn.exit (hinv : s.IsolatedOn P) (h : s.exit p = some t) : t.IsolatedOn P := by
  refine ⟨?_, ?_, ?_⟩
  · intro q qroc hq
    rcases exit_getElem? h hq with ⟨-, hnil⟩ | ⟨-, hq⟩
    · rw [hnil]
      exact MemSet.WF.nil
    · exact hinv.wf q qroc hq
  · intro q qroc hq
    rcases exit_getElem? h hq with ⟨-, hnil⟩ | ⟨-, hq⟩
    · rintro v ⟨a, ha, -⟩
      rw [hnil] at ha
      cases ha
    · exact hinv.agrees q qroc hq
  · intro q a u q' b w hu hkind hw hframe hne
    obtain ⟨hu', hro⟩ := exit_holds h hu
    obtain ⟨hw', hro'⟩ := exit_holds h hw
    obtain ⟨hshared, hro₁, hro₂⟩ := hinv.isolated q a u q' b w hu' hkind hw' hframe hne
    exact ⟨hshared, hro hro₁, hro' hro₂⟩

theorem Inv.exit (hinv : s.Inv) (h : s.exit p = some t) : t.Inv := by
  refine ⟨hinv.toIsolatedOn.exit h, ?_⟩
  intro f hf o
  rw [exit_mem h]
  by_cases hold : s.strongCount f = 0
  · rw [if_neg (·.1 hold)]
    exact hinv.zero f hold o
  · rw [if_pos ⟨hold, hf⟩]

/-- A frame that is still held keeps its bytes. -/
theorem exit_mem_of_held (h : s.exit p = some t)
    (hu : t.Holds q a u) : t.mem u.tracker = s.mem u.tracker := by
  funext o
  rw [exit_mem h, if_neg (fun hc => absurd hc.2 (Nat.ne_of_gt (strongCount_pos hu)))]

theorem Shows.exit (hshows : s.Shows view) (hinv : s.Inv) (h : s.exit p = some t) :
    t.Shows view := by
  intro q qroc hq a ha hprivate x hx
  rcases exit_getElem? h hq with ⟨rfl, hnil⟩ | ⟨-, hq'⟩
  · rw [hnil] at ha
    cases ha
  · rw [← hshows q qroc hq' a ha hprivate x hx]
    refine read_congr rfl (fun pte hpte => ?_)
    -- a frame that is read still has its tracker
    obtain ⟨u, ⟨_, hq₁, ha₁, hu⟩, -, hframe⟩ := hinv.holds_of_mapped hq' ha hx hpte
    cases Option.some.inj (hq'.symm.trans hq₁)
    rw [← hframe]
    exact exit_mem_of_held h ⟨qroc, hq, ha₁, hu⟩

end Exit

/-! ## Runs -/

section Store

variable {P : MemType → Option Nat → Prop} {s t : Sys} {p x : Nat} {b : UInt8} {view : View}

/-- The access is a write through a writable page. -/
theorem access_cases (h : s.access p x b = some t) :
    ∃ proc pte, s.procs[p]? = some proc ∧ proc.pt (floor x) = some pte
      ∧ pte.flags.writable = true ∧ t = s.write pte.frame x b := by
  unfold Sys.access at h
  cases hp : s.procs[p]? with
  | none =>
    rw [hp] at h
    cases h
  | some proc =>
    cases hpte : proc.pt (floor x) with
    | none =>
      simp only [hp, hpte] at h
      cases h
    | some pte =>
      simp only [hp, hpte, Option.ite_none_right_eq_some, Option.some.injEq] at h
      exact ⟨proc, pte, rfl, hpte, h.1, h.2.symm⟩

theorem IsolatedOn.access (hinv : s.IsolatedOn P) (h : s.access p x b = some t) :
    t.IsolatedOn P := by
  obtain ⟨proc, pte, -, -, -, rfl⟩ := access_cases h
  exact hinv.write pte.frame x b

/-- The access itself, through a writable page of an area of the process. -/
theorem Inv.access (hinv : s.Inv) (hshows : s.Shows view) (hcov : s.Covered p x)
    (h : s.access p x b = some t) : t.Inv ∧ t.Shows (view.step (.stored p x b)) := by
  obtain ⟨proc, hp, a, ha, hx⟩ := hcov
  obtain ⟨proc', pte, hp', hpte, hw, rfl⟩ := access_cases h
  cases Option.some.inj (hp.symm.trans hp')
  exact ⟨hinv.write hp ha hx hpte b, hshows.write hinv hp ha hx hpte hw b⟩

/-- The area of the fault still has its bounds. -/
theorem afterFault_covered {proc : Proc} (hp : s.procs[p]? = some proc) {env : FaultEnv}
    {r : FaultResult} (h : userCowInt proc.memset proc.pt env x = some r) (data : Nat → UInt8) :
    (s.afterFault p r data).Covered p x := by
  obtain ⟨pre, a, post, -, ha, hfaulted⟩ := userCowInt_faulted h
  obtain ⟨hlt, -⟩ := List.getElem?_eq_some_iff.mp hp
  refine ⟨⟨r.memset, r.pt⟩, List.getElem?_set_self hlt, ?_⟩
  cases hfaulted with
  | segv => exact ⟨a, List.mem_append_cons_self, ha⟩
  | remapped => exact ⟨a, List.mem_append_cons_self, ha⟩
  | copied => exact ⟨_, List.mem_append_cons_self, ha⟩
  | filled => exact ⟨_, List.mem_append_cons_self, ha⟩

/-- A store is the access, or a fault and then the access or SIGSEGV. -/
theorem store_cases {env : StoreEnv} {ev : CowEvent} (h : s.store env p x b = some (t, ev)) :
    (s.access p x b = some t ∧ ev = .stored p x b)
      ∨ s.access p x b = none ∧ ∃ proc r, s.procs[p]? = some proc
        ∧ userCowInt proc.memset proc.pt ⟨s.strongCount, env.freePages, env.frame⟩ x = some r
        ∧ ((s.afterFault p r env.data).access p x b = some t ∧ ev = .stored p x b
          ∨ t = s.afterFault p r env.data ∧ ev = .faulted p x) := by
  unfold Sys.store at h
  cases haccess : s.access p x b with
  | some t' =>
    rw [haccess] at h
    cases h
    exact Or.inl ⟨rfl, rfl⟩
  | none =>
    rw [haccess] at h
    cases hp : s.procs[p]? with
    | none =>
      rw [hp] at h
      cases h
    | some proc =>
      simp only [hp] at h
      obtain ⟨r, hr, heq⟩ := Option.map_eq_some_iff.mp h
      refine Or.inr ⟨rfl, proc, r, rfl, hr, ?_⟩
      cases hretry : (s.afterFault p r env.data).access p x b with
      | some t' =>
        rw [hretry] at heq
        cases heq
        exact Or.inl ⟨rfl, rfl⟩
      | none =>
        rw [hretry] at heq
        cases heq
        exact Or.inr ⟨rfl, rfl⟩

/-- **The step lemma**, for frames and write bits. -/
theorem IsolatedOn.step (hinv : s.IsolatedOn P)
    (hP : ∀ mtype file, P mtype file → ¬ mtype.IsShared) {ev : CowEvent} (h : CowStep s ev t) :
    t.IsolatedOn P := by
  cases h with
  | fork h =>
    obtain ⟨proc, hp, rfl⟩ := Option.map_eq_some_iff.mp h
    exact hinv.fork hP hp
  | exit h => exact hinv.exit h
  | @store _ env p x b _ hcov hfresh h =>
    rcases store_cases h with ⟨haccess, rfl⟩ | ⟨-, proc, r, hp, hr, hretry⟩
    · exact hinv.access haccess
    · have hinv' := hinv.afterFault hp rfl hfresh hr env.data
      rcases hretry with ⟨haccess, rfl⟩ | ⟨rfl, rfl⟩
      · exact hinv'.access haccess
      · exact hinv'

/-- **The step lemma.** -/
theorem Inv.step (hinv : s.Inv) (hshows : s.Shows view) {ev : CowEvent} (h : CowStep s ev t) :
    t.Inv ∧ t.Shows (view.step ev) := by
  cases h with
  | fork h =>
    obtain ⟨proc, hp, rfl⟩ := Option.map_eq_some_iff.mp h
    exact ⟨hinv.fork hp, hshows.fork hinv hp⟩
  | exit h => exact ⟨hinv.exit h, hshows.exit hinv h⟩
  | @store _ env p x b _ hcov hfresh h =>
    rcases store_cases h with ⟨haccess, rfl⟩ | ⟨-, proc, r, hp, hr, hretry⟩
    · exact hinv.access hshows hcov haccess
    · obtain ⟨hinv', hshows'⟩ := hinv.afterFault hshows hp rfl hfresh hr env.data
      rcases hretry with ⟨haccess, rfl⟩ | ⟨rfl, rfl⟩
      · exact hinv'.access hshows' (afterFault_covered hp hr env.data) haccess
      · exact ⟨hinv', hshows'⟩

end Store

/-- What every process reads. -/
def reads (s : Sys) : View := fun p x =>
  match s.procs[p]? with
  | some proc => proc.read s.mem x
  | none => 0

theorem shows_reads (s : Sys) : s.Shows s.reads := by
  intro p proc hp a _ _ x _
  unfold reads
  rw [hp]

/-! ## Isolation

What a run starts from. `CowStart` is the state `sys_mmap` and the loader build up; the three
conditions after it hold there too, and isolation needs each of them
(`cow_isolation_needs_start`). -/

/-- Every process has disjoint areas with one tracker for a page at most, and a page table that
agrees with them. -/
structure CowStart (s : Sys) : Prop where
  separate : ∀ (p : Nat) (proc : Proc), s.procs[p]? = some proc → proc.memset.Separate
  pages : ∀ (p : Nat) (proc : Proc), s.procs[p]? = some proc →
    ∀ t ∈ proc.memset.trackers, t.vaddr % pageSize = 0
  nodup : ∀ (p : Nat) (proc : Proc), s.procs[p]? = some proc →
    (proc.memset.trackers.map (·.vaddr)).Nodup
  agrees : ∀ (p : Nat) (proc : Proc), s.procs[p]? = some proc →
    proc.pt.AgreesOn (fun _ => True) proc.memset
  /-- shared areas are resident and mapped writable -/
  resident : ∀ (p : Nat) (proc : Proc), s.procs[p]? = some proc → ∀ a ∈ proc.memset.areas,
    a.mtype.IsShared → ∀ v, a.contains v = true → v % pageSize = 0 →
      (∃ t ∈ a.mtrackers, t.vaddr = v) ∧ proc.pt.writable v = true
  /-- a writable private page has its frame alone -/
  exclusive : ∀ p a t q b u, s.Holds p a t → a.Private → ¬ s.ReadOnly p t.vaddr →
    s.Holds q b u → u.tracker = t.tracker → (p, t) = (q, u)

/-- Areas begin and end at pages. -/
def PageAligned (s : Sys) : Prop :=
  ∀ (p : Nat) (proc : Proc), s.procs[p]? = some proc → ∀ a ∈ proc.memset.areas, a.Aligned

/-- Frames nobody holds are zero (`FrameTracker::drop`). -/
def FreeZero (s : Sys) : Prop := ∀ f, s.strongCount f = 0 → ∀ o, s.mem f o = 0

/-- The other holders of a private page's frame are no pages of shared areas, and have it
read-only. -/
def SharersReadOnly (s : Sys) : Prop :=
  ∀ p a t q b u, s.Holds p a t → a.Private → s.Holds q b u → u.tracker = t.tracker →
    (p, t) ≠ (q, u) → ¬ b.mtype.IsShared ∧ s.ReadOnly q u.vaddr

theorem CowStart.inv {s : Sys} (h : s.CowStart) (haligned : s.PageAligned) (hfree : s.FreeZero)
    (hsharers : s.SharersReadOnly) : s.Inv := by
  refine ⟨⟨?_, ?_, ?_⟩, hfree⟩
  · intro p proc hp
    exact ⟨h.separate p proc hp, haligned p proc hp, h.pages p proc hp, h.nodup p proc hp⟩
  · intro p proc hp v _
    exact h.agrees p proc hp v trivial
  · intro p a t q b u ht hprivate hu hframe hne
    obtain ⟨hshared, hro⟩ := hsharers p a t q b u ht hprivate hu hframe hne
    refine ⟨hshared, ?_, hro⟩
    by_contra hw
    exact hne (h.exclusive p a t q b u ht hprivate hw hu hframe)

/-- **Copy-on-write isolation.** After any interleaving of forks, stores and exits a process
reads in its private areas what it read at the start or inherited at its fork, with its own
stores. -/
theorem cow_isolation {s t : Sys} {evs : List CowEvent} (hstart : s.CowStart)
    (haligned : s.PageAligned) (hfree : s.FreeZero) (hsharers : s.SharersReadOnly)
    (hrun : Run CowStep s evs t) : t.Shows (evs.foldl View.step s.reads) := by
  have hinv := hstart.inv haligned hfree hsharers
  have hend := hrun.simulates (R := fun s view => s.Inv ∧ s.Shows view)
    (fun _ _ _ _ hR hstep => hR.1.step hR.2 hstep) ⟨hinv, s.shows_reads⟩
  exact hend.2

/-! ### Start states

The state right after forks, when no page has been touched: private pages are read-only, shared
ones writable. -/

def forked (m : MemSet) : Proc := ⟨m, m.forkPt .empty⟩

variable {p : Nat} {ms : List MemSet} {mem : Nat → Nat → UInt8}

theorem getElem?_forked {proc : Proc}
    (hp : (ms.map forked)[p]? = some proc) : ∃ m ∈ ms, proc = forked m := by
  rw [List.getElem?_map] at hp
  obtain ⟨m, hm, rfl⟩ := Option.map_eq_some_iff.mp hp
  exact ⟨m, List.mem_of_getElem? hm, rfl⟩

theorem readOnly_forked (hnodup : ∀ m ∈ ms, (m.trackers.map (·.vaddr)).Nodup) {a : MemArea}
    {t : MapTrack} (h : Holds ⟨ms.map forked, mem⟩ p a t) (hshared : ¬ a.mtype.IsShared) :
    ReadOnly ⟨ms.map forked, mem⟩ p t.vaddr := by
  intro proc hp
  obtain ⟨_, hp', ha, ht⟩ := h
  cases Option.some.inj (hp.symm.trans hp')
  obtain ⟨m, hm, rfl⟩ := getElem?_forked hp
  have hentry : (forked m).pt t.vaddr = some _ := forkPt_of_mem (hnodup m hm) ha ht .empty
  rw [PageTable.writable_of_some hentry]
  exact not_writable_forkFlags hshared

theorem cowStart_forked (hsep : ∀ m ∈ ms, m.Separate)
    (hpages : ∀ m ∈ ms, ∀ t ∈ m.trackers, t.vaddr % pageSize = 0)
    (hnodup : ∀ m ∈ ms, (m.trackers.map (·.vaddr)).Nodup)
    (hresident : ∀ m ∈ ms, ∀ a ∈ m.areas, a.mtype.IsShared → ∀ v, a.contains v = true →
      v % pageSize = 0 → ∃ t ∈ a.mtrackers, t.vaddr = v) :
    CowStart ⟨ms.map forked, mem⟩ := by
  refine ⟨?_, ?_, ?_, ?_, ?_, ?_⟩
  · intro p proc hp
    obtain ⟨m, hm, rfl⟩ := getElem?_forked hp
    exact hsep m hm
  · intro p proc hp
    obtain ⟨m, hm, rfl⟩ := getElem?_forked hp
    exact hpages m hm
  · intro p proc hp
    obtain ⟨m, hm, rfl⟩ := getElem?_forked hp
    exact hnodup m hm
  · intro p proc hp
    obtain ⟨m, hm, rfl⟩ := getElem?_forked hp
    exact forkPt_agreesOn (hnodup m hm) (fun _ _ _ => rfl)
  · intro p proc hp a ha hshared v hv hpage
    obtain ⟨m, hm, rfl⟩ := getElem?_forked hp
    obtain ⟨t, ht, rfl⟩ := hresident m hm a ha hshared v hv hpage
    refine ⟨⟨t, ht, rfl⟩, ?_⟩
    have hentry : (forked m).pt t.vaddr = some _ := forkPt_of_mem (hnodup m hm) ha ht .empty
    rw [PageTable.writable_of_some hentry]
    show a.mtype.forkFlags.writable = true
    rw [MemType.forkFlags, if_pos hshared]
    rfl
  · intro p a t q b u ht hprivate hw
    exact absurd (readOnly_forked hnodup ht hprivate.1) hw

theorem sharersReadOnly_forked (hnodup : ∀ m ∈ ms, (m.trackers.map (·.vaddr)).Nodup)
    (hshared : ∀ m ∈ ms, ∀ a ∈ m.areas, ¬ a.mtype.IsShared) :
    SharersReadOnly ⟨ms.map forked, mem⟩ := by
  intro p a t q b u _ _ hu _ _
  have hb : ¬ b.mtype.IsShared := by
    obtain ⟨proc, hq, hb, -⟩ := hu
    obtain ⟨m, hm, rfl⟩ := getElem?_forked hq
    exact hshared m hm b hb
  exact ⟨hb, readOnly_forked hnodup hu hb⟩

theorem pageAligned_forked
    (h : ∀ m ∈ ms, ∀ a ∈ m.areas, a.Aligned) : PageAligned ⟨ms.map forked, mem⟩ := by
  intro p proc hp
  obtain ⟨m, hm, rfl⟩ := getElem?_forked hp
  exact h m hm

/-- One page at `0x1000`, resident in the frame if there is one. -/
def onePage (mtype : MemType) (frame : Option Nat) : MemSet :=
  ⟨[⟨mtype, frame.toList.map (fun f => ⟨0x1000, f, 7⟩), none, 0, 0x1000, 0x1000⟩]⟩

theorem onePage_separate (mtype : MemType) (frame : Option Nat) :
    (onePage mtype frame).Separate := by
  refine ⟨List.pairwise_singleton _ _, ?_⟩
  simp [onePage, MemArea.Inside, MemArea.contains_iff, MemArea.stop]

theorem onePage_trackers (mtype : MemType) (frame : Option Nat) :
    (onePage mtype frame).trackers = frame.toList.map (fun f => ⟨0x1000, f, 7⟩) := by
  simp [onePage, MemSet.trackers]

theorem onePage_nodup (mtype : MemType) (frame : Option Nat) :
    ((onePage mtype frame).trackers.map (·.vaddr)).Nodup := by
  rw [onePage_trackers]
  cases frame <;> simp

theorem onePage_pages (mtype : MemType) (frame : Option Nat) :
    ∀ t ∈ (onePage mtype frame).trackers, t.vaddr % pageSize = 0 := by
  rw [onePage_trackers]
  simp [pageSize]

theorem onePage_aligned (mtype : MemType) (frame : Option Nat) :
    ∀ a ∈ (onePage mtype frame).areas, a.Aligned := by
  simp [onePage, MemArea.Aligned, pageSize]

theorem onePage_resident (mtype : MemType) (f : Nat) :
    ∀ a ∈ (onePage mtype (some f)).areas, ∀ v, a.contains v = true → v % pageSize = 0 →
      ∃ t ∈ a.mtrackers, t.vaddr = v := by
  intro a ha v hv hpage
  rw [List.mem_singleton.mp ha] at hv ⊢
  rw [MemArea.contains_iff] at hv
  simp only [MemArea.stop, pageSize] at hv hpage
  refine ⟨⟨0x1000, f, 7⟩, List.mem_cons_self, ?_⟩
  show 0x1000 = v
  omega

/-- Processes with one page each. -/
def onePages (ps : List (MemType × Option Nat)) (mem : Nat → Nat → UInt8) : Sys :=
  ⟨(ps.map (fun p => onePage p.1 p.2)).map forked, mem⟩

section OnePages

variable {ps : List (MemType × Option Nat)} {mem : Nat → Nat → UInt8}

theorem onePages_start (h : ∀ p ∈ ps, p.1.IsShared → p.2 ≠ none) : (onePages ps mem).CowStart := by
  refine cowStart_forked ?_ ?_ ?_ ?_ <;> intro m hm <;>
    obtain ⟨⟨mtype, frame⟩, hp, rfl⟩ := List.mem_map.mp hm
  · exact onePage_separate _ _
  · exact onePage_pages _ _
  · exact onePage_nodup _ _
  · intro a ha hshared
    have hmtype : a.mtype = mtype := by rw [List.mem_singleton.mp ha]
    cases frame with
    | none => exact absurd rfl (h _ hp (hmtype ▸ hshared))
    | some f => exact onePage_resident mtype f a ha

theorem onePages_aligned : (onePages ps mem).PageAligned := by
  refine pageAligned_forked (fun m hm => ?_)
  obtain ⟨p, -, rfl⟩ := List.mem_map.mp hm
  exact onePage_aligned _ _

theorem onePages_sharers (h : ∀ p ∈ ps, ¬ p.1.IsShared) : (onePages ps mem).SharersReadOnly := by
  refine sharersReadOnly_forked ?_ ?_ <;> intro m hm <;>
    obtain ⟨p, hp, rfl⟩ := List.mem_map.mp hm
  · exact onePage_nodup _ _
  intro a ha
  rw [List.mem_singleton.mp ha]
  exact h p hp

end OnePages

/-- Parent and child both write to the page they share after a fork. -/
theorem cow_isolation_fork :
    ∃ t : Sys, Run CowStep (onePages [(.mmap, some 7)] (fun f _ => if f = 7 then 65 else 0))
        [.stored 0 0x1000 66, .forked 0 1, .stored 0 0x1000 67, .stored 1 0x1001 68] t
      ∧ ∃ parent child, t.procs = [parent, child]
        ∧ parent.read t.mem 0x1000 = 67 ∧ parent.read t.mem 0x1001 = 65
        ∧ child.read t.mem 0x1000 = 66 ∧ child.read t.mem 0x1001 = 68 := by
  have hrun : Run CowStep (onePages [(.mmap, some 7)] (fun f _ => if f = 7 then 65 else 0))
      [.stored 0 0x1000 66, .forked 0 1, .stored 0 0x1000 67, .stored 1 0x1001 68] _ :=
    .cons (@CowStep.store _ _ ⟨100, none, fun _ => 0⟩ 0 0x1000 66 _
        ⟨_, rfl, _, List.mem_cons_self, rfl⟩ (fun f hf => nomatch hf) rfl)
      (.cons (.fork rfl)
        (.cons (@CowStep.store _ _ ⟨100, some 8, fun _ => 0⟩ 0 0x1000 67 _
            ⟨_, rfl, _, List.mem_cons_self, rfl⟩ (fun f hf => by cases hf; rfl) rfl)
          (.cons (@CowStep.store _ _ ⟨100, none, fun _ => 0⟩ 1 0x1001 68 _
              ⟨_, rfl, _, List.mem_cons_self, rfl⟩ (fun f hf => nomatch hf) rfl)
            (.nil _))))
  have hfree : FreeZero (onePages [(.mmap, some 7)] (fun f _ => if f = 7 then 65 else 0)) := by
    intro f hf o
    refine if_neg (fun h7 => ?_)
    rw [h7] at hf
    exact absurd hf (by decide)
  have hshows := cow_isolation (onePages_start (by decide)) onePages_aligned hfree
    (onePages_sharers (by decide)) hrun
  exact ⟨_, hrun, _, _, rfl,
    hshows 0 _ rfl _ List.mem_cons_self (by decide) 0x1000 rfl,
    hshows 0 _ rfl _ List.mem_cons_self (by decide) 0x1001 rfl,
    hshows 1 _ rfl _ List.mem_cons_self (by decide) 0x1000 rfl,
    hshows 1 _ rfl _ List.mem_cons_self (by decide) 0x1001 rfl⟩

/-- Two areas that meet in the middle of a page, which is resident in the first. -/
def halfPages : MemSet :=
  ⟨[⟨.mmap, [⟨0x1000, 7, 7⟩], none, 0, 0x1000, 0x800⟩, ⟨.mmap, [], none, 0, 0x1800, 0x800⟩]⟩

theorem halfPages_separate : halfPages.Separate := by
  refine ⟨?_, by simp [halfPages, MemArea.Inside, MemArea.contains_iff, MemArea.stop]⟩
  show List.Pairwise _ [_, _]
  rw [List.pairwise_pair]
  intro v
  simp only [MemArea.contains_iff, MemArea.stop]
  omega

/-- A private page loses its isolation when its frame is also a page of a shared area, when the
page belongs to two areas, and when the allocator hands out a frame with old bytes. -/
theorem cow_isolation_needs_start :
    (∃ (s t : Sys) (evs : List CowEvent), s.CowStart ∧ s.PageAligned ∧ s.FreeZero
        ∧ Run CowStep s evs t ∧ ¬ t.Shows (evs.foldl View.step s.reads))
      ∧ (∃ (s t : Sys) (evs : List CowEvent), s.CowStart ∧ s.FreeZero ∧ s.SharersReadOnly
        ∧ Run CowStep s evs t ∧ ¬ t.Shows (evs.foldl View.step s.reads))
      ∧ ∃ (s t : Sys) (evs : List CowEvent), s.CowStart ∧ s.PageAligned ∧ s.SharersReadOnly
        ∧ Run CowStep s evs t ∧ ¬ t.Shows (evs.foldl View.step s.reads) := by
  refine ⟨?_, ?_, ?_⟩
  · -- process 1 stores to its shared page, process 0 reads the byte
    have hrun : Run CowStep (onePages [(.mmap, some 7), (.shared, some 7)] (fun _ _ => 0))
        [.stored 1 0x1000 66] _ :=
      .cons (@CowStep.store _ _ ⟨100, none, fun _ => 0⟩ 1 0x1000 66 _
        ⟨_, rfl, _, List.mem_cons_self, rfl⟩ (fun f hf => nomatch hf) rfl) (.nil _)
    refine ⟨_, _, _, onePages_start (by decide), onePages_aligned, fun _ _ _ => rfl, hrun, ?_⟩
    intro hshows
    exact absurd (hshows 0 _ rfl _ List.mem_cons_self (by decide) 0x1000 rfl) (by decide)
  · -- a store to the second half brings in a new page for both
    have hrun : Run CowStep ⟨[halfPages].map forked, fun f _ => if f = 7 then 65 else 0⟩
        [.stored 0 0x1900 66] _ :=
      .cons (@CowStep.store _ _ ⟨100, some 8, fun _ => 0⟩ 0 0x1900 66 _
        ⟨_, rfl, _, List.mem_cons_of_mem _ List.mem_cons_self, rfl⟩
        (fun f hf => by cases hf; rfl) rfl) (.nil _)
    refine ⟨_, _, _, cowStart_forked ?_ ?_ ?_ ?_, ?_, sharersReadOnly_forked ?_ ?_, hrun, ?_⟩
    · intro m hm
      rw [List.mem_singleton.mp hm]
      exact halfPages_separate
    · decide
    · decide
    · intro m hm a ha hshared
      rw [List.mem_singleton.mp hm] at ha
      have hnone : ∀ a ∈ halfPages.areas, ¬ a.mtype.IsShared := by decide
      exact absurd hshared (hnone a ha)
    · intro f hf o
      refine if_neg (fun h7 => ?_)
      rw [h7] at hf
      exact absurd hf (by decide)
    · decide
    · decide
    · intro hshows
      exact absurd (hshows 0 _ rfl _ List.mem_cons_self (by decide) 0x1000 rfl) (by decide)
  · -- the first store to a page shows what the frame held before
    have hrun : Run CowStep (onePages [(.mmap, none)] (fun _ _ => 9)) [.stored 0 0x1001 66] _ :=
      .cons (@CowStep.store _ _ ⟨100, some 8, fun _ => 0⟩ 0 0x1001 66 _
        ⟨_, rfl, _, List.mem_cons_self, rfl⟩ (fun f hf => by cases hf; rfl) rfl) (.nil _)
    refine ⟨_, _, _, onePages_start (by decide), onePages_aligned, onePages_sharers (by decide),
      hrun, ?_⟩
    intro hshows
    exact absurd (hshows 0 _ rfl _ List.mem_cons_self (by decide) 0x1000 rfl) (by decide)

end Sys

end MonkeyOS
