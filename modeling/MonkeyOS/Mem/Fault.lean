import MonkeyOS.Lib.First
import MonkeyOS.Mem.Resident

/-!
# MonkeyOS — page faults (`kernel/src/user/mod.rs`, `user_cow_int`)

The fault handler, for an address that some area covers. It looks up the page's tracker and

* refuses (SIGSEGV) for a resident page of a `Shared` area,
* copies the frame when the tracker is not its only holder,
* maps the frame again, writable, when it is,
* and brings in a new frame when the page has no tracker.

`Faulted` says once what a fault can do (`userCowInt_faulted`); that it keeps the areas well
formed (`Faulted.wf`) and the page table in step with the trackers (`Faulted.agreesOn`) is
proved from it. What becomes of the frames' bytes is left to the caller, as a `FaultEffect`.
-/

namespace MonkeyOS

open Lib

/-! ## `user_cow_int` on a covered address -/

/-- What the handler asks of the rest of the kernel. -/
structure FaultEnv where
  /-- `Arc::strong_count` of the tracker that holds a frame -/
  strongCount : Nat → Nat
  /-- `get_free_pages()` -/
  freePages : Nat
  /-- what `frame_alloc()` answers -/
  frame : Option Nat

inductive FaultEffect where
  /-- SIGSEGV is added, nothing else happens -/
  | segv
  | remapped
  | copied (src dst : Nat)
  /-- a new frame, filled from the file at the offset if there is one -/
  | filled (frame : Nat) (source : Option (Nat × Nat))
  deriving DecidableEq

structure FaultResult where
  memset : MemSet
  pt : PageTable
  effect : FaultEffect

def urw : MappingFlags := ⟨true, true, false⟩

def urwx : MappingFlags := ⟨true, true, true⟩

def urx : MappingFlags := ⟨true, false, true⟩

def MemArea.faultFlags (a : MemArea) (vaddr : Nat) : MappingFlags :=
  if a.mtype = .mmap ∧ vaddr ≥ 0x200000000 then urw else urwx

/-- The area that covers `vaddr`, changed by `f`. -/
def MemSet.modifyArea (m : MemSet) (vaddr : Nat) (f : MemArea → MemArea) : MemSet :=
  ⟨(updateFirst (·.contains vaddr) f m.areas).getD m.areas⟩

/-- `map_track.tracker = Arc::new(dst)` for the tracker of the page. -/
def MemArea.setTracker (a : MemArea) (page dst : Nat) : MemArea :=
  { a with mtrackers := (updateFirst (·.vaddr == page)
      (fun t => { t with tracker := dst }) a.mtrackers).getD a.mtrackers }

/-- `user_cow_int`; `none` when no area covers the address. -/
def userCowInt (m : MemSet) (pt : PageTable) (env : FaultEnv) (vaddr : Nat) : Option FaultResult :=
  match m.areas.find? (·.contains vaddr) with
  | none => none
  | some area =>
    match area.mtrackers.find? (fun t => t.vaddr == floor vaddr) with
    | some mapTrack =>
      if area.mtype = .shared then some ⟨m, pt, .segv⟩
      else if env.strongCount mapTrack.tracker > 1 then
        match env.frame with
        | none => some ⟨m, pt, .segv⟩
        | some dst => some
          { memset := m.modifyArea vaddr (fun a => a.setTracker (floor vaddr) dst)
            pt := pt.mapPage (floor vaddr) dst (area.faultFlags vaddr)
            effect := .copied mapTrack.tracker dst }
      else some
        { memset := m
          pt := pt.mapPage (floor vaddr) mapTrack.tracker (area.faultFlags vaddr)
          effect := .remapped }
    | none =>
      if env.freePages < 10 then some ⟨m, pt, .segv⟩
      else
        match env.frame with
        | none => some ⟨m, pt, .segv⟩
        | some frame =>
          let fileOffset := (area.offset + (floor vaddr + 2 ^ 64 - area.start)) % 2 ^ 64
          some
            { memset := m.modifyArea vaddr (fun a =>
                { a with mtrackers := a.mtrackers ++ [⟨floor vaddr, frame, 0b111⟩] })
              pt := pt.mapPage (floor vaddr) frame (area.faultFlags vaddr)
              effect := .filled frame (area.file.map (fun file => (file, fileOffset))) }

/-! ## What a fault can do -/

/-- A fault at `vaddr`, in the area `a` that covers it. -/
inductive Faulted (pre post : List MemArea) (a : MemArea) (pt : PageTable) (env : FaultEnv)
    (vaddr : Nat) : FaultResult → Prop where
  | segv : Faulted pre post a pt env vaddr ⟨⟨pre ++ a :: post⟩, pt, .segv⟩
  | remapped {t : MapTrack} (ht : t ∈ a.mtrackers) (hvaddr : t.vaddr = floor vaddr)
      (hmtype : a.mtype ≠ .shared) (hcount : env.strongCount t.tracker ≤ 1) :
      Faulted pre post a pt env vaddr
        ⟨⟨pre ++ a :: post⟩, pt.mapPage (floor vaddr) t.tracker (a.faultFlags vaddr), .remapped⟩
  | copied {tpre tpost : List MapTrack} {t : MapTrack} {dst : Nat}
      (hsplit : a.mtrackers = tpre ++ t :: tpost) (hvaddr : t.vaddr = floor vaddr)
      (hmtype : a.mtype ≠ .shared) (hcount : 1 < env.strongCount t.tracker)
      (hframe : env.frame = some dst) :
      Faulted pre post a pt env vaddr
        ⟨⟨pre ++ { a with mtrackers := tpre ++ { t with tracker := dst } :: tpost } :: post⟩,
          pt.mapPage (floor vaddr) dst (a.faultFlags vaddr), .copied t.tracker dst⟩
  | filled {frame : Nat} {source : Option (Nat × Nat)}
      (hnone : ∀ t ∈ a.mtrackers, t.vaddr ≠ floor vaddr) (hframe : env.frame = some frame)
      (hsource : a.file = none → source = none) :
      Faulted pre post a pt env vaddr
        ⟨⟨pre ++ { a with mtrackers := a.mtrackers ++ [⟨floor vaddr, frame, 0b111⟩] } :: post⟩,
          pt.mapPage (floor vaddr) frame (a.faultFlags vaddr), .filled frame source⟩

/-- The area found is the one that is changed. -/
theorem MemSet.modifyArea_of_find? {m : MemSet} {vaddr : Nat} {a : MemArea}
    (h : m.areas.find? (·.contains vaddr) = some a) (f : MemArea → MemArea) :
    ∃ pre post, m.areas = pre ++ a :: post ∧ a.contains vaddr = true
      ∧ m.modifyArea vaddr f = ⟨pre ++ f a :: post⟩ := by
  obtain ⟨pre, post, hareas, ha, hup⟩ := updateFirst_of_find? (f := f) h
  refine ⟨pre, post, hareas, ha, ?_⟩
  unfold modifyArea
  rw [hup]
  rfl

theorem userCowInt_faulted {m : MemSet} {pt : PageTable} {env : FaultEnv} {vaddr : Nat}
    {r : FaultResult} (h : userCowInt m pt env vaddr = some r) :
    ∃ pre a post, m.areas = pre ++ a :: post ∧ a.contains vaddr = true
      ∧ Faulted pre post a pt env vaddr r := by
  unfold userCowInt at h
  cases hfind : m.areas.find? (·.contains vaddr) with
  | none =>
    rw [hfind] at h
    cases h
  | some a =>
    rw [hfind] at h
    have hmodify := MemSet.modifyArea_of_find? hfind
    obtain ⟨pre, post, hareas, ha, -⟩ := hmodify id
    have hm : m = ⟨pre ++ a :: post⟩ := by rw [← hareas]
    simp only at h
    split at h
    · rename_i t ht
      have hmem := List.mem_of_find?_eq_some ht
      have hvaddr : t.vaddr = floor vaddr := by simpa using List.find?_some ht
      split at h
      · cases h
        exact ⟨pre, a, post, hareas, ha, hm ▸ .segv⟩
      rename_i hmtype
      split at h
      · rename_i hcount
        split at h
        · cases h
          exact ⟨pre, a, post, hareas, ha, hm ▸ .segv⟩
        rename_i dst hframe
        cases h
        obtain ⟨pre, post, hareas, ha, hset⟩ := hmodify (fun a => a.setTracker (floor vaddr) dst)
        obtain ⟨tpre, tpost, htrackers, -, hup⟩ :=
          updateFirst_of_find? (f := fun t : MapTrack => { t with tracker := dst }) ht
        rw [hset, MemArea.setTracker, hup]
        exact ⟨pre, a, post, hareas, ha, .copied htrackers hvaddr hmtype hcount hframe⟩
      · rename_i hcount
        cases h
        exact ⟨pre, a, post, hareas, ha, hm ▸ .remapped hmem hvaddr hmtype (by omega)⟩
    · rename_i hnone
      have hnone : ∀ t ∈ a.mtrackers, t.vaddr ≠ floor vaddr := by
        intro t ht heq
        exact absurd (List.find?_eq_none.mp hnone t ht) (by simp [heq])
      split at h
      · cases h
        exact ⟨pre, a, post, hareas, ha, hm ▸ .segv⟩
      split at h
      · cases h
        exact ⟨pre, a, post, hareas, ha, hm ▸ .segv⟩
      rename_i frame hframe
      cases h
      obtain ⟨pre, post, hareas, ha, hset⟩ := hmodify (fun a =>
        { a with mtrackers := a.mtrackers ++ [⟨floor vaddr, frame, 0b111⟩] })
      rw [hset]
      exact ⟨pre, a, post, hareas, ha,
        .filled hnone hframe (fun hfile => by rw [hfile]; rfl)⟩

/-! ## What a fault keeps -/

section Page

variable {pre post : List MemArea} {a : MemArea} {vaddr : Nat}

/-- The area over a page gets new trackers, each at the page or at an address that had one. -/
theorem MemSet.WF.replace_page (hwf : WF ⟨pre ++ a :: post⟩) (ha : a.contains vaddr = true)
    {ts : List MapTrack}
    (hts : ∀ u ∈ ts, u.vaddr = floor vaddr ∨ ∃ w ∈ a.mtrackers, w.vaddr = u.vaddr)
    (hnodup : ((trackers ⟨pre⟩ ++ (ts ++ trackers ⟨post⟩)).map (·.vaddr)).Nodup) :
    WF ⟨pre ++ { a with mtrackers := ts } :: post⟩ := by
  have hmem : a ∈ pre ++ a :: post := List.mem_append_cons_self
  refine hwf.replace ?_ ?_ hnodup
  · intro u hu
    show a.contains u.vaddr = true
    rcases hts u hu with heq | ⟨w, hw, heq⟩
    · rw [heq]
      exact MemArea.contains_floor (hwf.aligned a hmem).1 ha
    · rw [← heq]
      exact hwf.separate.inside a hmem w hw
  · intro u hu
    rcases hts u hu with heq | ⟨w, hw, heq⟩
    · rw [heq]
      exact floor_mod vaddr
    · rw [← heq]
      exact hwf.pages w (mem_trackers.mpr ⟨a, hmem, hw⟩)

/-- A page without a tracker in its area has none at all: the other areas do not cover it. -/
theorem MemSet.WF.page_fresh (hwf : WF ⟨pre ++ a :: post⟩) (ha : a.contains vaddr = true)
    (hnone : ∀ t ∈ a.mtrackers, t.vaddr ≠ floor vaddr) :
    floor vaddr ∉ (trackers ⟨pre ++ a :: post⟩).map (·.vaddr) := by
  have hmem : a ∈ pre ++ a :: post := List.mem_append_cons_self
  have hfloor := MemArea.contains_floor (hwf.aligned a hmem).1 ha
  intro hin
  obtain ⟨u, hu, huv⟩ := List.mem_map.mp hin
  obtain ⟨b, hb, hub⟩ := mem_trackers.mp hu
  have hbu := hwf.separate.inside b hb u hub
  rw [huv] at hbu
  have hba := hwf.separate.eq_of_contains hb hmem hbu hfloor
  exact hnone u (hba ▸ hub) huv

/-- Where the areas and trackers come from when one area gets new trackers, `t` among them. -/
theorem mem_replace_origin {ts : List MapTrack} {t : MapTrack}
    (hts : ∀ u ∈ ts, u ≠ t → u ∈ a.mtrackers) :
    ∀ b ∈ pre ++ { a with mtrackers := ts } :: post,
      ∃ c ∈ pre ++ a :: post, b = { c with mtrackers := b.mtrackers }
        ∧ ∀ u ∈ b.mtrackers, u ≠ t → u ∈ c.mtrackers := by
  intro b hb
  rcases List.mem_append.mp hb with hb | hb
  · exact ⟨b, List.mem_append_left _ hb, rfl, fun u hu _ => hu⟩
  · rcases List.mem_cons.mp hb with rfl | hb
    · exact ⟨a, List.mem_append_cons_self, rfl, hts⟩
    · exact ⟨b, List.mem_append_right _ (List.mem_cons_of_mem _ hb), rfl, fun u hu _ => hu⟩

end Page

namespace Faulted

variable {pre post : List MemArea} {a : MemArea} {pt : PageTable} {env : FaultEnv} {vaddr : Nat}
  {r : FaultResult}

theorem wf (h : Faulted pre post a pt env vaddr r) (hwf : MemSet.WF ⟨pre ++ a :: post⟩)
    (ha : a.contains vaddr = true) : r.memset.WF := by
  have hnodup := hwf.nodup
  rw [MemSet.trackers_split] at hnodup
  cases h with
  | segv => exact hwf
  | remapped ht hvaddr hmtype hcount => exact hwf
  | @copied tpre tpost t dst hsplit hvaddr hmtype hcount hframe =>
    -- the addresses are the same as before
    rw [hsplit] at hnodup
    refine hwf.replace_page ha ?_ (by simpa using hnodup)
    intro u hu
    rw [hsplit]
    simp only [List.mem_append, List.mem_cons] at hu ⊢
    rcases hu with hu | rfl | hu
    · exact Or.inr ⟨u, Or.inl hu, rfl⟩
    · exact Or.inl hvaddr
    · exact Or.inr ⟨u, Or.inr (Or.inr hu), rfl⟩
  | @filled frame source hnone hframe hsource =>
    refine hwf.replace_page ha ?_ ?_
    · intro u hu
      rcases List.mem_append.mp hu with hu | hu
      · exact Or.inr ⟨u, hu, rfl⟩
      · exact Or.inl (by rw [List.mem_singleton.mp hu])
    · have hfresh := hwf.page_fresh ha hnone
      rw [MemSet.trackers_split] at hfresh
      have hperm : ∀ new : MapTrack,
          (MemSet.trackers ⟨pre⟩ ++ (a.mtrackers ++ [new] ++ MemSet.trackers ⟨post⟩)).Perm
            (new :: (MemSet.trackers ⟨pre⟩ ++ (a.mtrackers ++ MemSet.trackers ⟨post⟩))) := by
        intro new
        rw [List.append_assoc a.mtrackers, List.singleton_append, ← List.append_assoc,
          ← List.append_assoc]
        exact List.perm_middle
      rw [((hperm _).map _).nodup_iff, List.map_cons]
      exact List.nodup_cons.mpr ⟨hfresh, hnodup⟩

theorem agreesOn (h : Faulted pre post a pt env vaddr r) (hwf : MemSet.WF ⟨pre ++ a :: post⟩)
    (ha : a.contains vaddr = true) {D : Nat → Prop} (hpt : pt.AgreesOn D ⟨pre ++ a :: post⟩) :
    r.pt.AgreesOn D r.memset := by
  have hwf' := h.wf hwf ha
  cases h with
  | segv => exact hpt
  | @remapped t ht hvaddr hmtype hcount =>
    rw [← hvaddr]
    exact hpt.mapPage hwf'
      (MemSet.mem_trackers.mpr ⟨a, List.mem_append_cons_self, ht⟩)
      (fun _ _ => Iff.rfl) _
  | @copied tpre tpost t dst hsplit hvaddr hmtype hcount hframe =>
    rw [← hvaddr]
    refine hpt.mapPage hwf' (t := { t with tracker := dst }) ?_ ?_ _
    · rw [MemSet.trackers_split]
      simp
    intro u hu
    have hne : u ≠ t := fun heq => hu (by rw [heq])
    have hne' : u ≠ { t with tracker := dst } := fun heq => hu (by rw [heq])
    rw [MemSet.trackers_split, MemSet.trackers_split, hsplit]
    simp [hne, hne']
  | @filled frame source hnone hframe hsource =>
    refine hpt.mapPage hwf' (t := ⟨floor vaddr, frame, 0b111⟩) ?_ ?_ _
    · rw [MemSet.trackers_split]
      simp
    intro u hu
    have hne : u ≠ (⟨floor vaddr, frame, 0b111⟩ : MapTrack) := fun heq => hu (by rw [heq])
    rw [MemSet.trackers_split, MemSet.trackers_split]
    simp [hne]

/-- The areas keep their bounds. -/
theorem bounds (h : Faulted pre post a pt env vaddr r) :
    r.memset.areas.map (fun b => (b.start, b.len))
      = (pre ++ a :: post).map (fun b => (b.start, b.len)) := by
  cases h <;> simp

/-- Each area afterwards is one of before, with the trackers it had but for the page of the
fault. -/
theorem origin (h : Faulted pre post a pt env vaddr r) (hwf : MemSet.WF ⟨pre ++ a :: post⟩)
    (ha : a.contains vaddr = true) (heffect : r.effect ≠ .segv) :
    ∃ t : MapTrack, t ∈ r.memset.trackers ∧ t.vaddr = floor vaddr
      ∧ r.pt = pt.mapPage (floor vaddr) t.tracker (a.faultFlags vaddr)
      ∧ ∀ b ∈ r.memset.areas, ∃ c ∈ pre ++ a :: post, b = { c with mtrackers := b.mtrackers }
        ∧ ∀ u ∈ b.mtrackers, u = t ∨ u.vaddr ≠ floor vaddr ∧ u ∈ c.mtrackers := by
  have hwf' := h.wf hwf ha
  have hmem : a ∈ pre ++ a :: post := List.mem_append_cons_self
  -- the page has one tracker, so it is enough to place those of other pages
  have hplace : ∀ {t : MapTrack}, t ∈ r.memset.trackers → t.vaddr = floor vaddr →
      (∀ b ∈ r.memset.areas, ∃ c ∈ pre ++ a :: post, b = { c with mtrackers := b.mtrackers }
        ∧ ∀ u ∈ b.mtrackers, u ≠ t → u ∈ c.mtrackers) →
      ∀ b ∈ r.memset.areas, ∃ c ∈ pre ++ a :: post, b = { c with mtrackers := b.mtrackers }
        ∧ ∀ u ∈ b.mtrackers, u = t ∨ u.vaddr ≠ floor vaddr ∧ u ∈ c.mtrackers := by
    intro t ht hvaddr hrest b hb
    obtain ⟨c, hc, hbc, hu⟩ := hrest b hb
    refine ⟨c, hc, hbc, fun u hub => ?_⟩
    by_cases hut : u = t
    · exact Or.inl hut
    · refine Or.inr ⟨fun huv => hut ?_, hu u hub hut⟩
      exact hwf'.eq_of_vaddr (MemSet.mem_trackers.mpr ⟨b, hb, hub⟩) ht (huv.trans hvaddr.symm)
  cases h with
  | segv => exact absurd rfl heffect
  | @remapped t ht hvaddr hmtype hcount =>
    have htm : t ∈ MemSet.trackers ⟨pre ++ a :: post⟩ := MemSet.mem_trackers.mpr ⟨a, hmem, ht⟩
    exact ⟨t, htm, hvaddr, rfl, hplace htm hvaddr (fun b hb => ⟨b, hb, rfl, fun u hu _ => hu⟩)⟩
  | @copied tpre tpost t dst hsplit hvaddr hmtype hcount hframe =>
    have htm : ({ t with tracker := dst } : MapTrack) ∈ MemSet.trackers
        ⟨pre ++ { a with mtrackers := tpre ++ { t with tracker := dst } :: tpost } :: post⟩ := by
      rw [MemSet.trackers_split]
      simp
    refine ⟨_, htm, hvaddr, rfl, hplace htm hvaddr (mem_replace_origin ?_)⟩
    intro u hu hne
    rw [hsplit]
    simp only [List.mem_append, List.mem_cons] at hu ⊢
    rcases hu with hu | hu | hu
    · exact Or.inl hu
    · exact absurd hu hne
    · exact Or.inr (Or.inr hu)
  | @filled frame source hnone hframe hsource =>
    have htm : (⟨floor vaddr, frame, 0b111⟩ : MapTrack) ∈ MemSet.trackers
        ⟨pre ++ { a with mtrackers := a.mtrackers ++ [⟨floor vaddr, frame, 0b111⟩] } :: post⟩ := by
      rw [MemSet.trackers_split]
      simp
    refine ⟨_, htm, rfl, rfl, hplace htm rfl (mem_replace_origin ?_)⟩
    intro u hu hne
    rcases List.mem_append.mp hu with hu | hu
    · exact hu
    · exact absurd (List.mem_singleton.mp hu) hne

end Faulted

end MonkeyOS
