import MonkeyOS.Mem.MemSet
import Mathlib.Data.List.Nodup

/-!
# MonkeyOS — resident pages and the page table

The trackers of a `MemSet` and the entries of the page table are changed in different places
of the kernel. `MemSet.WF` is what the areas keep (disjoint, aligned, one tracker for a page)
and `PageTable.AgreesOn` is what links them to the page table. The three ways the kernel
changes both are here, once:

* `AgreesOn.mapPage` — a page is mapped to the frame its tracker holds now;
* `WF.push`, `AgreesOn.push` — an area is added with its frames;
* `WF.subArea`, `AgreesOn.subArea` — a range is taken out, if no area it splits has a resident
  page from its start on (`MemSet.CutsNone`).
-/

namespace MonkeyOS

/-- All trackers of a `MemSet`. -/
def MemSet.trackers (m : MemSet) : List MapTrack := m.areas.flatMap (·.mtrackers)

/-! ## Well-formed areas and their page table -/

/-- Disjoint, page-aligned areas with at most one tracker for a page. -/
structure MemSet.WF (m : MemSet) : Prop where
  separate : m.Separate
  aligned : ∀ a ∈ m.areas, a.Aligned
  pages : ∀ t ∈ m.trackers, t.vaddr % pageSize = 0
  nodup : (m.trackers.map (·.vaddr)).Nodup

/-- On the pages of `D` the page table maps what the trackers hold, and nothing else. -/
def PageTable.AgreesOn (D : Nat → Prop) (pt : PageTable) (m : MemSet) : Prop :=
  ∀ v, D v → ∀ f, (∃ flags, pt v = some ⟨f, flags⟩) ↔ ∃ t ∈ m.trackers, t.vaddr = v ∧ t.tracker = f

theorem floor_mod (vaddr : Nat) : floor vaddr % pageSize = 0 := Nat.mul_mod_left _ _

theorem floor_le (vaddr : Nat) : floor vaddr ≤ vaddr := Nat.div_mul_le_self _ _

variable {pt : PageTable} {m : MemSet} {a : MemArea} {v : Nat} {D : Nat → Prop} {ts : List MapTrack}
  {t : MapTrack}

/-- The page of an address of an aligned area lies in the area. -/
theorem MemArea.contains_floor (halign : a.start % pageSize = 0) {vaddr : Nat}
    (h : a.contains vaddr = true) : a.contains (floor vaddr) = true := by
  rw [MemArea.contains_iff] at h ⊢
  have hle := floor_le vaddr
  refine ⟨?_, by omega⟩
  unfold floor
  calc a.start = a.start / pageSize * pageSize := by
        rw [Nat.div_mul_cancel (Nat.dvd_of_mod_eq_zero halign)]
    _ ≤ vaddr / pageSize * pageSize := Nat.mul_le_mul_right _ (Nat.div_le_div_right h.1)

namespace MemSet

variable {m : MemSet} {a : MemArea} {t : MapTrack} {pre post : List MemArea}

theorem mem_trackers :
    t ∈ m.trackers ↔ ∃ a ∈ m.areas, t ∈ a.mtrackers := List.mem_flatMap

theorem trackers_split (pre post : List MemArea) (a : MemArea) :
    trackers ⟨pre ++ a :: post⟩ = trackers ⟨pre⟩ ++ (a.mtrackers ++ trackers ⟨post⟩) := by
  simp [trackers]

theorem WF.nil : WF ⟨[]⟩ :=
  ⟨⟨List.Pairwise.nil, by simp⟩, by simp, by simp [trackers], by simp [trackers]⟩

theorem WF.eq_of_vaddr (hwf : m.WF) {u : MapTrack} (ht : t ∈ m.trackers) (hu : u ∈ m.trackers)
    (h : t.vaddr = u.vaddr) : t = u :=
  List.inj_on_of_nodup_map hwf.nodup ht hu h

/-- New trackers for one area, inside its bounds. -/
theorem Separate.replace {b : MemArea} (hm : Separate ⟨pre ++ a :: post⟩)
    (hstart : b.start = a.start) (hlen : b.len = a.len)
    (hin : b.Inside) : Separate ⟨pre ++ b :: post⟩ := by
  have hcontains : ∀ v, b.contains v = a.contains v := by
    intro v
    simp only [MemArea.contains, MemArea.stop, hstart, hlen]
  obtain ⟨hpre, hcons, hcross⟩ := List.pairwise_append.mp hm.disjoint
  obtain ⟨hpost, hrest⟩ := List.pairwise_cons.mp hcons
  refine ⟨List.pairwise_append.mpr ⟨hpre, List.pairwise_cons.mpr ⟨?_, hrest⟩, ?_⟩, ?_⟩
  · intro c hc v
    rw [hcontains]
    exact hpost c hc v
  · intro c hc d hd
    rcases List.mem_cons.mp hd with rfl | hd
    · intro v
      rw [hcontains]
      exact hcross c hc a List.mem_cons_self v
    · exact hcross c hc d (List.mem_cons_of_mem _ hd)
  · intro c hc
    rcases List.mem_append.mp hc with hc | hc
    · exact hm.inside c (List.mem_append_left _ hc)
    · rcases List.mem_cons.mp hc with rfl | hc
      · exact hin
      · exact hm.inside c (List.mem_append_right _ (List.mem_cons_of_mem _ hc))

/-- The same for the whole invariant: what remains to be said about the new trackers. -/
theorem WF.replace {ts : List MapTrack} (hwf : WF ⟨pre ++ a :: post⟩)
    (hin : MemArea.Inside { a with mtrackers := ts }) (hpages : ∀ t ∈ ts, t.vaddr % pageSize = 0)
    (hnodup : ((trackers ⟨pre⟩ ++ (ts ++ trackers ⟨post⟩)).map (·.vaddr)).Nodup) :
    WF ⟨pre ++ { a with mtrackers := ts } :: post⟩ := by
  refine ⟨hwf.separate.replace rfl rfl hin, ?_, ?_, by rw [trackers_split]; exact hnodup⟩
  · intro c hc
    rcases List.mem_append.mp hc with hc | hc
    · exact hwf.aligned c (List.mem_append_left _ hc)
    · rcases List.mem_cons.mp hc with rfl | hc
      · exact hwf.aligned a List.mem_append_cons_self
      · exact hwf.aligned c (List.mem_append_right _ (List.mem_cons_of_mem _ hc))
  · intro t ht
    have hold := hwf.pages t
    rw [trackers_split] at ht hold
    simp only [List.mem_append] at ht hold
    rcases ht with ht | ht | ht
    · exact hold (Or.inl ht)
    · exact hpages t ht
    · exact hold (Or.inr (Or.inr ht))

end MemSet

/-- Mapping a page to the frame its tracker holds now, when no other page has changed. -/
theorem PageTable.AgreesOn.mapPage {m' : MemSet} (hpt : pt.AgreesOn D m) (hwf : m'.WF)
    (ht : t ∈ m'.trackers)
    (hother : ∀ u : MapTrack, u.vaddr ≠ t.vaddr → (u ∈ m'.trackers ↔ u ∈ m.trackers))
    (flags : MappingFlags) : (pt.mapPage t.vaddr t.tracker flags).AgreesOn D m' := by
  intro v hv f
  unfold PageTable.mapPage
  by_cases hvt : v = t.vaddr
  · rw [if_pos hvt]
    constructor
    · rintro ⟨fl, hfl⟩
      cases hfl
      exact ⟨t, ht, hvt.symm, rfl⟩
    · rintro ⟨u, hu, huv, rfl⟩
      rw [hwf.eq_of_vaddr hu ht (huv.trans hvt)]
      exact ⟨flags, rfl⟩
  · rw [if_neg hvt, hpt v hv f]
    constructor
    · rintro ⟨u, hu, rfl, hf⟩
      exact ⟨u, (hother u hvt).mpr hu, rfl, hf⟩
    · rintro ⟨u, hu, rfl, hf⟩
      exact ⟨u, (hother u hvt).mp hu, rfl, hf⟩

/-! ## Mapping trackers -/

/-- `map` for each tracker, with one set of flags. -/
def PageTable.mapTrackers (pt : PageTable) (ts : List MapTrack) (flags : MappingFlags) :
    PageTable :=
  ts.foldl (fun pt t => pt.mapPage t.vaddr t.tracker flags) pt

theorem PageTable.mapTrackers_of_not_mem (hv : ∀ t ∈ ts, t.vaddr ≠ v) (pt : PageTable)
    (flags : MappingFlags) :
    pt.mapTrackers ts flags v = pt v := by
  induction ts generalizing pt with
  | nil => rfl
  | cons t ts ih =>
    show (pt.mapPage t.vaddr t.tracker flags).mapTrackers ts flags v = _
    rw [ih (fun u hu => hv u (List.mem_cons_of_mem _ hu))]
    exact if_neg (Ne.symm (hv t List.mem_cons_self))

theorem PageTable.mapTrackers_of_mem (hnodup : (ts.map (·.vaddr)).Nodup) (ht : t ∈ ts)
    (pt : PageTable)
    (flags : MappingFlags) : pt.mapTrackers ts flags t.vaddr = some ⟨t.tracker, flags⟩ := by
  induction ts generalizing pt with
  | nil => cases ht
  | cons u ts ih =>
    rw [List.map_cons, List.nodup_cons] at hnodup
    show (pt.mapPage u.vaddr u.tracker flags).mapTrackers ts flags t.vaddr = _
    rcases List.mem_cons.mp ht with rfl | ht
    · -- mapped first, and no later tracker has its address
      rw [mapTrackers_of_not_mem]
      · exact if_pos rfl
      · intro w hw heq
        exact hnodup.1 (heq ▸ List.mem_map_of_mem (f := fun t : MapTrack => t.vaddr) hw)
    · exact ih hnodup.2 ht _

/-- An entry is an old one, or that of a tracker. -/
theorem PageTable.mapTrackers_cases {flags : MappingFlags} {e : PTE}
    (h : pt.mapTrackers ts flags v = some e) :
    pt v = some e ∨ ∃ t ∈ ts, t.vaddr = v ∧ e = ⟨t.tracker, flags⟩ := by
  induction ts generalizing pt with
  | nil => exact .inl h
  | cons t ts ih =>
    rcases ih h with hpt | ⟨u, hu, huv⟩
    · change (if v = t.vaddr then some ⟨t.tracker, flags⟩ else pt v) = some e at hpt
      split at hpt
      · rename_i hv
        exact .inr ⟨t, List.mem_cons_self, hv.symm, (Option.some.inj hpt).symm⟩
      · exact .inl hpt
    · exact .inr ⟨u, List.mem_cons_of_mem _ hu, huv⟩

/-- Mapping pages once more to the frames they have. -/
theorem PageTable.AgreesOn.mapTrackers (hpt : pt.AgreesOn D m) (hwf : m.WF)
    (hts : ∀ t ∈ ts, t ∈ m.trackers)
    (flags : MappingFlags) : (pt.mapTrackers ts flags).AgreesOn D m := by
  induction ts generalizing pt with
  | nil => exact hpt
  | cons t ts ih =>
    exact ih (hpt.mapPage hwf (hts t List.mem_cons_self) (fun _ _ => Iff.rfl) flags)
      (fun u hu => hts u (List.mem_cons_of_mem _ hu))

/-! ## Adding an area -/

/-- No area has an address in `[s, e)`. -/
def MemSet.Free (m : MemSet) (s e : Nat) : Prop :=
  ∀ a ∈ m.areas, ∀ v, a.contains v = true → ¬ (s ≤ v ∧ v < e)

def MemSet.push (m : MemSet) (a : MemArea) : MemSet := ⟨m.areas ++ [a]⟩

namespace MemSet

variable {m : MemSet} {a : MemArea}

@[simp] theorem trackers_push : (m.push a).trackers = m.trackers ++ a.mtrackers := by
  simp [trackers, push]

/-- No page of a free range is resident. -/
theorem Free.not_mem (hwf : m.WF) {s e : Nat} (hfree : m.Free s e) {t : MapTrack}
    (ht : t ∈ m.trackers) : ¬ (s ≤ t.vaddr ∧ t.vaddr < e) := by
  obtain ⟨b, hb, htb⟩ := mem_trackers.mp ht
  exact hfree b hb _ (hwf.separate.inside b hb t htb)

theorem WF.push (hwf : m.WF) (hfree : m.Free a.start a.stop) (halign : a.Aligned)
    (hin : a.Inside) (hpages : ∀ t ∈ a.mtrackers, t.vaddr % pageSize = 0)
    (hnodup : (a.mtrackers.map (·.vaddr)).Nodup) : (m.push a).WF := by
  refine ⟨⟨?_, ?_⟩, ?_, ?_, ?_⟩
  · refine List.pairwise_append.mpr ⟨hwf.separate.disjoint, List.pairwise_singleton _ _, ?_⟩
    intro b hb c hc v hv
    rw [List.mem_singleton.mp hc, MemArea.contains_iff (a := a)] at hv
    exact hfree b hb v hv.1 hv.2
  · exact List.forall_mem_append.mpr ⟨hwf.separate.inside, by simpa using hin⟩
  · exact List.forall_mem_append.mpr ⟨hwf.aligned, by simpa using halign⟩
  · rw [trackers_push]
    exact List.forall_mem_append.mpr ⟨hwf.pages, hpages⟩
  · rw [trackers_push, List.map_append, List.nodup_append]
    refine ⟨hwf.nodup, hnodup, ?_⟩
    intro u hu v hv huv
    obtain ⟨t, ht, rfl⟩ := List.mem_map.mp hu
    obtain ⟨w, hw, rfl⟩ := List.mem_map.mp hv
    have hwin := MemArea.contains_iff.mp (hin w hw)
    exact hfree.not_mem hwf ht (by rw [huv]; exact hwin)

end MemSet

theorem PageTable.AgreesOn.push (hpt : pt.AgreesOn D m) (hwf : m.WF) (hfree : m.Free a.start a.stop)
    (hin : a.Inside) (hnodup : (a.mtrackers.map (·.vaddr)).Nodup) (flags : MappingFlags) :
    (pt.mapTrackers a.mtrackers flags).AgreesOn D (m.push a) := by
  intro v hv f
  rw [MemSet.trackers_push]
  -- a page of the new area, which no old tracker has, or a page of before
  by_cases hnew : ∃ t ∈ a.mtrackers, t.vaddr = v
  · obtain ⟨t, ht, rfl⟩ := hnew
    rw [mapTrackers_of_mem hnodup ht]
    constructor
    · rintro ⟨fl, hfl⟩
      cases hfl
      exact ⟨t, List.mem_append_right _ ht, rfl, rfl⟩
    · rintro ⟨u, hu, huv, rfl⟩
      rcases List.mem_append.mp hu with hu | hu
      · have htin := MemArea.contains_iff.mp (hin t ht)
        exact absurd (by rw [huv]; exact htin) (hfree.not_mem hwf hu)
      · rw [List.inj_on_of_nodup_map hnodup hu ht huv]
        exact ⟨flags, rfl⟩
  · have hold : ∀ t ∈ a.mtrackers, t.vaddr ≠ v := fun t ht heq => hnew ⟨t, ht, heq⟩
    rw [mapTrackers_of_not_mem hold, hpt v hv f]
    constructor
    · rintro ⟨u, hu, huv⟩
      exact ⟨u, List.mem_append_left _ hu, huv⟩
    · rintro ⟨u, hu, huv⟩
      rcases List.mem_append.mp hu with hu | hu
      · exact ⟨u, hu, huv⟩
      · exact absurd huv.1 (hold u hu)

/-! ## Taking a range out -/

/-- An area the range splits has no resident page from the range's start on. -/
def MemArea.CutsNone (a : MemArea) (s e : Nat) : Prop :=
  a.Splits s e → ∀ t ∈ a.mtrackers, t.vaddr < s

def MemSet.CutsNone (m : MemSet) (s e : Nat) : Prop := ∀ a ∈ m.areas, a.CutsNone s e

namespace MemArea

variable {a : MemArea} {s e : Nat}

/-- The trackers `sub_area` keeps of an area: those of the part that is kept (nothing of an
area that goes), and none in the part split off. -/
theorem sub_trackers (hin : a.Inside) (hse : s ≤ e) (hcut : a.CutsNone s e) :
    (a.sub s e).area.mtrackers = a.mtrackers.filter (fun t => !inRange s e t.vaddr)
      ∧ ((a.sub s e).area.len = 0 → (a.sub s e).area.mtrackers = [])
      ∧ (∀ b, (a.sub s e).split = some b → b.mtrackers = [])
      ∧ (a.sub s e).unmapped
        = (a.mtrackers.filter (fun t => inRange s e t.vaddr)).map (·.vaddr) := by
  by_cases h : a.Splits s e
  · obtain ⟨harea, hsplit, hunmapped⟩ := sub_of_splits h
    have hbefore := hcut h
    have hout : ∀ t ∈ a.mtrackers, inRange s e t.vaddr = false := by
      intro t ht
      have hlt := hbefore t ht
      rw [← Bool.not_eq_true, inRange_iff]
      omega
    have hfront : ∀ t ∈ a.mtrackers, inRange e a.stop t.vaddr = false := by
      intro t ht
      have hlt := hbefore t ht
      rw [← Bool.not_eq_true, inRange_iff]
      omega
    rw [harea, hsplit, hunmapped]
    refine ⟨?_, ?_, ?_, ?_⟩
    · exact List.filter_congr (fun t ht => by rw [hfront t ht, hout t ht])
    · -- nothing is kept when the range starts with the area
      intro hlen
      have hlen : s - a.start = 0 := hlen
      refine List.filter_eq_nil_iff.mpr (fun t ht => ?_)
      have hlt := hbefore t ht
      have hin' := contains_iff.mp (hin t ht)
      omega
    · intro b hb
      cases hb
      rfl
    · rw [List.filter_eq_nil_iff.mpr (fun t ht => by simp [hout t ht])]
      rfl
  · have hwithout := sub_of_not_splits hin hse h
    refine ⟨hwithout.mtrackers, ?_, ?_, hwithout.unmapped⟩
    · intro hlen
      rw [hwithout.mtrackers]
      refine List.filter_eq_nil_iff.mpr (fun t ht => ?_)
      intro hout
      rw [Bool.not_eq_true', ← Bool.not_eq_true, inRange_iff] at hout
      exact contains_len_ne_zero ((hwithout.contains t.vaddr).mpr ⟨hin t ht, hout⟩) hlen
    · intro b hb
      rw [hwithout.split] at hb
      cases hb

variable {v : Nat} {b : MemArea}

theorem Piece.aligned (hin : a.Inside) (hse : s ≤ e) (halign : a.Aligned) (hs : s % pageSize = 0)
    (he : e % pageSize = 0) (hb : a.Piece s e b) :
    b.Aligned := by
  by_cases h : a.Splits s e
  · have hstart := inRange_iff.mp h.start
    have hstop := inRange_iff.mp h.stop
    unfold Aligned stop pageSize at *
    rcases h.piece_iff.mp hb with ⟨rfl, -⟩ | rfl
    · simp only
      omega
    · simp only [stop]
      omega
  · have hwithout := sub_of_not_splits hin hse h
    obtain ⟨rfl, -⟩ := hwithout.piece_iff.mp hb
    exact hwithout.aligned hs he halign

/-- The part kept and the part split off have no address in common. -/
theorem sub_area_split_disjoint (hin : a.Inside) (hse : s ≤ e)
    (hb : (a.sub s e).split = some b) : (a.sub s e).area.Disjoint b := by
  by_cases h : a.Splits s e
  · obtain ⟨harea, hsplit, -⟩ := sub_of_splits h
    have hstart := inRange_iff.mp h.start
    rw [hsplit] at hb
    cases hb
    intro v
    rw [harea]
    simp only [contains_iff, stop]
    omega
  · rw [(sub_of_not_splits hin hse h).split] at hb
    cases hb

theorem sub_area_covers (hin : a.Inside) (hse : s ≤ e)
    (hv : (a.sub s e).area.contains v = true) : a.contains v = true :=
  (Piece.covers hin hse (Or.inl ⟨rfl, contains_len_ne_zero hv⟩) hv).1

theorem sub_split_covers (hin : a.Inside) (hse : s ≤ e) (hb : (a.sub s e).split = some b)
    (hv : b.contains v = true) :
    a.contains v = true :=
  (Piece.covers hin hse (Or.inr hb) hv).1

end MemArea

namespace MemSet

open MemArea

variable {m : MemSet} {s e : Nat}

/-- A part of an area shares no address with a part of another one. -/
theorem subArea_disjoint (hm : m.Separate) (hse : s ≤ e) :
    (m.subArea s e).areas.Pairwise MemArea.Disjoint := by
  unfold subArea ofResults
  simp only [List.map_map]
  refine List.pairwise_append.mpr ⟨?_, ?_, ?_⟩
  · refine List.Pairwise.filter _ (List.pairwise_map.mpr ?_)
    refine hm.disjoint.imp_of_mem ?_
    intro a b ha hb hab v hv
    exact hab v ⟨sub_area_covers (hm.inside a ha) hse hv.1, sub_area_covers (hm.inside b hb) hse hv.2⟩
  · rw [List.pairwise_filterMap, List.pairwise_map]
    refine hm.disjoint.imp_of_mem ?_
    intro a b ha hb hab c hc d hd v hv
    exact hab v ⟨sub_split_covers (hm.inside a ha) hse hc hv.1,
      sub_split_covers (hm.inside b hb) hse hd hv.2⟩
  · -- a kept part and a split-off one: of one area, or of two
    intro c hc d hd v hv
    obtain ⟨a, ha, rfl⟩ := List.mem_map.mp (List.mem_filter.mp hc).1
    obtain ⟨r, hr, hd⟩ := List.mem_filterMap.mp hd
    obtain ⟨b, hb, rfl⟩ := List.mem_map.mp hr
    have hab : a = b := hm.eq_of_contains ha hb (sub_area_covers (hm.inside a ha) hse hv.1)
      (sub_split_covers (hm.inside b hb) hse hd hv.2)
    subst hab
    exact sub_area_split_disjoint (hm.inside a ha) hse hd v hv

/-- Exactly the pages in the range go. -/
theorem trackers_subArea (hm : m.Separate) (hse : s ≤ e) (hcut : m.CutsNone s e) :
    (m.subArea s e).trackers = m.trackers.filter (fun t => !inRange s e t.vaddr) := by
  have hall : ∀ a ∈ m.areas, a.Inside ∧ a.CutsNone s e := fun a ha => ⟨hm.inside a ha, hcut a ha⟩
  unfold subArea ofResults trackers
  rw [List.flatMap_append, List.map_map, List.filter_flatMap]
  -- the parts split off have no trackers, so those of the kept parts are all
  have hsplit : ((m.areas.map (·.sub s e)).filterMap (·.split)).flatMap
      (·.mtrackers) = [] := by
    refine List.flatMap_eq_nil_iff.mpr (fun b hb => ?_)
    obtain ⟨r, hr, hb⟩ := List.mem_filterMap.mp hb
    obtain ⟨a, ha, rfl⟩ := List.mem_map.mp hr
    exact (sub_trackers (hall a ha).1 hse (hall a ha).2).2.2.1 b hb
  rw [hsplit, List.append_nil]
  generalize m.areas = areas at hall
  induction areas with
  | nil => rfl
  | cons a areas ih =>
    obtain ⟨hin, hcuta⟩ := hall a List.mem_cons_self
    obtain ⟨hkept, hgone, -, -⟩ := sub_trackers hin hse hcuta
    rw [List.flatMap_cons, ← ih (fun b hb => hall b (List.mem_cons_of_mem _ hb)), ← hkept,
      List.map_cons]
    by_cases hlen : (a.sub s e).area.len = 0
    · rw [List.filter_cons_of_neg (by simpa using hlen), hgone hlen, List.nil_append]
    · rw [List.filter_cons_of_pos (by simpa using hlen), List.flatMap_cons]
      rfl

theorem unmapped_subArea (hm : m.Separate) (hse : s ≤ e) (hcut : m.CutsNone s e) :
    m.areas.flatMap (fun a => (a.sub s e).unmapped)
      = (m.trackers.filter (fun t => inRange s e t.vaddr)).map (·.vaddr) := by
  unfold trackers
  rw [List.filter_flatMap, List.map_flatMap]
  refine List.flatMap_congr (fun a ha => ?_)
  exact (sub_trackers (hm.inside a ha) hse (hcut a ha)).2.2.2

theorem WF.subArea (hwf : m.WF) (hse : s ≤ e) (hs : s % pageSize = 0) (he : e % pageSize = 0)
    (hcut : m.CutsNone s e) : (m.subArea s e).WF := by
  have htrackers := trackers_subArea hwf.separate hse hcut
  refine ⟨⟨subArea_disjoint hwf.separate hse, ?_⟩, ?_, ?_, ?_⟩
  · -- a tracker that is left lies in the area that keeps it
    intro b hb t ht
    obtain ⟨a, ha, hpiece⟩ := mem_subArea.mp hb
    have hain := hwf.separate.inside a ha
    obtain ⟨hkept, -, hsplit, -⟩ := sub_trackers hain hse (hcut a ha)
    rcases hpiece with ⟨rfl, -⟩ | hpiece
    · rw [hkept, List.mem_filter, Bool.not_eq_true', ← Bool.not_eq_true, inRange_iff] at ht
      by_cases h : a.Splits s e
      · have hlt := hcut a ha h t ht.1
        have htin := contains_iff.mp (hain t ht.1)
        rw [(sub_of_splits h).1]
        simp only [contains_iff, stop]
        omega
      · exact ((sub_of_not_splits hain hse h).contains t.vaddr).mpr ⟨hain t ht.1, ht.2⟩
    · rw [hsplit b hpiece] at ht
      cases ht
  · intro b hb
    obtain ⟨a, ha, hpiece⟩ := mem_subArea.mp hb
    exact hpiece.aligned (hwf.separate.inside a ha) hse (hwf.aligned a ha) hs he
  · rw [htrackers]
    exact fun t ht => hwf.pages t (List.mem_filter.mp ht).1
  · rw [htrackers]
    exact hwf.nodup.sublist (List.filter_sublist.map _)

/-- What the range covered is free now. -/
theorem free_subArea (hm : m.Separate) (hse : s ≤ e) : (m.subArea s e).Free s e := by
  intro b hb v hv
  obtain ⟨a, ha, hpiece⟩ := mem_subArea.mp hb
  exact (hpiece.covers (hm.inside a ha) hse hv).2

theorem free_of_not_overlapping (h : m.overlapping s e = false) : m.Free s e := by
  intro a ha v hv
  have hmiss := List.any_eq_false.mp h a ha
  rw [overlapping_iff] at hmiss
  rw [contains_iff] at hv
  omega

end MemSet

theorem PageTable.AgreesOn.subArea {s e : Nat} (hpt : pt.AgreesOn D m) (hm : m.Separate)
    (hse : s ≤ e) (hcut : m.CutsNone s e) :
    (m.subAreaPt s e pt).AgreesOn D (m.subArea s e) := by
  intro v hv f
  unfold MemSet.subAreaPt
  rw [unmapPages_apply, MemSet.unmapped_subArea hm hse hcut, MemSet.trackers_subArea hm hse hcut]
  by_cases hgone : v ∈ (m.trackers.filter (fun t => inRange s e t.vaddr)).map (·.vaddr)
  · rw [if_pos hgone]
    obtain ⟨t, ht, rfl⟩ := List.mem_map.mp hgone
    have hin := (List.mem_filter.mp ht).2
    constructor
    · rintro ⟨fl, hfl⟩
      cases hfl
    · rintro ⟨u, hu, huv, -⟩
      have hout := (List.mem_filter.mp hu).2
      rw [huv, hin] at hout
      cases hout
  · rw [if_neg hgone, hpt v hv f]
    constructor
    · rintro ⟨t, ht, rfl, hf⟩
      refine ⟨t, List.mem_filter.mpr ⟨ht, ?_⟩, rfl, hf⟩
      rw [Bool.not_eq_true', ← Bool.not_eq_true]
      exact fun hin => hgone (List.mem_map.mpr ⟨t, List.mem_filter.mpr ⟨ht, hin⟩, rfl⟩)
    · rintro ⟨t, ht, htv⟩
      exact ⟨t, (List.mem_filter.mp ht).1, htv⟩

end MonkeyOS
