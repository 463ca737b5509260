import Mathlib.Data.List.Nodup
import Mathlib.Data.List.Pairwise
import Mathlib.Data.List.Perm.Lattice

/-!
# MonkeyOS — radix trees of tables in memory

A table is a frame of `k` entries. At the levels above the lowest an entry is empty or leads to
a table one level below; at level 0 the entries are the values. A key gives an index for every
level. The entries are words: `Format` says how a word tells that it leads to a table and to
which one.

* `Format.find` walks down and gives up at a missing table, `Format.make` puts the missing
  tables in, `Format.dropBelow` gives every table below one back.
* `frames` is what a tree stands on: the lemmas that end in `_congr` say that a tree is the same
  in any memory that agrees on its frames.
* `AgreeBut` is the step of every induction: a table of which one entry, or the tree below one
  entry, has changed.
* `make_grown`, `write_leaf` and `dropBelow_freed` say what putting tables in, writing a value
  and giving the tables back does, to the values and to the frames.
* `Forest` is a number of trees that share the frames with each other and with others; an
  operation on one of them is seen by no other (`Forest.confined`, `Forest.prune`).

A root table may have entries that belong to somebody else. `scan` lists, for every level, the
entries that count.
-/

namespace MonkeyOS.Lib.Radix

variable {F W : Type*} {k : Nat}

structure Format (F W : Type*) where
  empty : W
  isValid : W → Bool
  isTable : W → Bool
  newTable : F → W
  address : W → F

/-- What an entry written by `newTable` says, for the frames tables are made of. -/
structure Format.Lawful (fmt : Format F W) (Good : F → Prop) : Prop where
  isValid_empty : fmt.isValid fmt.empty = false
  isTable_empty : fmt.isTable fmt.empty = false
  isValid_newTable : ∀ f, Good f → fmt.isValid (fmt.newTable f) = true
  isTable_newTable : ∀ f, Good f → fmt.isTable (fmt.newTable f) = true
  address_newTable : ∀ f, Good f → fmt.address (fmt.newTable f) = f

/-- The entries of every frame, and the frames nobody uses. -/
structure Store (F W : Type*) (k : Nat) where
  cell : F → Fin k → W
  free : List F

namespace Store

def alloc (s : Store F W k) : Option (F × Store F W k) :=
  match s.free with
  | [] => none
  | f :: free => some (f, { s with free := free })

variable [DecidableEq F]

def write (s : Store F W k) (f : F) (i : Fin k) (w : W) : Store F W k :=
  { s with cell := fun g j => if g = f ∧ j = i then w else s.cell g j }

theorem write_self (s : Store F W k) (f : F) (i : Fin k) (w : W) :
    (s.write f i w).cell f i = w := if_pos ⟨rfl, rfl⟩

theorem write_of_ne (s : Store F W k) {f g : F} (i : Fin k) (w : W) (h : g ≠ f) :
    (s.write f i w).cell g = s.cell g :=
  funext fun _ => if_neg fun hand => h hand.1

theorem write_of_index_ne (s : Store F W k) (f : F) {i j : Fin k} (w : W) (h : j ≠ i) :
    (s.write f i w).cell f j = s.cell f j := if_neg fun hand => h hand.2

/-- A frame comes back cleared. -/
def dealloc (s : Store F W k) (empty : W) (f : F) : Store F W k :=
  { cell := fun g j => if g = f then empty else s.cell g j, free := f :: s.free }

end Store

namespace Format

variable (fmt : Format F W)

def child (cell : F → Fin k → W) (f : F) (i : Fin k) : Option F :=
  if fmt.isTable (cell f i) then some (fmt.address (cell f i)) else none

/-- The table of level 0 for a key, from the table `f` of the given level. -/
def find (cell : F → Fin k → W) (path : Nat → Fin k) : Nat → F → Option F
  | 0, f => some f
  | n + 1, f =>
    match fmt.child cell f (path (n + 1)) with
    | none => none
    | some c => find cell path n c

def entry (cell : F → Fin k → W) (path : Nat → Fin k) (n : Nat) (f : F) : W :=
  match fmt.find cell path n f with
  | none => fmt.empty
  | some t => cell t (path 0)

/-- The frames of the tables below `f`. -/
def frames (scan : Nat → List (Fin k)) (cell : F → Fin k → W) : Nat → F → List F
  | 0, _ => []
  | n + 1, f =>
    (scan (n + 1)).flatMap (fun i =>
      match fmt.child cell f i with
      | none => []
      | some c => c :: frames scan cell n c)

variable [DecidableEq F]

/-- The table an entry leads to, which is put in first if there is none. -/
def enter (s : Store F W k) (f : F) (i : Fin k) : Option (F × Store F W k) :=
  if fmt.isValid (s.cell f i) then some (fmt.address (s.cell f i), s)
  else
    match s.alloc with
    | none => none
    | some (c, s) => some (fmt.address (fmt.newTable c), s.write f i (fmt.newTable c))

def make (path : Nat → Fin k) : Nat → F → Store F W k → Option (F × Store F W k)
  | 0, f, s => some (f, s)
  | n + 1, f, s =>
    match fmt.enter s f (path (n + 1)) with
    | none => none
    | some (c, s) => make path n c s

def dropBelow (scan : Nat → List (Fin k)) : Nat → F → Store F W k → Store F W k
  | 0, _, s => s
  | n + 1, f, s =>
    (scan (n + 1)).foldl (fun s i =>
      match fmt.child s.cell f i with
      | none => s
      | some c => (dropBelow scan n c s).dealloc fmt.empty c) s

end Format

/-! ## What a tree stands on -/

section Tree

variable {fmt : Format F W} {Good : F → Prop} {scan : Nat → List (Fin k)}
  {cell cell' : F → Fin k → W} {n : Nat} {f c : F} {i : Fin k} {path : Nat → Fin k}

/-- The tree below one entry of a table of level `n + 1`. -/
def block (fmt : Format F W) (scan : Nat → List (Fin k)) (cell : F → Fin k → W) (n : Nat) (f : F)
    (i : Fin k) : List F :=
  match fmt.child cell f i with
  | none => []
  | some c => c :: fmt.frames scan cell n c

/-- Where one element's part changes, the parts before and behind stay. -/
theorem flatMap_change {α : Type*} {l : List α} (hnodup : l.Nodup) {i : α} (hi : i ∈ l)
    {p q : α → List F} (h : ∀ j ∈ l, j ≠ i → q j = p j) :
    ∃ pre post, l.flatMap p = pre ++ p i ++ post ∧ l.flatMap q = pre ++ q i ++ post := by
  obtain ⟨l, r, rfl⟩ := List.append_of_mem hi
  rw [List.nodup_middle, List.nodup_cons, List.mem_append] at hnodup
  have hsame : ∀ j, j ∈ l ∨ j ∈ r → q j = p j := by
    intro j hj
    refine h j ?_ fun heq => hnodup.1 (heq ▸ hj)
    rw [List.mem_append, List.mem_cons]
    exact hj.imp_right .inr
  refine ⟨l.flatMap p, r.flatMap p, ?_, ?_⟩
  · rw [List.flatMap_append, List.flatMap_cons, List.append_assoc]
  rw [List.flatMap_append, List.flatMap_cons, List.append_assoc,
    List.flatMap_congr fun j hj => hsame j (.inl hj),
    List.flatMap_congr fun j hj => hsame j (.inr hj)]

theorem perm_middle_free (f : List F) (pre mid post free : List F) :
    (f ++ (pre ++ mid ++ post) ++ free).Perm (f ++ (pre ++ post) ++ (mid ++ free)) := by
  simp only [List.append_assoc]
  refine .append_left f (.append_left pre ?_)
  rw [← List.append_assoc, ← List.append_assoc]
  exact List.perm_append_comm.append_right free

theorem frames_succ : fmt.frames scan cell (n + 1) f
    = (scan (n + 1)).flatMap (block fmt scan cell n f) := rfl

theorem block_none (h : fmt.child cell f i = none) : block fmt scan cell n f i = [] := by
  unfold block
  rw [h]

theorem block_some (h : fmt.child cell f i = some c) :
    block fmt scan cell n f i = c :: fmt.frames scan cell n c := by
  unfold block
  rw [h]

/-- Every entry that counts is empty or was written by `newTable`. -/
def WF (fmt : Format F W) (Good : F → Prop) (scan : Nat → List (Fin k)) (cell : F → Fin k → W) :
    Nat → F → Prop
  | 0, _ => True
  | n + 1, f => ∀ i ∈ scan (n + 1),
      cell f i = fmt.empty ∨ ∃ c, Good c ∧ cell f i = fmt.newTable c ∧ WF fmt Good scan cell n c

theorem child_empty (law : fmt.Lawful Good) (h : cell f i = fmt.empty) :
    fmt.child cell f i = none := by
  unfold Format.child
  rw [h, law.isTable_empty]
  rfl

theorem child_newTable (law : fmt.Lawful Good) (hc : Good c) (h : cell f i = fmt.newTable c) :
    fmt.child cell f i = some c := by
  unfold Format.child
  rw [h, law.isTable_newTable c hc, law.address_newTable c hc]
  rfl

theorem child_congr (h : cell' f i = cell f i) : fmt.child cell' f i = fmt.child cell f i := by
  unfold Format.child
  rw [h]

theorem mem_frames_of_block (hi : i ∈ scan (n + 1)) {g : F} (hg : g ∈ block fmt scan cell n f i) :
    g ∈ fmt.frames scan cell (n + 1) f := by
  rw [frames_succ, List.mem_flatMap]
  exact ⟨i, hi, hg⟩

/-- A memory that agrees on the frames of a tree holds the same tree. -/
theorem frames_congr (h : ∀ g ∈ f :: fmt.frames scan cell n f, cell' g = cell g) :
    fmt.frames scan cell' n f = fmt.frames scan cell n f := by
  induction n generalizing f with
  | zero => rfl
  | succ n ih =>
    rw [frames_succ, frames_succ]
    refine List.flatMap_congr fun i hi => ?_
    have hchild : fmt.child cell' f i = fmt.child cell f i :=
      child_congr (congrFun (h f List.mem_cons_self) i)
    cases hc : fmt.child cell f i with
    | none => rw [block_none hc, block_none (hchild.trans hc)]
    | some c =>
      rw [block_some hc, block_some (hchild.trans hc), ih fun g hg => ?_]
      refine h g (List.mem_cons_of_mem _ (mem_frames_of_block hi ?_))
      rwa [block_some hc]

theorem wf_congr (law : fmt.Lawful Good)
    (h : ∀ g ∈ f :: fmt.frames scan cell n f, cell' g = cell g)
    (hwf : WF fmt Good scan cell n f) : WF fmt Good scan cell' n f := by
  induction n generalizing f with
  | zero => trivial
  | succ n ih =>
    intro i hi
    rw [h f List.mem_cons_self]
    rcases hwf i hi with hempty | ⟨c, hgood, hc, hwfc⟩
    · exact .inl hempty
    · refine .inr ⟨c, hgood, hc, ih (fun g hg => ?_) hwfc⟩
      refine h g (List.mem_cons_of_mem _ (mem_frames_of_block hi ?_))
      rwa [block_some (child_newTable law hgood hc)]

/-- The indices of a key are among those that count. -/
def InScan (scan : Nat → List (Fin k)) (n : Nat) (path : Nat → Fin k) : Prop :=
  ∀ m ≤ n, path m ∈ scan m

theorem InScan.top (h : InScan scan (n + 1) path) : path (n + 1) ∈ scan (n + 1) :=
  h (n + 1) (Nat.le_refl _)

theorem InScan.below (h : InScan scan (n + 1) path) : InScan scan n path :=
  fun m hm => h m (by omega)

theorem find_succ_some (h : fmt.child cell f (path (n + 1)) = some c) :
    fmt.find cell path (n + 1) f = fmt.find cell path n c := by
  rw [Format.find, h]

theorem find_succ_none (h : fmt.child cell f (path (n + 1)) = none) :
    fmt.find cell path (n + 1) f = none := by
  rw [Format.find, h]

theorem find_succ_congr
    (hchild : fmt.child cell' f (path (n + 1)) = fmt.child cell f (path (n + 1)))
    (h : ∀ c, fmt.child cell f (path (n + 1)) = some c →
      fmt.find cell' path n c = fmt.find cell path n c) :
    fmt.find cell' path (n + 1) f = fmt.find cell path (n + 1) f := by
  cases hc : fmt.child cell f (path (n + 1)) with
  | none => rw [find_succ_none hc, find_succ_none (hchild.trans hc)]
  | some c => rw [find_succ_some hc, find_succ_some (hchild.trans hc), h c hc]

/-- The table a key leads to is one of the tree. -/
theorem find_mem (hscan : InScan scan n path) {t : F} (h : fmt.find cell path n f = some t) :
    t ∈ f :: fmt.frames scan cell n f := by
  induction n generalizing f with
  | zero =>
    cases h
    exact List.mem_cons_self
  | succ n ih =>
    cases hc : fmt.child cell f (path (n + 1)) with
    | none =>
      rw [find_succ_none hc] at h
      cases h
    | some c =>
      rw [find_succ_some hc] at h
      refine List.mem_cons_of_mem _ (mem_frames_of_block hscan.top ?_)
      rw [block_some hc]
      exact ih hscan.below h

theorem find_congr (h : ∀ g ∈ f :: fmt.frames scan cell n f, cell' g = cell g)
    (hscan : InScan scan n path) : fmt.find cell' path n f = fmt.find cell path n f := by
  induction n generalizing f with
  | zero => rfl
  | succ n ih =>
    refine find_succ_congr (child_congr (congrFun (h f List.mem_cons_self) _)) fun c hc =>
      ih (fun g hg => h g (List.mem_cons_of_mem _ (mem_frames_of_block hscan.top ?_))) hscan.below
    rwa [block_some hc]

theorem entry_eq_of_find (h : fmt.find cell' path n f = fmt.find cell path n f)
    (hcell : ∀ t, fmt.find cell path n f = some t → cell' t (path 0) = cell t (path 0)) :
    fmt.entry cell' path n f = fmt.entry cell path n f := by
  unfold Format.entry
  rw [h]
  cases ht : fmt.find cell path n f with
  | none => rfl
  | some t => exact hcell t ht

theorem entry_congr (h : ∀ g ∈ f :: fmt.frames scan cell n f, cell' g = cell g)
    (hscan : InScan scan n path) : fmt.entry cell' path n f = fmt.entry cell path n f :=
  entry_eq_of_find (find_congr h hscan) fun t ht => congrFun (h t (find_mem hscan ht)) _

/-- The entries of one table lead to trees apart from each other. -/
theorem disjoint_blocks (hnodup : (fmt.frames scan cell (n + 1) f).Nodup)
    (hi : i ∈ scan (n + 1)) {j : Fin k} (hj : j ∈ scan (n + 1)) (hij : i ≠ j) :
    List.Disjoint (block fmt scan cell n f i) (block fmt scan cell n f j) := by
  rw [frames_succ, List.nodup_flatMap] at hnodup
  have hsymm : Std.Symm (Function.onFun List.Disjoint (block fmt scan cell n f)) :=
    ⟨fun _ _ h => h.symm⟩
  exact hnodup.2.forall hi hj hij

theorem block_congr {j : Fin k} (hf : cell' f j = cell f j)
    (hg : ∀ g ∈ block fmt scan cell n f j, cell' g = cell g) :
    block fmt scan cell' n f j = block fmt scan cell n f j := by
  have hchild : fmt.child cell' f j = fmt.child cell f j := child_congr hf
  cases hc : fmt.child cell f j with
  | none => rw [block_none hc, block_none (hchild.trans hc)]
  | some c =>
    rw [block_some hc] at hg
    rw [block_some hc, block_some (hchild.trans hc), frames_congr hg]

/-- `cell'` agrees with `cell` on a table and the trees below it, but for the entry `i` and the
tree below that entry. -/
structure AgreeBut (fmt : Format F W) (scan : Nat → List (Fin k)) (cell cell' : F → Fin k → W)
    (n : Nat) (f : F) (i : Fin k) : Prop where
  here : ∀ j ∈ scan (n + 1), j ≠ i → cell' f j = cell f j
  below : ∀ j ∈ scan (n + 1), j ≠ i → ∀ g ∈ block fmt scan cell n f j, cell' g = cell g

namespace AgreeBut

variable (h : AgreeBut fmt scan cell cell' n f i)
include h

/-- The frames differ by the tree below `i` only. -/
theorem frames (hnodup : (scan (n + 1)).Nodup) (hi : i ∈ scan (n + 1)) :
    ∃ pre post, fmt.frames scan cell (n + 1) f = pre ++ block fmt scan cell n f i ++ post
      ∧ fmt.frames scan cell' (n + 1) f = pre ++ block fmt scan cell' n f i ++ post :=
  flatMap_change hnodup hi fun j hj hji => block_congr (h.here j hj hji) (h.below j hj hji)

theorem wf (law : fmt.Lawful Good) (hwf : WF fmt Good scan cell (n + 1) f)
    (hi : cell' f i = fmt.empty
      ∨ ∃ c, Good c ∧ cell' f i = fmt.newTable c ∧ WF fmt Good scan cell' n c) :
    WF fmt Good scan cell' (n + 1) f := by
  intro j hj
  by_cases hji : j = i
  · rw [hji]
    exact hi
  rw [h.here j hj hji]
  refine (hwf j hj).imp_right ?_
  rintro ⟨c, hgood, hc, hwfc⟩
  refine ⟨c, hgood, hc, wf_congr law (fun g hg => h.below j hj hji g ?_) hwfc⟩
  rwa [block_some (child_newTable law hgood hc)]

/-- A key that does not go through `i` finds what it found. -/
theorem find_of_ne (hscan : InScan scan (n + 1) path) (hne : path (n + 1) ≠ i) :
    fmt.find cell' path (n + 1) f = fmt.find cell path (n + 1) f := by
  refine find_succ_congr (child_congr (h.here _ hscan.top hne)) fun c hc =>
    find_congr (fun g hg => h.below _ hscan.top hne g ?_) hscan.below
  rwa [block_some hc]

theorem entry_of_ne (hscan : InScan scan (n + 1) path) (hne : path (n + 1) ≠ i) :
    fmt.entry cell' path (n + 1) f = fmt.entry cell path (n + 1) f := by
  refine entry_eq_of_find (h.find_of_ne hscan hne) fun t ht => ?_
  cases hc : fmt.child cell f (path (n + 1)) with
  | none =>
    rw [find_succ_none hc] at ht
    cases ht
  | some c =>
    rw [find_succ_some hc] at ht
    refine congrFun (h.below _ hscan.top hne t ?_) _
    rw [block_some hc]
    exact find_mem hscan.below ht

end AgreeBut

theorem entry_succ_some (h : fmt.child cell f (path (n + 1)) = some c) :
    fmt.entry cell path (n + 1) f = fmt.entry cell path n c := by
  unfold Format.entry
  rw [find_succ_some h]

theorem entry_succ_none (h : fmt.child cell f (path (n + 1)) = none) :
    fmt.entry cell path (n + 1) f = fmt.empty := by
  unfold Format.entry
  rw [find_succ_none h]

/-- Only the tree below the entry `i` has changed. -/
theorem AgreeBut.of_below (hnodup : (f :: fmt.frames scan cell (n + 1) f).Nodup)
    (hi : i ∈ scan (n + 1)) (hc : fmt.child cell f i = some c)
    (h : ∀ g ∈ f :: fmt.frames scan cell (n + 1) f, g ∉ c :: fmt.frames scan cell n c →
      cell' g = cell g) :
    cell' f = cell f ∧ AgreeBut fmt scan cell cell' n f i := by
  rw [List.nodup_cons] at hnodup
  have hf : cell' f = cell f := by
    refine h f List.mem_cons_self fun hmem => hnodup.1 (mem_frames_of_block hi ?_)
    rwa [block_some hc]
  refine ⟨hf, fun j _ _ => congrFun hf j, fun j hj hji g hg => ?_⟩
  refine h g (List.mem_cons_of_mem _ (mem_frames_of_block hj hg)) fun hmem => ?_
  rw [← block_some hc] at hmem
  exact disjoint_blocks hnodup.2 hi hj (Ne.symm hji) hmem hg

end Tree

/-! ## Putting tables in -/

section Make

variable {fmt : Format F W} {Good : F → Prop} {scan : Nat → List (Fin k)}
  {s s' : Store F W k} {n : Nat} {f c : F} {i : Fin k} {path : Nat → Fin k}

/-- A tree, and the frames nobody uses, which are empty. -/
structure Owned (fmt : Format F W) (Good : F → Prop) (scan : Nat → List (Fin k))
    (s : Store F W k) (n : Nat) (f : F) : Prop where
  wf : WF fmt Good scan s.cell n f
  nodup : (f :: fmt.frames scan s.cell n f ++ s.free).Nodup
  good : ∀ g ∈ s.free, Good g
  cleared : ∀ g ∈ s.free, ∀ i, s.cell g i = fmt.empty

/-- Whatever happened stayed in the tree of `f`, which grew at the expense of the free frames. -/
structure Confined (fmt : Format F W) (Good : F → Prop) (scan : Nat → List (Fin k))
    (s s' : Store F W k) (n : Nat) (f : F) : Prop where
  wf : WF fmt Good scan s'.cell n f
  perm : (f :: fmt.frames scan s'.cell n f ++ s'.free).Perm
    (f :: fmt.frames scan s.cell n f ++ s.free)
  suffix : s'.free <:+ s.free
  frame : ∀ g, g ∉ f :: fmt.frames scan s'.cell n f → s'.cell g = s.cell g
  /-- what does not count is left alone -/
  spare : ∀ j, j ∉ scan n → s'.cell f j = s.cell f j

namespace Confined

theorem refl (h : Owned fmt Good scan s n f) : Confined fmt Good scan s s n f where
  wf := h.wf
  perm := .refl _
  suffix := List.suffix_refl _
  frame _ _ := rfl
  spare _ _ := rfl

variable (h : Confined fmt Good scan s s' n f)
include h

/-- A tree grows by free frames only. -/
theorem subset {g : F} (hg : g ∈ f :: fmt.frames scan s'.cell n f) :
    g ∈ f :: fmt.frames scan s.cell n f ∨ g ∈ s.free := by
  rw [← List.mem_append]
  exact h.perm.subset (List.mem_append_left _ hg)

theorem outside {g : F} (hg : g ∉ f :: fmt.frames scan s.cell n f) (hfree : g ∉ s.free) :
    s'.cell g = s.cell g :=
  h.frame g fun hmem => (h.subset hmem).elim hg hfree

variable (howned : Owned fmt Good scan s n f)
include howned

theorem nodup : (f :: fmt.frames scan s'.cell n f ++ s'.free).Nodup :=
  h.perm.nodup_iff.mpr howned.nodup

theorem owned : Owned fmt Good scan s' n f where
  wf := h.wf
  nodup := h.nodup howned
  good g hg := howned.good g (h.suffix.subset hg)
  cleared g hg i := by
    have hnot : g ∉ f :: fmt.frames scan s'.cell n f := fun hmem =>
      (List.disjoint_of_nodup_append (h.nodup howned)) hmem hg
    rw [h.frame g hnot]
    exact howned.cleared g (h.suffix.subset hg) i

/-- No frame leaves the tree. -/
theorem superset {g : F} (hg : g ∈ f :: fmt.frames scan s.cell n f) :
    g ∈ f :: fmt.frames scan s'.cell n f := by
  have hmem := h.perm.symm.subset (List.mem_append_left s.free hg)
  rcases List.mem_append.mp hmem with hmem | hmem
  · exact hmem
  · exact absurd (h.suffix.subset hmem) fun hfree =>
      (List.disjoint_of_nodup_append howned.nodup) hg hfree

/-- The second change may touch what the first took in, which was free before. -/
theorem trans {s'' : Store F W k} (h' : Confined fmt Good scan s' s'' n f) :
    Confined fmt Good scan s s'' n f where
  wf := h'.wf
  perm := h'.perm.trans h.perm
  suffix := h'.suffix.trans h.suffix
  frame g hg := by
    rw [h'.frame g hg]
    exact h.frame g fun hmem => hg (h'.superset (h.owned howned) hmem)
  spare j hj := (h'.spare j hj).trans (h.spare j hj)

end Confined

/-- The tree below one entry. -/
theorem Owned.below (law : fmt.Lawful Good) (h : Owned fmt Good scan s (n + 1) f)
    (hi : i ∈ scan (n + 1)) (hc : fmt.child s.cell f i = some c) :
    Owned fmt Good scan s n c := by
  have hblock : (c :: fmt.frames scan s.cell n c).Sublist (fmt.frames scan s.cell (n + 1) f) := by
    rw [← block_some hc, frames_succ]
    exact (List.sublist_flatten_of_mem (List.mem_map_of_mem hi))
  refine ⟨?_, ?_, h.good, h.cleared⟩
  · rcases h.wf i hi with hempty | ⟨d, hgood, hd, hwf⟩
    · rw [child_empty law hempty] at hc
      cases hc
    · rw [child_newTable law hgood hd] at hc
      cases hc
      exact hwf
  · exact h.nodup.sublist ((hblock.trans (List.sublist_cons_self _ _)).append_right _)

/-- What stays in the tree below an entry stays in the tree. -/
theorem Confined.above (law : fmt.Lawful Good) (howned : Owned fmt Good scan s (n + 1) f)
    (hnodup : (scan (n + 1)).Nodup) (hi : i ∈ scan (n + 1)) (hgood : Good c)
    (hc : s.cell f i = fmt.newTable c) (h : Confined fmt Good scan s s' n c) :
    Confined fmt Good scan s s' (n + 1) f ∧ fmt.child s'.cell f i = some c
      ∧ AgreeBut fmt scan s.cell s'.cell n f i := by
  have hchild := child_newTable law hgood hc
  have hagree : ∀ g ∈ f :: fmt.frames scan s.cell (n + 1) f,
      g ∉ c :: fmt.frames scan s.cell n c → s'.cell g = s.cell g := by
    intro g hg hnot
    exact h.outside hnot fun hfree => List.disjoint_of_nodup_append howned.nodup hg hfree
  obtain ⟨hf, hbut⟩ := AgreeBut.of_below howned.nodup.of_append_left hi hchild hagree
  have hchild' : fmt.child s'.cell f i = some c :=
    (child_congr (congrFun hf i)).trans hchild
  obtain ⟨pre, post, hframes, hframes'⟩ := hbut.frames hnodup hi
  rw [block_some hchild] at hframes
  rw [block_some hchild'] at hframes'
  refine ⟨⟨?_, ?_, h.suffix, fun g hg => ?_, fun j _ => congrFun hf j⟩, hchild', hbut⟩
  · exact hbut.wf law howned.wf (.inr ⟨c, hgood, (congrFun hf i).trans hc, h.wf⟩)
  · rw [hframes, hframes']
    have hmove := fun mid free => perm_middle_free [f] pre mid post free
    exact (hmove _ _).trans ((h.perm.append_left _).trans (hmove _ _).symm)
  · refine h.frame g fun hmem => hg (List.mem_cons_of_mem _ ?_)
    rw [hframes']
    exact List.mem_append_left _ (List.mem_append_right _ hmem)

/-- The keys that lead to the same table of level 0. -/
def SameTable (n : Nat) (path path' : Nat → Fin k) : Prop :=
  ∀ m, 1 ≤ m → m ≤ n → path' m = path m

theorem sameTable_succ {path' : Nat → Fin k} :
    SameTable (n + 1) path path' ↔ path' (n + 1) = path (n + 1) ∧ SameTable n path path' := by
  constructor
  · exact fun h => ⟨h _ (by omega) (Nat.le_refl _), fun m hm hn => h m hm (by omega)⟩
  · rintro ⟨htop, h⟩ m hm hn
    rcases Nat.le_succ_iff.mp hn with hle | rfl
    · exact h m hm hle
    · exact htop

/-- An empty table has no tables below it, and no values. -/
theorem frames_of_empty (law : fmt.Lawful Good) (h : ∀ i, s.cell f i = fmt.empty) :
    fmt.frames scan s.cell n f = [] := by
  cases n with
  | zero => rfl
  | succ n =>
    rw [frames_succ, List.flatMap_eq_nil_iff]
    exact fun i _ => block_none (child_empty law (h i))

theorem wf_of_empty (h : ∀ i, s.cell f i = fmt.empty) : WF fmt Good scan s.cell n f := by
  cases n with
  | zero => trivial
  | succ n => exact fun i _ => .inl (h i)

theorem entry_of_empty (law : fmt.Lawful Good) (h : ∀ i, s.cell f i = fmt.empty) :
    fmt.entry s.cell path n f = fmt.empty := by
  cases n with
  | zero => exact h _
  | succ n => exact entry_succ_none (child_empty law (h _))

variable [DecidableEq F]

/-- A new table, put in where there was none. -/
theorem put_confined (law : fmt.Lawful Good) (howned : Owned fmt Good scan s (n + 1) f)
    (hnodup : (scan (n + 1)).Nodup) (hi : i ∈ scan (n + 1)) (hempty : s.cell f i = fmt.empty)
    {d : F} {free : List F} (hfree : s.free = d :: free)
    (hs' : s' = ({ s with free := free } : Store F W k).write f i (fmt.newTable d)) :
    Confined fmt Good scan s s' (n + 1) f ∧ AgreeBut fmt scan s.cell s'.cell n f i
      ∧ ∀ j, s'.cell d j = fmt.empty := by
  have hd : d ∈ s.free := hfree ▸ List.mem_cons_self
  have hgood := howned.good d hd
  have hfd : d ≠ f := fun heq =>
    List.disjoint_of_nodup_append howned.nodup List.mem_cons_self (heq ▸ hd)
  have hentry : s'.cell f i = fmt.newTable d := hs' ▸ Store.write_self _ f i _
  have hother : ∀ g, g ≠ f → s'.cell g = s.cell g := by
    intro g hg
    rw [hs', Store.write_of_ne _ _ _ hg]
  have hfree' : s'.free = free := hs' ▸ rfl
  have hdcell : ∀ j, s'.cell d j = fmt.empty := by
    intro j
    rw [hother d hfd]
    exact howned.cleared d hd j
  have hbut : AgreeBut fmt scan s.cell s'.cell n f i := by
    refine ⟨fun j _ hji => ?_, fun j hj _ g hg => hother g ?_⟩
    · rw [hs', Store.write_of_index_ne _ _ _ hji]
    · rintro rfl
      exact (List.nodup_cons.mp howned.nodup.of_append_left).1 (mem_frames_of_block hj hg)
  obtain ⟨pre, post, hframes, hframes'⟩ := hbut.frames hnodup hi
  rw [block_none (child_empty law hempty), List.append_nil] at hframes
  rw [block_some (child_newTable law hgood hentry), frames_of_empty law hdcell] at hframes'
  refine ⟨⟨?_, ?_, ?_, ?_, ?_⟩, hbut, hdcell⟩
  · exact hbut.wf law howned.wf (.inr ⟨d, hgood, hentry, wf_of_empty hdcell⟩)
  · rw [hframes, hframes', hfree', hfree]
    exact perm_middle_free [f] pre [d] post free
  · rw [hfree', hfree]
    exact List.suffix_cons _ _
  · exact fun g hg => hother g fun heq => hg (heq ▸ List.mem_cons_self)
  · intro j hj
    have hji : j ≠ i := fun heq => hj (heq ▸ hi)
    rw [hs', Store.write_of_index_ne _ _ _ hji]

/-- What `enter` does: no value changes, and no table of level 0 is found that was not, unless it
is the one put in. -/
theorem enter_spec (law : fmt.Lawful Good) (howned : Owned fmt Good scan s (n + 1) f)
    (hnodup : (scan (n + 1)).Nodup) (hi : i ∈ scan (n + 1)) (h : fmt.enter s f i = some (c, s')) :
    Confined fmt Good scan s s' (n + 1) f ∧ Good c ∧ s'.cell f i = fmt.newTable c
      ∧ ∀ path, InScan scan (n + 1) path →
        fmt.entry s'.cell path (n + 1) f = fmt.entry s.cell path (n + 1) f
        ∧ ((fmt.find s'.cell path (n + 1) f).isSome
          ↔ (fmt.find s.cell path (n + 1) f).isSome ∨ path (n + 1) = i ∧ n = 0) := by
  unfold Format.enter at h
  -- an entry is empty, and then a free frame is put in, or a table already
  rcases howned.wf _ hi with hempty | ⟨d, hgood, hd, -⟩
  · rw [hempty, law.isValid_empty, if_neg Bool.false_ne_true] at h
    unfold Store.alloc at h
    cases hfree : s.free with
    | nil =>
      rw [hfree] at h
      cases h
    | cons d free =>
      rw [hfree] at h
      obtain ⟨hdc, hs'⟩ := Prod.mk.inj (Option.some.inj h)
      have hgood := howned.good d (hfree ▸ List.mem_cons_self)
      rw [law.address_newTable d hgood] at hdc
      subst hdc
      obtain ⟨hput, hbut, hcell⟩ := put_confined law howned hnodup hi hempty hfree hs'.symm
      have hentry : s'.cell f i = fmt.newTable d := hs' ▸ Store.write_self _ _ _ _
      refine ⟨hput, hgood, hentry, fun path hpath => ?_⟩
      by_cases hpi : path (n + 1) = i
      · have hchild := child_newTable law hgood (hpi ▸ hentry)
        have hnone := child_empty law (hpi ▸ hempty)
        rw [entry_succ_some hchild, entry_succ_none hnone, find_succ_some hchild,
          find_succ_none hnone]
        refine ⟨entry_of_empty law hcell, ?_⟩
        -- the new table is found itself only if it is the last one
        cases n with
        | zero => exact iff_of_true rfl (.inr ⟨hpi, rfl⟩)
        | succ n =>
          rw [find_succ_none (child_empty law (hcell _))]
          simp
      · rw [hbut.entry_of_ne hpath hpi, hbut.find_of_ne hpath hpi]
        exact ⟨rfl, (or_iff_left fun hand => hpi hand.1).symm⟩
  · rw [hd, law.isValid_newTable d hgood, if_pos rfl, law.address_newTable d hgood] at h
    obtain ⟨rfl, rfl⟩ := Prod.mk.inj (Option.some.inj h)
    refine ⟨.refl howned, hgood, hd, fun path _ => ⟨rfl, (or_iff_left_of_imp ?_).symm⟩⟩
    rintro ⟨rfl, rfl⟩
    rw [find_succ_some (child_newTable law hgood hd)]
    rfl

/-- What putting tables in for a key does: no value changes, and there is a table of level 0 for
the key, and for no key that had none and leads elsewhere. -/
structure Grown (fmt : Format F W) (Good : F → Prop) (scan : Nat → List (Fin k))
    (s s' : Store F W k) (n : Nat) (f : F) (path : Nat → Fin k) : Prop
    extends Confined fmt Good scan s s' n f where
  entry : ∀ path', InScan scan n path' →
    fmt.entry s'.cell path' n f = fmt.entry s.cell path' n f
  find : ∀ path', InScan scan n path' → ((fmt.find s'.cell path' n f).isSome
    ↔ (fmt.find s.cell path' n f).isSome ∨ SameTable n path path')

/-- The entry of the key leads to a table after `enter`, which has grown as needed below it. -/
theorem Grown.above (law : fmt.Lawful Good) (howned : Owned fmt Good scan s (n + 1) f)
    (hnodup : (scan (n + 1)).Nodup) (hscan : InScan scan (n + 1) path) {s₁ : Store F W k}
    (h : fmt.enter s f (path (n + 1)) = some (c, s₁))
    (hbelow : Owned fmt Good scan s₁ n c → Grown fmt Good scan s₁ s' n c path) :
    Grown fmt Good scan s s' (n + 1) f path ∧ Owned fmt Good scan s₁ n c
      ∧ fmt.child s'.cell f (path (n + 1)) = some c := by
  obtain ⟨hconf, hgood, hcell, hkept⟩ := enter_spec law howned hnodup hscan.top h
  have howned₁ := hconf.owned howned
  have hchild := child_newTable law hgood hcell
  have hownedc := howned₁.below law hscan.top hchild
  have hgrown := hbelow hownedc
  obtain ⟨habove, hchild', hbut⟩ :=
    hgrown.toConfined.above law howned₁ hnodup hscan.top hgood hcell
  refine ⟨⟨hconf.trans howned habove, fun path' hpath' => ?_, fun path' hpath' => ?_⟩, hownedc,
    hchild'⟩
  · rw [← (hkept path' hpath').1]
    by_cases hpi : path' (n + 1) = path (n + 1)
    · rw [← hpi] at hchild hchild'
      rw [entry_succ_some hchild, entry_succ_some hchild']
      exact hgrown.entry path' hpath'.below
    · exact hbut.entry_of_ne hpath' hpi
  · have hfind := (hkept path' hpath').2
    rw [sameTable_succ]
    by_cases hpi : path' (n + 1) = path (n + 1)
    · have hzero : n = 0 → SameTable n path path' := fun h0 m hm hn => absurd hm (by omega)
      rw [← hpi] at hchild hchild'
      rw [find_succ_some hchild] at hfind
      rw [find_succ_some hchild', hgrown.find path' hpath'.below, hfind]
      tauto
    · rw [hbut.find_of_ne hpath' hpi, hfind]
      simp only [hpi, false_and, or_false]

/-- By induction on the level: `enter` for the top one, the rest below its table. -/
theorem make_grown (law : fmt.Lawful Good) (hnodup : ∀ m, (scan m).Nodup)
    (howned : Owned fmt Good scan s n f) (hscan : InScan scan n path) {t : F}
    (h : fmt.make path n f s = some (t, s')) :
    Grown fmt Good scan s s' n f path ∧ fmt.find s'.cell path n f = some t := by
  induction n generalizing f s with
  | zero =>
    obtain ⟨rfl, rfl⟩ := Prod.mk.inj (Option.some.inj h)
    refine ⟨⟨.refl howned, fun _ _ => rfl, fun _ _ => ?_⟩, rfl⟩
    exact iff_of_true rfl (.inl rfl)
  | succ n ih =>
    rw [Format.make] at h
    cases hent : fmt.enter s f (path (n + 1)) with
    | none =>
      rw [hent] at h
      cases h
    | some r =>
      obtain ⟨c, s₁⟩ := r
      rw [hent] at h
      obtain ⟨hgrown, hownedc, hchild⟩ := Grown.above law howned (hnodup _) hscan hent
        fun hownedc => (ih hownedc hscan.below h).1
      refine ⟨hgrown, ?_⟩
      rw [find_succ_some hchild]
      exact (ih hownedc hscan.below h).2

/-- A free frame for every level is enough. -/
theorem make_isSome (hfree : n ≤ s.free.length) : (fmt.make path n f s).isSome := by
  induction n generalizing f s with
  | zero => rfl
  | succ n ih =>
    rw [Format.make]
    unfold Format.enter Store.alloc
    split_ifs
    · exact ih (by omega)
    cases hs : s.free with
    | nil =>
      rw [hs] at hfree
      exact absurd hfree (by simp)
    | cons d free =>
      rw [hs, List.length_cons] at hfree
      exact ih (Nat.le_of_succ_le_succ hfree)

end Make

/-! ## Writing a value -/

section Write

variable [DecidableEq F] {fmt : Format F W} {Good : F → Prop} {scan : Nat → List (Fin k)}
  {s : Store F W k} {n : Nat} {f t : F} {w : W} {path : Nat → Fin k}

/-- A write to a table of level 0 changes one value and no table. -/
structure Written (fmt : Format F W) (Good : F → Prop) (scan : Nat → List (Fin k))
    (s s' : Store F W k) (n : Nat) (f : F) (path : Nat → Fin k) (w : W) : Prop
    extends Confined fmt Good scan s s' n f where
  find : ∀ path', InScan scan n path' →
    fmt.find s'.cell path' n f = fmt.find s.cell path' n f
  entry : ∀ path', InScan scan n path' → fmt.entry s'.cell path' n f
    = if ∀ m ≤ n, path' m = path m then w else fmt.entry s.cell path' n f

/-- The write is in the last table, and every level above passes it on. -/
theorem write_leaf (law : fmt.Lawful Good) (hnodup : ∀ m, (scan m).Nodup)
    (howned : Owned fmt Good scan s n f) (hscan : InScan scan n path)
    (ht : fmt.find s.cell path n f = some t) :
    Written fmt Good scan s (s.write t (path 0) w) n f path w := by
  induction n generalizing f with
  | zero =>
    obtain rfl : f = t := Option.some.inj ht
    have hframe : ∀ g, g ∉ f :: fmt.frames scan (s.write f (path 0) w).cell 0 f →
        (s.write f (path 0) w).cell g = s.cell g :=
      fun g hg => Store.write_of_ne _ _ _ fun heq => hg (heq ▸ List.mem_cons_self)
    have hspare : ∀ j, j ∉ scan 0 → (s.write f (path 0) w).cell f j = s.cell f j :=
      fun j hj => Store.write_of_index_ne _ _ _ fun heq => hj (heq ▸ hscan 0 (Nat.le_refl 0))
    refine ⟨⟨trivial, .refl _, List.suffix_refl _, hframe, hspare⟩, fun _ _ => rfl,
      fun path' _ => ?_⟩
    show (s.write f (path 0) w).cell f (path' 0) = _
    by_cases h0 : path' 0 = path 0
    · rw [h0, Store.write_self, if_pos]
      intro m hm
      rw [Nat.le_zero.mp hm]
      exact h0
    · rw [Store.write_of_index_ne s f w h0, if_neg fun hall => h0 (hall 0 (Nat.le_refl 0))]
      rfl
  | succ n ih =>
    have hi := hscan.top
    rcases howned.wf _ hi with hempty | ⟨c, hgood, hc, -⟩
    · rw [find_succ_none (child_empty law hempty)] at ht
      cases ht
    · have hchild := child_newTable law hgood hc
      rw [find_succ_some hchild] at ht
      have hwritten := ih (howned.below law hi hchild) hscan.below ht
      obtain ⟨habove, hchild', hbut⟩ :=
        hwritten.toConfined.above law howned (hnodup _) hi hgood hc
      refine ⟨habove, fun path' hpath' => ?_, fun path' hpath' => ?_⟩
      · by_cases hpi : path' (n + 1) = path (n + 1)
        · rw [← hpi] at hchild hchild'
          rw [find_succ_some hchild, find_succ_some hchild']
          exact hwritten.find path' hpath'.below
        · exact hbut.find_of_ne hpath' hpi
      · by_cases hpi : path' (n + 1) = path (n + 1)
        · rw [← hpi] at hchild hchild'
          rw [entry_succ_some hchild, entry_succ_some hchild', hwritten.entry path' hpath'.below]
          refine if_congr ⟨fun hall m hm => ?_, fun hall m hm => hall m (by omega)⟩ rfl rfl
          rcases Nat.le_succ_iff.mp hm with hle | rfl
          · exact hall m hle
          · exact hpi
        · rw [if_neg fun hall => hpi (hall (n + 1) (Nat.le_refl _))]
          exact hbut.entry_of_ne hpath' hpi

end Write

/-! ## Giving the tables back -/

section Drop

variable [DecidableEq F] {fmt : Format F W} {Good : F → Prop} {scan : Nat → List (Fin k)}
  {n : Nat} {f : F}

/-- The frames of `gone` have come back, cleared. -/
structure Freed (fmt : Format F W) (s s' : Store F W k) (gone : List F) : Prop where
  free : s'.free.Perm (gone ++ s.free)
  cell : ∀ g j, s'.cell g j = if g ∈ gone then fmt.empty else s.cell g j

theorem Freed.refl (s : Store F W k) : Freed fmt s s [] where
  free := .refl _
  cell _ _ := (if_neg List.not_mem_nil).symm

theorem Freed.trans {s s' s'' : Store F W k} {gone gone' : List F} (h : Freed fmt s s' gone)
    (h' : Freed fmt s' s'' gone') : Freed fmt s s'' (gone ++ gone') where
  free := by
    refine h'.free.trans ((h.free.append_left gone').trans ?_)
    rw [← List.append_assoc]
    exact List.perm_append_comm.append_right _
  cell g j := by
    rw [h'.cell, h.cell]
    by_cases hg : g ∈ gone
    · rw [if_pos hg, ite_self, if_pos (List.mem_append_left _ hg)]
    by_cases hg' : g ∈ gone'
    · rw [if_pos hg', if_pos (List.mem_append_right _ hg')]
    rw [if_neg hg', if_neg hg, if_neg]
    rw [List.mem_append]
    exact fun hor => hor.elim hg hg'

theorem Freed.dealloc (s : Store F W k) (f : F) : Freed fmt s (s.dealloc fmt.empty f) [f] where
  free := .refl _
  cell g j := by
    show (if g = f then fmt.empty else s.cell g j) = _
    simp only [List.mem_singleton]

theorem Freed.of_perm {s s' : Store F W k} {gone gone' : List F} (h : Freed fmt s s' gone)
    (hperm : gone.Perm gone') : Freed fmt s s' gone' where
  free := h.free.trans (hperm.append_right _)
  cell g j := by
    rw [h.cell]
    exact if_congr hperm.mem_iff rfl rfl

/-- Each table below comes back once, its own tables before it. -/
theorem dropBelow_freed (law : fmt.Lawful Good) {s : Store F W k}
    (hwf : WF fmt Good scan s.cell n f) (htree : (f :: fmt.frames scan s.cell n f).Nodup) :
    Freed fmt s (fmt.dropBelow scan n f s) (fmt.frames scan s.cell n f) := by
  induction n generalizing f s with
  | zero => exact .refl s
  | succ n ih =>
    -- the loop over the entries: what is left of the list still stands
    have hloop : ∀ (l : List (Fin k)) (s : Store F W k),
        (∀ i ∈ l, s.cell f i = fmt.empty
          ∨ ∃ c, Good c ∧ s.cell f i = fmt.newTable c ∧ WF fmt Good scan s.cell n c) →
        (f :: l.flatMap (block fmt scan s.cell n f)).Nodup →
        Freed fmt s (l.foldl (fun s i =>
          match fmt.child s.cell f i with
          | none => s
          | some c => (fmt.dropBelow scan n c s).dealloc fmt.empty c) s)
          (l.flatMap (block fmt scan s.cell n f)) := by
      intro l
      induction l with
      | nil => exact fun s _ _ => .refl s
      | cons i l ihl =>
        intro s hwf hnodup
        rw [List.foldl_cons, List.flatMap_cons]
        rw [List.flatMap_cons] at hnodup
        rcases hwf i List.mem_cons_self with hempty | ⟨c, hgood, hc, hwfc⟩
        · have hchild := child_empty law hempty
          rw [block_none hchild, List.nil_append] at hnodup ⊢
          simp only [hchild]
          exact ihl s (fun j hj => hwf j (List.mem_cons_of_mem _ hj)) hnodup
        · have hchild := child_newTable law hgood hc
          have hblock : block fmt scan s.cell n f i = c :: fmt.frames scan s.cell n c :=
            block_some hchild
          rw [hblock] at hnodup ⊢
          simp only [hchild]
          have hnodup' := List.nodup_cons.mp hnodup
          have hdisj := List.disjoint_of_nodup_append hnodup'.2
          have hstep := (ih hwfc hnodup'.2.of_append_left).trans (.dealloc _ c)
          have hstep := hstep.of_perm (List.perm_append_singleton _ _)
          generalize (fmt.dropBelow scan n c s).dealloc fmt.empty c = s₁ at hstep
          -- what is left of the list is not among the frames that came back
          have hkeep : ∀ g, g ∉ c :: fmt.frames scan s.cell n c → s₁.cell g = s.cell g := by
            intro g hg
            funext j
            rw [hstep.cell, if_neg hg]
          have hf := hkeep f fun hmem => hnodup'.1 (List.mem_append_left _ hmem)
          have hblocks : ∀ j ∈ l, block fmt scan s₁.cell n f j = block fmt scan s.cell n f j := by
            intro j hj
            refine block_congr (congrFun hf j) fun g hg => hkeep g fun hmem => ?_
            exact hdisj hmem (List.mem_flatMap.mpr ⟨j, hj, hg⟩)
          have hrest := ihl s₁ (fun j hj => ?_) ?_
          · rw [List.flatMap_congr hblocks] at hrest
            exact hstep.trans hrest
          · rw [hf]
            refine (hwf j (List.mem_cons_of_mem _ hj)).imp_right ?_
            rintro ⟨d, hgoodd, hd, hwfd⟩
            refine ⟨d, hgoodd, hd, wf_congr law (fun g hg => hkeep g fun hmem => ?_) hwfd⟩
            rw [← block_some (child_newTable law hgoodd hd)] at hg
            exact hdisj hmem (List.mem_flatMap.mpr ⟨j, hj, hg⟩)
          · rw [List.flatMap_congr hblocks, List.nodup_cons]
            exact ⟨fun hmem => hnodup'.1 (List.mem_append_right _ hmem), hnodup'.2.of_append_right⟩
    exact hloop (scan (n + 1)) s hwf htree

end Drop

/-! ## A number of trees -/

section Forest

variable {fmt : Format F W} {Good : F → Prop} {scan : Nat → List (Fin k)}
  {s s' : Store F W k} {n : Nat} {roots roots' lent lent' all : List F} {r q f : F}
  {path : Nat → Fin k}

/-- The frames of a tree, its root first. -/
def tree (fmt : Format F W) (scan : Nat → List (Fin k)) (cell : F → Fin k → W) (n : Nat) (r : F) :
    List F :=
  r :: fmt.frames scan cell n r

/-- The frames `all`, each of them in one tree, or in other hands, or free. -/
structure Forest (fmt : Format F W) (Good : F → Prop) (scan : Nat → List (Fin k))
    (s : Store F W k) (n : Nat) (roots lent all : List F) : Prop where
  wf : ∀ r ∈ roots, WF fmt Good scan s.cell n r
  perm : (roots.flatMap (tree fmt scan s.cell n) ++ (lent ++ s.free)).Perm all
  nodup : all.Nodup
  good : ∀ g ∈ all, Good g
  cleared : ∀ g ∈ s.free, ∀ i, s.cell g i = fmt.empty

namespace Forest

theorem init (hnodup : s.free.Nodup) (hgood : ∀ g ∈ s.free, Good g)
    (hcleared : ∀ g ∈ s.free, ∀ i, s.cell g i = fmt.empty) :
    Forest fmt Good scan s n [] [] s.free where
  wf _ hr := absurd hr List.not_mem_nil
  perm := .refl _
  nodup := hnodup
  good := hgood
  cleared := hcleared

variable (h : Forest fmt Good scan s n roots lent all)
include h

theorem nodup_all : (roots.flatMap (tree fmt scan s.cell n) ++ (lent ++ s.free)).Nodup :=
  h.perm.nodup_iff.mpr h.nodup

theorem owned (hr : r ∈ roots) : Owned fmt Good scan s n r where
  wf := h.wf r hr
  nodup := by
    refine h.nodup_all.sublist (List.Sublist.append ?_ (List.sublist_append_right _ _))
    exact List.sublist_flatten_of_mem (List.mem_map_of_mem hr)
  good g hg := h.good g (h.perm.subset (by simp [hg]))
  cleared := h.cleared

/-- Two trees share no frame. -/
theorem apart (hr : r ∈ roots) (hq : q ∈ roots) (hne : q ≠ r) :
    List.Disjoint (tree fmt scan s.cell n q) (tree fmt scan s.cell n r) := by
  have hnodup := h.nodup_all.of_append_left
  rw [List.nodup_flatMap] at hnodup
  have hsymm : Std.Symm (Function.onFun List.Disjoint (tree fmt scan s.cell n)) :=
    ⟨fun _ _ h => h.symm⟩
  exact hnodup.2.forall hq hr hne

theorem nodup_roots : roots.Nodup := by
  refine List.Nodup.of_map (fun r => r) ?_
  refine h.nodup_all.of_append_left.sublist ?_
  clear h
  induction roots with
  | nil => exact .refl _
  | cons r roots ih =>
    rw [List.flatMap_cons, List.map_cons]
    exact (ih.trans (List.sublist_append_right _ _)).cons_cons r

/-- The trees that are kept stand as before where the memory agrees on them. -/
theorem of_agree (hsub : roots' ⊆ roots) (law : fmt.Lawful Good)
    (hagree : ∀ r ∈ roots', ∀ g ∈ tree fmt scan s.cell n r, s'.cell g = s.cell g)
    (hperm : (roots'.flatMap (tree fmt scan s.cell n) ++ (lent' ++ s'.free)).Perm all)
    (hcleared : ∀ g ∈ s'.free, ∀ i, s'.cell g i = fmt.empty) :
    Forest fmt Good scan s' n roots' lent' all where
  wf r hr := wf_congr law (hagree r hr) (h.wf r (hsub hr))
  perm := by
    have htree : ∀ r ∈ roots', tree fmt scan s'.cell n r = tree fmt scan s.cell n r :=
      fun r hr => congrArg (r :: ·) (frames_congr (hagree r hr))
    rw [List.flatMap_congr htree]
    exact hperm
  nodup := h.nodup
  good := h.good
  cleared := hcleared

/-- No frame of a tree is free or in other hands. -/
theorem not_free (hr : r ∈ roots) {g : F} (hg : g ∈ tree fmt scan s.cell n r) :
    g ∉ lent ++ s.free := fun hfree =>
  List.disjoint_of_nodup_append h.nodup_all (List.mem_flatMap.mpr ⟨r, hr, hg⟩) hfree

/-- What stays in one tree leaves the others alone. -/
theorem confined_agree (hr : r ∈ roots) (hc : Confined fmt Good scan s s' n r) (hq : q ∈ roots)
    (hne : q ≠ r) : ∀ g ∈ tree fmt scan s.cell n q, s'.cell g = s.cell g := by
  intro g hg
  refine hc.outside (fun hmem => h.apart hr hq hne hg hmem) fun hfree => ?_
  exact h.not_free hq hg (List.mem_append_right _ hfree)

/-- One tree changes, and takes its frames from the free ones or gives them back. -/
theorem change (hr : r ∈ roots) (law : fmt.Lawful Good)
    (hagree : ∀ q ∈ roots, q ≠ r → ∀ g ∈ tree fmt scan s.cell n q, s'.cell g = s.cell g)
    (hwf : WF fmt Good scan s'.cell n r)
    (hperm : (tree fmt scan s'.cell n r ++ s'.free).Perm (tree fmt scan s.cell n r ++ s.free))
    (hcleared : ∀ g ∈ s'.free, ∀ i, s'.cell g i = fmt.empty) :
    Forest fmt Good scan s' n roots lent all := by
  have htree : ∀ q ∈ roots, q ≠ r → tree fmt scan s'.cell n q = tree fmt scan s.cell n q :=
    fun q hq hne => congrArg (q :: ·) (frames_congr (hagree q hq hne))
  refine ⟨fun q hq => ?_, .trans ?_ h.perm, h.nodup, h.good, hcleared⟩
  · by_cases hne : q = r
    · rw [hne]
      exact hwf
    · exact wf_congr law (hagree q hq hne) (h.wf q hq)
  -- the frames of the other trees stay where they are in the list
  · obtain ⟨pre, post, hold, hnew⟩ := flatMap_change h.nodup_roots hr htree
    rw [hold, hnew]
    have hmove : ∀ mid free : List F, (pre ++ mid ++ post ++ (lent ++ free)).Perm
        (pre ++ post ++ lent ++ (mid ++ free)) := by
      intro mid free
      have hmid := perm_middle_free [] pre mid (post ++ lent) free
      simp only [List.nil_append, List.append_assoc] at hmid ⊢
      exact hmid
    exact (hmove _ _).trans ((hperm.append_left _).trans (hmove _ _).symm)

/-- Taking tables in and writing values keeps the forest. -/
theorem confined (hr : r ∈ roots) (hc : Confined fmt Good scan s s' n r) (law : fmt.Lawful Good) :
    Forest fmt Good scan s' n roots lent all :=
  h.change hr law (fun _ hq hne => h.confined_agree hr hc hq hne) hc.wf hc.perm
    (hc.owned (h.owned hr)).cleared

theorem perm_roots (hroots : roots.Perm roots') (law : fmt.Lawful Good) :
    Forest fmt Good scan s n roots' lent all :=
  h.of_agree hroots.symm.subset law (fun _ _ _ _ => rfl)
    (((hroots.symm.flatMap_right _).append_right _).trans h.perm) h.cleared

/-- A free frame goes into other hands. -/
theorem lend (law : fmt.Lawful Good) (hcell : s'.cell = s.cell)
    (hfree : s.free.Perm (f :: s'.free)) : Forest fmt Good scan s' n roots (f :: lent) all := by
  refine h.of_agree (List.Subset.refl _) law (fun _ _ g _ => congrFun hcell g) ?_ fun g hg i => ?_
  · refine .trans (.append_left _ ?_) h.perm
    exact List.perm_middle.symm.trans (hfree.symm.append_left lent)
  · rw [hcell]
    exact h.cleared g (hfree.symm.subset (List.mem_cons_of_mem _ hg)) i

/-- The frames in other hands may be written to, and the free ones come in any order. -/
theorem others (law : fmt.Lawful Good) (hcell : ∀ g, g ∉ lent → s'.cell g = s.cell g)
    (hfree : s'.free.Perm s.free) : Forest fmt Good scan s' n roots lent all := by
  refine h.of_agree (List.Subset.refl _) law (fun r hr g hg => hcell g fun hmem => ?_) ?_
    fun g hg i => ?_
  · exact h.not_free hr hg (List.mem_append_left _ hmem)
  · exact .trans (.append_left _ (hfree.append_left lent)) h.perm
  · have hg' := hfree.subset hg
    rw [hcell g fun hmem => ?_]
    · exact h.cleared g hg' i
    · exact List.disjoint_of_nodup_append h.nodup_all.of_append_right hmem hg'

/-- A frame comes back from other hands, cleared. -/
theorem back [DecidableEq F] (law : fmt.Lawful Good) (hlent : lent.Perm (f :: lent')) :
    Forest fmt Good scan (s.dealloc fmt.empty f) n roots lent' all := by
  have hf : f ∈ lent := hlent.symm.subset List.mem_cons_self
  refine h.of_agree (List.Subset.refl _) law (fun r hr g hg => ?_) ?_ fun g hg i => ?_
  · have hne : g ≠ f := fun heq => h.not_free hr hg (List.mem_append_left _ (heq ▸ hf))
    exact funext fun _ => if_neg hne
  · refine .trans (.append_left _ ?_) h.perm
    exact List.perm_middle.trans (hlent.symm.append_right s.free)
  · show (if g = f then fmt.empty else s.cell g i) = fmt.empty
    rcases List.mem_cons.mp hg with heq | hg
    · exact if_pos heq
    · rw [h.cleared g hg i, ite_self]

end Forest

/-- No entry of the root that counts leads to a table. -/
def Bare (fmt : Format F W) (scan : Nat → List (Fin k)) (cell : F → Fin k → W) (n : Nat) (r : F) :
    Prop := ∀ i ∈ scan n, cell r i = fmt.empty

namespace Bare

variable (hbare : Bare fmt scan s.cell n r) (hn : 0 < n) (law : fmt.Lawful Good)
include hbare hn

omit law in
theorem wf : WF fmt Good scan s.cell n r := by
  obtain ⟨m, rfl⟩ := Nat.exists_eq_add_one.mpr hn
  exact fun i hi => .inl (hbare i hi)

include law

theorem tree_eq : tree fmt scan s.cell n r = [r] := by
  obtain ⟨m, rfl⟩ := Nat.exists_eq_add_one.mpr hn
  unfold tree
  rw [frames_succ,
    List.flatMap_eq_nil_iff.mpr fun i hi => block_none (child_empty law (hbare i hi))]

theorem find_eq (hscan : InScan scan n path) : fmt.find s.cell path n r = none := by
  obtain ⟨m, rfl⟩ := Nat.exists_eq_add_one.mpr hn
  exact find_succ_none (child_empty law (hbare _ hscan.top))

/-- A table without tables below it is a tree, or a frame in other hands. -/
theorem plant_iff : Forest fmt Good scan s n (r :: roots) lent all
    ↔ Forest fmt Good scan s n roots (r :: lent) all := by
  have hperm : ((r :: roots).flatMap (tree fmt scan s.cell n) ++ (lent ++ s.free)).Perm
      (roots.flatMap (tree fmt scan s.cell n) ++ (r :: lent ++ s.free)) := by
    rw [List.flatMap_cons, hbare.tree_eq hn law]
    exact List.perm_middle.symm
  constructor
  · intro h
    exact ⟨fun q hq => h.wf q (List.mem_cons_of_mem _ hq), hperm.symm.trans h.perm, h.nodup, h.good,
      h.cleared⟩
  · intro h
    exact ⟨List.forall_mem_cons.mpr ⟨hbare.wf hn, h.wf⟩, hperm.trans h.perm, h.nodup, h.good,
      h.cleared⟩

end Bare

/-- The tables below a root have come back and no entry leads to one any more. -/
structure Pruned (fmt : Format F W) (scan : Nat → List (Fin k)) (s s' : Store F W k) (n : Nat)
    (r : F) : Prop where
  free : s'.free.Perm (fmt.frames scan s.cell n r ++ s.free)
  cleared : ∀ g ∈ fmt.frames scan s.cell n r, ∀ j, s'.cell g j = fmt.empty
  frame : ∀ g, g ∉ tree fmt scan s.cell n r → s'.cell g = s.cell g
  bare : Bare fmt scan s'.cell n r

/-- Giving one tree's tables back leaves the other trees alone. -/
theorem Forest.prune_agree (h : Forest fmt Good scan s n roots lent all) (hr : r ∈ roots)
    (hp : Pruned fmt scan s s' n r) (hq : q ∈ roots) (hne : q ≠ r) :
    ∀ g ∈ tree fmt scan s.cell n q, s'.cell g = s.cell g :=
  fun g hg => hp.frame g fun hmem => h.apart hr hq hne hg hmem

/-- The pruned tree is its root alone, and its tables are among the free frames. -/
theorem Forest.prune (h : Forest fmt Good scan s n roots lent all) (hr : r ∈ roots)
    (hp : Pruned fmt scan s s' n r) (hn : 0 < n) (law : fmt.Lawful Good) :
    Forest fmt Good scan s' n roots lent all := by
  refine h.change hr law (fun _ hq hne => h.prune_agree hr hp hq hne) (hp.bare.wf hn) ?_
    fun g hg i => ?_
  · rw [hp.bare.tree_eq hn law]
    exact hp.free.cons r
  rcases List.mem_append.mp (hp.free.subset hg) with hgone | hfree
  · exact hp.cleared g hgone i
  · rw [hp.frame g fun hmem => h.not_free hr hmem (List.mem_append_right _ hfree)]
    exact h.cleared g hfree i

end Forest

end MonkeyOS.Lib.Radix
