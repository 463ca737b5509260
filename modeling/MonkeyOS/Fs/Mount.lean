import MonkeyOS.Fs.PathBuf
import Mathlib.Data.List.Infix

/-!
# MonkeyOS — the mount table (`filesystem/fs/src/dentry.rs`)

`MOUNTED_FS` is one list: `mount_fs` pushes at its end, `umount` drops every entry at a path, and
`get_mounted` takes the last entry whose path the searched path starts with.

What is looked up is stated over the history of the calls, with no table in it (`LastMounted`): the
last mount that no later `umount` undid and whose path is a prefix. The table is the list of the
mounts of the history that were not undone (`mountTable_eq_live`); the rest is about that list.
-/

namespace MonkeyOS

/-- A `FileSystem`, as far as mounting asks. -/
structure FileSystem (Node : Type) where
  name : String
  rootDir : Node

structure DEntryNode (Node : Type) where
  fs : FileSystem Node
  node : Node

/-- `MOUNTED_FS`, in the order in which the entries were pushed. -/
abbrev MountTable (Node : Type) := List (PathBuf × DEntryNode Node)

section Table

variable {Node : Type}

/-- `get_mounted`; `none` is the panic of `unwrap`. -/
def getMounted (mounted : MountTable Node) (path : PathBuf) :
    Option (DEntryNode Node × PathBuf) :=
  (mounted.reverse.find? (fun x => path.startsWith x.1)).map
    (fun finded => (finded.2, path.trimStart finded.1))

def mountFs (mounted : MountTable Node) (fs : FileSystem Node) (path : String) :
    MountTable Node :=
  mounted ++ [(PathBuf.ofStr path, { fs := fs, node := fs.rootDir })]

def umount (mounted : MountTable Node) (path : PathBuf) : MountTable Node :=
  mounted.filter (·.1 != path)

end Table

inductive MountOp (Node : Type) where
  | mountFs (fs : FileSystem Node) (path : String)
  | umount (path : PathBuf)

namespace MountOp

variable {Node : Type}

def apply (mounted : MountTable Node) : MountOp Node → MountTable Node
  | mountFs fs path => MonkeyOS.mountFs mounted fs path
  | umount path => MonkeyOS.umount mounted path

/-- The call takes the mounts at `q` away. -/
def undoes (q : PathBuf) : MountOp Node → Bool
  | mountFs _ _ => false
  | umount path => path == q

/-- The call mounts something at `q`. -/
def mountsAt (q : PathBuf) : MountOp Node → Bool
  | mountFs _ path => PathBuf.ofStr path == q
  | umount _ => false

end MountOp

/-- The table that a history of calls leaves. -/
def mountTable {Node : Type} (hist : List (MountOp Node)) : MountTable Node :=
  hist.foldl MountOp.apply []

/-- The file systems that `fs::init` makes. -/
structure InitFs (Node : Type) where
  root : FileSystem Node
  dev : FileSystem Node
  tmp : FileSystem Node
  shm : FileSystem Node
  home : FileSystem Node
  var : FileSystem Node
  proc : FileSystem Node

/-- The mounts of `fs::init`. -/
def fsInit {Node : Type} (f : InitFs Node) : List (MountOp Node) :=
  [.mountFs f.root "/", .mountFs f.dev "/dev", .mountFs f.tmp "/tmp", .mountFs f.shm "/dev/shm",
    .mountFs f.home "/home", .mountFs f.var "/var", .mountFs f.proc "/proc"]

/-! ## Paths -/

theorem PathBuf.startsWith_iff {p q : PathBuf} : p.startsWith q ↔ q <+: p :=
  List.isPrefixOf_iff_prefix

/-- What is left of a path is what has to be appended to get it back. -/
theorem PathBuf.append_eq_iff_trimStart {p q r : PathBuf} (h : q <+: p) :
    q ++ r = p ↔ r = p.trimStart q := by
  obtain ⟨rest, rfl⟩ := h
  unfold trimStart
  rw [if_pos (startsWith_iff.mpr (List.prefix_append q rest)), List.drop_left]
  exact List.append_right_inj q

theorem PathBuf.ofStr_root : PathBuf.ofStr "/" = [] := by
  -- `"/".split("/")` is two empty components, and both are skipped
  have hsplit : "/".splitOn "/" = ["", ""] := by
    rw [splitOn_slash]
    rfl
  unfold ofStr
  rw [join_eq_resolve, hsplit]
  simp [resolve, step]

/-! ## The table of a history -/

section History

variable {Node : Type} {hist : List (MountOp Node)}

/-- The mounts of a history that are not undone in it, in order. -/
def live : List (MountOp Node) → MountTable Node
  | [] => []
  | .umount _ :: hist => live hist
  | .mountFs fs path :: hist =>
    if hist.any (MountOp.undoes (PathBuf.ofStr path)) then live hist
    else (PathBuf.ofStr path, { fs := fs, node := fs.rootDir }) :: live hist

/-- A history keeps of a table what it does not undo, and adds its own mounts behind it. -/
theorem foldl_apply (mounted : MountTable Node) (hist : List (MountOp Node)) :
    hist.foldl MountOp.apply mounted
      = mounted.filter (fun x => !hist.any (MountOp.undoes x.1)) ++ live hist := by
  induction hist generalizing mounted with
  | nil => simp [live]
  | cons op hist ih =>
    rw [List.foldl_cons, ih]
    cases op with
    | umount path =>
      show (mounted.filter _).filter _ ++ live hist = _
      rw [List.filter_filter]
      congr 1
      apply List.filter_congr
      intro x _
      show (!_ && x.1 != path) = !(path == x.1 || _)
      rw [Bool.not_or, Bool.and_comm, bne, Bool.beq_comm (a := x.1)]
    | mountFs fs path =>
      show (mounted ++ [_]).filter _ ++ live hist = _
      rw [List.filter_append, List.append_assoc]
      congr 1
      show [_].filter _ ++ live hist = if _ then _ else _
      split
      · rename_i h
        simp [h]
      · rename_i h
        simp [h]

theorem mountTable_eq_live (hist : List (MountOp Node)) : mountTable hist = live hist :=
  foldl_apply [] hist

/-- The mount at the path `q` is the last one in the history that is not undone and whose path is a
prefix of `p`. -/
def LastMounted (hist : List (MountOp Node)) (p : PathBuf) (fs : FileSystem Node) (q : PathBuf) :
    Prop :=
  ∃ before path after, hist = before ++ .mountFs fs path :: after ∧ PathBuf.ofStr path = q
    ∧ after.any (MountOp.undoes q) = false ∧ q <+: p
    ∧ ∀ between fs' path' rest, after = between ++ .mountFs fs' path' :: rest →
        rest.any (MountOp.undoes (PathBuf.ofStr path')) = false → ¬ PathBuf.ofStr path' <+: p

/-- Everything that is mounted in a history and not undone is in its table. -/
theorem mem_live_of_mount {before after : List (MountOp Node)} {fs : FileSystem Node}
    {path : String} (hlive : after.any (MountOp.undoes (PathBuf.ofStr path)) = false) :
    (PathBuf.ofStr path, DEntryNode.mk fs fs.rootDir)
      ∈ live (before ++ .mountFs fs path :: after) := by
  induction before with
  | nil =>
    rw [List.nil_append, live, if_neg (by rw [hlive]; exact Bool.false_ne_true)]
    exact List.mem_cons_self
  | cons op before ih =>
    cases op with
    | umount _ => exact ih
    | mountFs fs' path' =>
      rw [List.cons_append, live]
      split
      · exact ih
      · exact List.mem_cons_of_mem _ ih

/-- The search finds the last mount. -/
theorem lastMounted_of_find? {p : PathBuf} {x : PathBuf × DEntryNode Node}
    (h : (live hist).reverse.find? (fun x => p.startsWith x.1) = some x) :
    LastMounted hist p x.2.fs x.1 ∧ x.2.node = x.2.fs.rootDir := by
  induction hist with
  | nil => cases h
  | cons op hist ih =>
    -- what is found in the rest of the history was mounted later, and the search is from the back
    have hskip : (live hist).reverse.find? (fun x => p.startsWith x.1) = some x →
        LastMounted (op :: hist) p x.2.fs x.1 ∧ x.2.node = x.2.fs.rootDir := by
      intro hfind
      obtain ⟨⟨before, path, after, rfl, hrest⟩, hnode⟩ := ih hfind
      exact ⟨⟨op :: before, path, after, rfl, hrest⟩, hnode⟩
    cases op with
    | umount path => exact hskip h
    | mountFs fs path =>
      rw [live] at h
      split at h
      · exact hskip h
      rename_i hlive
      rw [List.reverse_cons, List.find?_append] at h
      cases hfind : (live hist).reverse.find? (fun x => p.startsWith x.1) with
      | some y =>
        rw [hfind] at h
        exact hskip (hfind.trans h)
      | none =>
        rw [hfind, Option.none_or, List.find?_singleton] at h
        split at h
        · rename_i hstart
          cases h
          refine ⟨⟨[], path, hist, rfl, rfl, by simpa using hlive,
            PathBuf.startsWith_iff.mp hstart, ?_⟩, rfl⟩
          intro between fs' path' rest hhist hrest hprefix
          -- a later mount that is not undone would have been found
          have hmem : (PathBuf.ofStr path', DEntryNode.mk fs' fs'.rootDir) ∈ live hist := by
            rw [hhist]
            exact mem_live_of_mount hrest
          exact List.find?_eq_none.mp hfind _ (List.mem_reverse.mpr hmem)
            (PathBuf.startsWith_iff.mpr hprefix)
        · cases h

/-- **Looking up.** As long as the mount at the root is not undone, a lookup answers with the last
mount and with the rest of the path. -/
theorem getMounted_lastMounted {p : PathBuf} (before after : List (MountOp Node))
    {rootFs : FileSystem Node} (hroot : hist = before ++ .mountFs rootFs "/" :: after)
    (hkept : after.any (MountOp.undoes []) = false) :
    ∃ fs q rest, getMounted (mountTable hist) p = some (⟨fs, fs.rootDir⟩, rest)
      ∧ LastMounted hist p fs q ∧ ∀ r, q ++ r = p ↔ r = rest := by
  unfold getMounted
  rw [mountTable_eq_live]
  cases hfind : (live hist).reverse.find? (fun x => p.startsWith x.1) with
  | none =>
    have hmem : (PathBuf.ofStr "/", DEntryNode.mk rootFs rootFs.rootDir) ∈ live hist := by
      rw [hroot]
      exact mem_live_of_mount (by rwa [PathBuf.ofStr_root])
    refine absurd ?_ (List.find?_eq_none.mp hfind _ (List.mem_reverse.mpr hmem))
    rw [PathBuf.ofStr_root]
    exact PathBuf.startsWith_iff.mpr List.nil_prefix
  | some x =>
    obtain ⟨hlast, hnode⟩ := lastMounted_of_find? hfind
    refine ⟨x.2.fs, x.1, p.trimStart x.1, ?_, hlast, fun r => ?_⟩
    · rw [← hnode]
      rfl
    have hstart := List.find?_some hfind
    have hprefix : x.1 <+: p := PathBuf.startsWith_iff.mp hstart
    exact PathBuf.append_eq_iff_trimStart hprefix

end History

/-! ## Mounting and undoing it -/

section Relations

variable {Node : Type}

theorem mountTable_concat (hist : List (MountOp Node)) (op : MountOp Node) :
    mountTable (hist ++ [op]) = op.apply (mountTable hist) := by
  unfold mountTable
  rw [List.foldl_append]
  rfl

/-- Mounting at `q` changes the answer for the paths below `q` only. -/
theorem getMounted_mountFs (mounted : MountTable Node) (fs : FileSystem Node) (path : String)
    (p : PathBuf) :
    (¬ PathBuf.ofStr path <+: p →
        getMounted (mountFs mounted fs path) p = getMounted mounted p)
    ∧ ∀ rest, p = PathBuf.ofStr path ++ rest →
        getMounted (mountFs mounted fs path) p = some (⟨fs, fs.rootDir⟩, rest) := by
  unfold getMounted mountFs
  rw [List.reverse_append, List.reverse_singleton, List.singleton_append]
  constructor
  · intro h
    rw [List.find?_cons_of_neg]
    rwa [PathBuf.startsWith_iff]
  · intro rest hp
    have hprefix : PathBuf.ofStr path <+: p := ⟨rest, hp.symm⟩
    have hstart : p.startsWith (PathBuf.ofStr path) = true := PathBuf.startsWith_iff.mpr hprefix
    rw [List.find?_cons, hstart]
    show some (_, _) = some (_, rest)
    rw [(PathBuf.append_eq_iff_trimStart hprefix).mp hp.symm]

/-- Every entry of a table was mounted. -/
theorem mountsAt_of_mem_live {hist : List (MountOp Node)} {x : PathBuf × DEntryNode Node}
    (h : x ∈ live hist) : hist.any (MountOp.mountsAt x.1) = true := by
  induction hist with
  | nil => cases h
  | cons op hist ih =>
    rw [List.any_cons, Bool.or_eq_true]
    cases op with
    | umount path => exact .inr (ih h)
    | mountFs fs path =>
      rw [live] at h
      split at h
      · exact .inr (ih h)
      rcases List.mem_cons.mp h with rfl | h
      · exact .inl (beq_self_eq_true _)
      · exact .inr (ih h)

/-- A table without a mount at `q` is not changed by undoing it. -/
theorem umount_live {hist : List (MountOp Node)} {q : PathBuf}
    (h : hist.any (MountOp.mountsAt q) = false) : umount (live hist) q = live hist := by
  apply List.filter_eq_self.mpr
  intro x hx
  rw [bne_iff_ne]
  rintro rfl
  exact Bool.false_ne_true (h.symm.trans (mountsAt_of_mem_live hx))

/-- A mount that is undone, the only one at its path, leaves no trace. -/
theorem mountTable_mount_umount (pre mid post : List (MountOp Node)) (fs : FileSystem Node)
    (path : String) (hpre : pre.any (MountOp.mountsAt (PathBuf.ofStr path)) = false)
    (hmid : mid.any (MountOp.mountsAt (PathBuf.ofStr path)) = false) :
    mountTable (pre ++ .mountFs fs path :: (mid ++ .umount (PathBuf.ofStr path) :: post))
      = mountTable (pre ++ (mid ++ post)) := by
  have hundo : umount (mid.foldl MountOp.apply (mountFs (live pre) fs path)) (PathBuf.ofStr path)
      = mid.foldl MountOp.apply (live pre) := by
    -- of the three parts of the table, the entry goes and the other two hold nothing at its path
    rw [foldl_apply, foldl_apply]
    unfold mountFs
    rw [List.filter_append]
    unfold umount
    rw [List.filter_append, List.filter_append]
    have hlive : (live mid).filter (fun x => x.1 != PathBuf.ofStr path) = live mid :=
      umount_live hmid
    have hkept : ∀ f : PathBuf × DEntryNode Node → Bool,
        ((live pre).filter f).filter (fun x => x.1 != PathBuf.ofStr path)
          = (live pre).filter f := by
      intro f
      have hlive : (live pre).filter (fun x => x.1 != PathBuf.ofStr path) = live pre :=
        umount_live hpre
      rw [List.filter_comm, hlive]
    rw [hkept, hlive, List.filter_filter]
    simp
  rw [← mountTable_eq_live] at hundo
  unfold mountTable at hundo ⊢
  simp only [List.foldl_append, List.foldl_cons]
  rw [← hundo]
  rfl

/-- No call of the sequence takes the root away. -/
def KeepsRoot (ops : List (MountOp Node)) : Prop := ops.any (MountOp.undoes []) = false

/-- **Path resolution.** After `fs::init` and any calls that do not undo the root:

* a lookup answers with the last mount that was not undone and whose path is a prefix, and with the
  one rest that completes that path;
* another mount changes the answer for the paths at or below it only, to itself and the rest;
* a mount that was undone, and was the only one made at its path until then, has changed no
  answer. -/
theorem mount_resolution (f : InitFs Node) (ops : List (MountOp Node)) (hroot : KeepsRoot ops)
    (p : PathBuf) :
    (∃ fs q rest, getMounted (mountTable (fsInit f ++ ops)) p = some (⟨fs, fs.rootDir⟩, rest)
      ∧ LastMounted (fsInit f ++ ops) p fs q ∧ ∀ r, q ++ r = p ↔ r = rest)
    ∧ (∀ fs path,
      (¬ PathBuf.ofStr path <+: p →
        getMounted (mountTable (fsInit f ++ ops ++ [.mountFs fs path])) p
          = getMounted (mountTable (fsInit f ++ ops)) p)
      ∧ ∀ rest, p = PathBuf.ofStr path ++ rest →
        getMounted (mountTable (fsInit f ++ ops ++ [.mountFs fs path])) p
          = some (⟨fs, fs.rootDir⟩, rest))
    ∧ ∀ fs path before between after,
      ops = before ++ .mountFs fs path :: (between ++ .umount (PathBuf.ofStr path) :: after) →
      (fsInit f ++ before ++ between).any (MountOp.mountsAt (PathBuf.ofStr path)) = false →
      getMounted (mountTable (fsInit f ++ ops)) p
        = getMounted (mountTable (fsInit f ++ (before ++ (between ++ after)))) p := by
  refine ⟨?_, ?_, ?_⟩
  · exact getMounted_lastMounted [] _ rfl hroot
  · intro fs path
    rw [mountTable_concat]
    exact getMounted_mountFs _ fs path p
  · intro fs path before between after hops honly
    rw [List.any_append, Bool.or_eq_false_iff] at honly
    have hsame := mountTable_mount_umount _ between after fs path honly.1 honly.2
    rw [hops, ← List.append_assoc, hsame, List.append_assoc]

theorem mount_resolution_undone :
    let f : InitFs Unit :=
      ⟨⟨"root", ()⟩, ⟨"dev", ()⟩, ⟨"tmp", ()⟩, ⟨"shm", ()⟩, ⟨"home", ()⟩, ⟨"var", ()⟩, ⟨"proc", ()⟩⟩
    let ops : List (MountOp Unit) := [.mountFs ⟨"usb", ()⟩ "/mnt", .umount ["mnt"]]
    KeepsRoot ops
      ∧ ∃ fs q rest, getMounted (mountTable (fsInit f ++ ops)) ["mnt", "a"]
          = some (⟨fs, fs.rootDir⟩, rest)
        ∧ LastMounted (fsInit f ++ ops) ["mnt", "a"] fs q ∧ ∀ r, q ++ r = ["mnt", "a"] ↔ r = rest := by
  intro f ops
  have hroot : KeepsRoot ops := rfl
  exact ⟨hroot, (mount_resolution f ops hroot _).1⟩

end Relations

end MonkeyOS
