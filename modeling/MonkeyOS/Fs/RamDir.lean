import Mathlib.Data.List.Nodup
import Mathlib.Logic.Function.Basic
import MonkeyOS.Basic
import MonkeyOS.Lib.Run

/-!
# MonkeyOS — directories of the ram file system (`filesystem/ramfs/src/lib.rs`)

A `RamDir` is one unsorted list of named children. Its operations look names up, add and
remove them each in their own way: `mkdir` and `link` refuse a name that is there, `create`
does not look, `rmdir` removes directories only and `remove` everything else. `File::open` of
`filesystem/fs/src/file.rs` walks a path and, with `O_CREAT`, calls `create` on its last name
whatever stands there.

* `names_push`, `distinct_push_iff` — adding an entry keeps the names distinct exactly when the
  name is new;
* `lookup_extractIf_of_ne`, `lookup_extractIf_self` — what a removal leaves to be found;
* `DirCall.law_iff` — one call on directories with distinct names obeys the law of a finite
  map exactly when it does not `create` a name that is there;
* `ramDir_map_law_iff` — the same for a whole sequence of calls on a new file system.

A node is known by a number, which stands for the `Arc` of its inner part. The tree of one
`RamFs` is the function `children` from directories to their lists.
-/

namespace MonkeyOS

open Lib

/-- `vfscore::FileType`. -/
inductive FileType where
  | File
  | Directory
  | Device
  | Socket
  | Link
  deriving DecidableEq

/-- What `to_inode` gives out: the node's kind and its inner part, and for a link the file it
links to. -/
inductive INode where
  | file (inner : Nat)
  | dir (inner : Nat)
  | link (inner linkFile : Nat)
  deriving DecidableEq

/-- A child of a directory. -/
structure FileContainer where
  filename : String
  toInode : INode
  deriving DecidableEq

def FileContainer.isDir (x : FileContainer) : Bool :=
  match x.toInode with
  | .dir _ => true
  | _ => false

/-- One mounted `RamFs`: the next unused inner part, and every directory's children. -/
structure RamFs where
  next : Nat
  children : Nat → List FileContainer

namespace RamFs

/-- The root is directory 0. -/
def new : RamFs := ⟨1, fun _ => []⟩

variable (fs : RamFs)

/-- `Arc::new` of an inner part (a directory starts without children), then `push` of its
container onto directory `d`. -/
def push (d : Nat) (name : String) (node : Nat → INode) : RamFs where
  next := fs.next + 1
  children := Function.update (Function.update fs.children fs.next []) d
    (fs.children d ++ [⟨name, node fs.next⟩])

/-- `extract_if(gone)`: the number of children taken out of directory `d`, and the rest. -/
def extractIf (d : Nat) (gone : FileContainer → Bool) : Nat × RamFs :=
  ((fs.children d).countP gone,
    { fs with children := Function.update fs.children d ((fs.children d).filter (!gone ·)) })

/-! ## The operations of `RamDir` -/

def find (d : Nat) (name : String) : Option FileContainer :=
  (fs.children d).find? (·.filename == name)

def lookup (d : Nat) (name : String) : Except Errno INode :=
  match fs.find d name with
  | some x => .ok x.toInode
  | none => .error .ENOENT

def mkdir (d : Nat) (name : String) : Except Errno Unit × RamFs :=
  match fs.find d name with
  | some _ => (.error .EEXIST, fs)
  | none => (.ok (), fs.push d name .dir)

/-- `none` is the panic of `unimplemented!`. -/
def create (d : Nat) (name : String) (ty : FileType) : Option (Except Errno Unit × RamFs) :=
  if ty = .Directory then some (.ok (), fs.push d name .dir)
  else if ty = .File then some (.ok (), fs.push d name .file)
  else none

def rmdir (d : Nat) (name : String) : Except Errno Unit × RamFs :=
  let (len, fs) := fs.extractIf d (fun x => x.isDir && x.filename == name)
  (if len > 0 then .ok () else .error .ENOENT, fs)

def remove (d : Nat) (name : String) : Except Errno Unit × RamFs :=
  let (len, fs) := fs.extractIf d (fun x => !x.isDir && x.filename == name)
  (if len > 0 then .ok () else .error .ENOENT, fs)

def link (d : Nat) (name : String) (src : Nat) : Except Errno Unit × RamFs :=
  match fs.find d name with
  | some _ => (.error .EEXIST, fs)
  | none => (.ok (), fs.push d name (.link · src))

/-! ## `File::open`

A `RamFile` and a `RamLink` have the trait's own `lookup` and `create`, which only fail. -/

def nodeLookup : INode → String → Except Errno INode
  | .dir d, name => fs.lookup d name
  | _, _ => .error .ENOENT

def nodeCreate (node : INode) (name : String) (ty : FileType) :
    Option (Except Errno Unit × RamFs) :=
  match node with
  | .dir d => fs.create d name ty
  | _ => some (.error .ENOTDIR, fs)

/-- The walk over `path.dir()`. -/
def parent (path : List String) : Except Errno INode :=
  path.dropLast.foldlM fs.nodeLookup (.dir 0)

/-- The type `File::open` creates. -/
def createType (directory : Bool) : FileType := if directory then .Directory else .File

/-- `File::open` of a path below the mount point; the flags are `O_CREAT` and `O_DIRECTORY`. -/
def openFile (path : List String) (creat directory : Bool) :
    Option (Except Errno INode × RamFs) :=
  match path.getLast? with
  | none => some (.ok (.dir 0), fs)
  | some name =>
    match fs.parent path with
    | .error e => some (.error e, fs)
    | .ok node =>
      if creat then
        match fs.nodeCreate node name (createType directory) with
        | none => none
        | some (.error e, fs) => some (.error e, fs)
        | some (.ok _, fs) => some (fs.nodeLookup node name, fs)
      else some (fs.nodeLookup node name, fs)

/-! ## Adding and removing entries -/

/-- The names of a directory's children, in order. -/
def names (d : Nat) : List String := (fs.children d).map FileContainer.filename

/-- No directory has two children of one name. -/
def Distinct : Prop := ∀ d, (fs.names d).Nodup

variable {fs} {d : Nat} {name : String} {node : Nat → INode}

theorem find_eq_none_iff : fs.find d name = none ↔ name ∉ fs.names d := by
  unfold find names
  rw [List.find?_eq_none, List.mem_map]
  constructor
  · rintro h ⟨x, hx, rfl⟩
    exact h x hx (beq_self_eq_true x.filename)
  · intro h x hx heq
    exact h ⟨x, hx, beq_iff_eq.mp heq⟩

theorem names_push (fs : RamFs) (d d' : Nat) (name : String) (node : Nat → INode) :
    (fs.push d name node).names d'
      = if d' = d then fs.names d ++ [name] else if d' = fs.next then [] else fs.names d' := by
  unfold push names
  simp only [Function.update_apply]
  split
  · rw [List.map_append]
    rfl
  · split <;> rfl

theorem distinct_push_iff (hfs : fs.Distinct) :
    (fs.push d name node).Distinct ↔ name ∉ fs.names d := by
  constructor
  · intro h hmem
    have hd := h d
    rw [names_push, if_pos rfl] at hd
    exact List.disjoint_of_nodup_append hd hmem (List.mem_singleton_self name)
  · intro hnew d'
    rw [names_push]
    split
    · apply (hfs d).append (List.nodup_singleton name)
      intro m hm hname
      rw [List.mem_singleton] at hname
      exact hnew (hname ▸ hm)
    · split
      · exact List.nodup_nil
      · exact hfs d'

/-- A second entry for a name appears nowhere when the added name is new. -/
theorem count_push_le (hnew : name ∉ fs.names d) {d' : Nat} {n : String} (hn : n ∈ fs.names d') :
    ((fs.push d name node).names d').count n ≤ (fs.names d').count n := by
  rw [names_push]
  split
  · rename_i hd
    subst hd
    have hne : name ≠ n := fun h => hnew (h ▸ hn)
    rw [List.count_append, List.count_singleton, if_neg (by simpa using hne)]
    exact Nat.le_refl _
  · split
    · exact Nat.zero_le _
    · exact Nat.le_refl _

section ExtractIf

variable {gone : FileContainer → Bool}

theorem names_extractIf (fs : RamFs) (d : Nat) (gone : FileContainer → Bool) (d' : Nat) :
    ((fs.extractIf d gone).2.names d').Sublist (fs.names d') := by
  unfold extractIf names
  simp only [Function.update_apply]
  split
  · rename_i hd
    subst hd
    exact List.filter_sublist.map _
  · exact List.Sublist.refl _

theorem distinct_extractIf (hfs : fs.Distinct) : (fs.extractIf d gone).2.Distinct :=
  fun d' => (hfs d').sublist (names_extractIf fs d gone d')

theorem find_extractIf (fs : RamFs) (d : Nat) (gone : FileContainer → Bool) (m : String) :
    (fs.extractIf d gone).2.find d m
      = (fs.children d).find? (fun x => !gone x && x.filename == m) := by
  unfold extractIf find
  simp only [Function.update_self]
  rw [List.find?_filter]
  congr 1
  funext x
  rw [Bool.decide_and, Bool.decide_coe, Bool.decide_coe]

/-- A removal by name is not seen under any other name. -/
theorem lookup_extractIf_of_ne (hgone : ∀ x, gone x = true → x.filename = name) {m : String}
    (hm : m ≠ name) : (fs.extractIf d gone).2.lookup d m = fs.lookup d m := by
  -- what is taken out does not have the other name
  have htest : (fun x : FileContainer => !gone x && x.filename == m) = (·.filename == m) := by
    funext x
    cases hx : gone x with
    | false => rfl
    | true =>
      rw [hgone x hx, beq_false_of_ne (Ne.symm hm)]
      rfl
  unfold lookup
  rw [find_extractIf, htest]
  rfl

/-- With distinct names, the entry that is taken out was the only one of its name. -/
theorem lookup_extractIf_self (hfs : fs.Distinct)
    (hgone : ∀ x, gone x = true → x.filename = name) (hlen : (fs.extractIf d gone).1 > 0) :
    (fs.extractIf d gone).2.lookup d name = .error .ENOENT := by
  obtain ⟨x, hx, hxgone⟩ := List.countP_pos_iff.mp hlen
  have hnone : (fs.extractIf d gone).2.find d name = none := by
    rw [find_extractIf, List.find?_eq_none]
    intro y hy hkept
    rw [Bool.and_eq_true, Bool.not_eq_true', beq_iff_eq] at hkept
    have hxy : x = y := List.inj_on_of_nodup_map (hfs d) hx hy
      ((hgone x hxgone).trans hkept.2.symm)
    rw [← hxy, hxgone] at hkept
    exact Bool.noConfusion hkept.1
  unfold lookup
  rw [hnone]

end ExtractIf

end RamFs

/-! ## Calls -/

inductive DirCall where
  | mkdir (d : Nat) (name : String)
  | create (d : Nat) (name : String) (directory : Bool)
  | link (d : Nat) (name : String) (src : Nat)
  | remove (d : Nat) (name : String)
  | rmdir (d : Nat) (name : String)
  /-- `File::open`; `sys_mkdir_at` is the one with both flags -/
  | openFile (path : List String) (creat directory : Bool)

/-- One call; `none` is a panic. -/
def RamFs.exec (fs : RamFs) : DirCall → Option (Except Errno Unit × RamFs)
  | .mkdir d name => some (fs.mkdir d name)
  | .create d name directory => fs.create d name (createType directory)
  | .link d name src => some (fs.link d name src)
  | .remove d name => some (fs.remove d name)
  | .rmdir d name => some (fs.rmdir d name)
  | .openFile path creat directory =>
    (fs.openFile path creat directory).map (fun (res, fs) => (res.map (fun _ => ()), fs))

def DirStep (fs : RamFs) (call : DirCall) (fs' : RamFs) : Prop :=
  ∃ res, fs.exec call = some (res, fs')

/-- The call takes the name `n` out of directory `d`. -/
def DirCall.Removes (d : Nat) (n : String) : DirCall → Prop
  | .remove d' name => d' = d ∧ name = n
  | .rmdir d' name => d' = d ∧ name = n
  | _ => False

/-- The law of a finite map for one call: names are distinct afterwards, a name that was there
gets no second entry, and a removed name is gone while the others still lead where they did. -/
def DirCall.Law (fs : RamFs) (call : DirCall) : Prop :=
  ∃ res fs', fs.exec call = some (res, fs')
    ∧ fs'.Distinct
    ∧ (∀ d n, n ∈ fs.names d → (fs'.names d).count n ≤ (fs.names d).count n)
    ∧ ∀ d n, call.Removes d n → res = .ok () →
        fs'.lookup d n = .error .ENOENT ∧ ∀ m, m ≠ n → fs'.lookup d m = fs.lookup d m

/-- The call does not `create` a name that is there. -/
def DirCall.CreatesNew (fs : RamFs) : DirCall → Prop
  | .create d name _ => name ∉ fs.names d
  | .openFile path creat _ =>
    creat = true → ∀ d name, path.getLast? = some name → fs.parent path = .ok (.dir d) →
      name ∉ fs.names d
  | _ => True

namespace DirCall

variable {fs fs' : RamFs} {call : DirCall} {res : Except Errno Unit}

/-- A call that changes nothing and removes nothing obeys the law. -/
theorem law_of_unchanged (hfs : fs.Distinct) (hexec : fs.exec call = some (res, fs))
    (hkeep : ∀ d n, ¬ call.Removes d n) : call.Law fs :=
  ⟨res, fs, hexec, hfs, fun _ _ _ => Nat.le_refl _, fun d n h => absurd h (hkeep d n)⟩

/-- A call that adds one entry obeys the law exactly when its name is new. -/
theorem law_push_iff (hfs : fs.Distinct) {d : Nat} {name : String} (node : Nat → INode)
    (hexec : fs.exec call = some (res, fs.push d name node))
    (hkeep : ∀ d n, ¬ call.Removes d n) : call.Law fs ↔ name ∉ fs.names d := by
  constructor
  · rintro ⟨res', fs', hexec', hdistinct, -⟩
    rw [hexec] at hexec'
    cases hexec'
    exact (RamFs.distinct_push_iff hfs).mp hdistinct
  · intro hnew
    exact ⟨res, _, hexec, (RamFs.distinct_push_iff hfs).mpr hnew,
      fun _ _ => RamFs.count_push_le hnew, fun d n h => absurd h (hkeep d n)⟩

/-- A call that takes out entries of one name obeys the law. -/
theorem law_of_extractIf (hfs : fs.Distinct) (d : Nat) (name : String)
    {gone : FileContainer → Bool} (hgone : ∀ x, gone x = true → x.filename = name)
    (hexec : fs.exec call = some (if (fs.extractIf d gone).1 > 0 then .ok () else .error .ENOENT,
      (fs.extractIf d gone).2))
    (hremoves : ∀ d' n, call.Removes d' n → d' = d ∧ n = name) : call.Law fs := by
  refine ⟨_, _, hexec, RamFs.distinct_extractIf hfs, ?_, ?_⟩
  · intro d' n _
    exact (RamFs.names_extractIf fs d gone d').count_le n
  intro d' n hrem hok
  obtain ⟨rfl, rfl⟩ := hremoves d' n hrem
  have hlen : (fs.extractIf d' gone).1 > 0 := by
    by_contra hnot
    rw [if_neg hnot] at hok
    cases hok
  exact ⟨RamFs.lookup_extractIf_self hfs hgone hlen,
    fun m hm => RamFs.lookup_extractIf_of_ne hgone hm⟩

/-- What `File::open` does to the file system: one `create` in the directory the walk ends in,
or nothing. -/
theorem openFile_cases (fs : RamFs) (path : List String) (creat directory : Bool) :
    (∃ d name node res, creat = true ∧ path.getLast? = some name ∧ fs.parent path = .ok (.dir d)
      ∧ fs.openFile path creat directory = some (res, fs.push d name node))
    ∨ (∃ res, fs.openFile path creat directory = some (res, fs)
      ∧ ∀ d name, creat = true → path.getLast? = some name → fs.parent path ≠ .ok (.dir d)) := by
  unfold RamFs.openFile
  cases path.getLast? with
  | none => exact .inr ⟨_, rfl, fun _ _ _ h => nomatch h⟩
  | some name =>
    cases fs.parent path with
    | error e => exact .inr ⟨_, rfl, fun _ _ _ _ h => nomatch h⟩
    | ok node =>
      cases creat with
      | false => exact .inr ⟨_, rfl, fun _ _ h => nomatch h⟩
      | true =>
        cases node with
        | dir d =>
          -- `create` does not look, so the entry is added in any case
          cases directory with
          | false => exact .inl ⟨d, name, .file, _, rfl, rfl, rfl, rfl⟩
          | true => exact .inl ⟨d, name, .dir, _, rfl, rfl, rfl, rfl⟩
        | file inner => exact .inr ⟨_, rfl, fun _ _ _ _ h => nomatch h⟩
        | link inner src => exact .inr ⟨_, rfl, fun _ _ _ _ h => nomatch h⟩

/-- `mkdir` and `link`: they look before they add. -/
theorem law_of_checked (hfs : fs.Distinct) (d : Nat) (name : String) (node : Nat → INode)
    (hexec : fs.exec call = some (match fs.find d name with
      | some _ => (.error .EEXIST, fs)
      | none => (.ok (), fs.push d name node)))
    (hkeep : ∀ d n, ¬ call.Removes d n) : call.Law fs := by
  cases hfind : fs.find d name with
  | some x =>
    rw [hfind] at hexec
    exact law_of_unchanged hfs hexec hkeep
  | none =>
    rw [hfind] at hexec
    exact (law_push_iff hfs node hexec hkeep).mpr (RamFs.find_eq_none_iff.mp hfind)

/-- One call on directories with distinct names. -/
theorem law_iff (hfs : fs.Distinct) (call : DirCall) : call.Law fs ↔ call.CreatesNew fs := by
  cases call with
  | mkdir d name =>
    exact iff_of_true (law_of_checked hfs d name .dir rfl (fun _ _ => id)) trivial
  | link d name src =>
    exact iff_of_true (law_of_checked hfs d name (.link · src) rfl (fun _ _ => id)) trivial
  | create d name directory =>
    cases directory with
    | false => exact law_push_iff hfs .file rfl (fun _ _ => id)
    | true => exact law_push_iff hfs .dir rfl (fun _ _ => id)
  | remove d name =>
    refine iff_of_true (law_of_extractIf hfs d name ?_ rfl ?_) trivial
    · intro x hx
      exact beq_iff_eq.mp (Bool.and_eq_true_iff.mp hx).2
    · rintro d' n ⟨hd, hn⟩
      exact ⟨hd.symm, hn.symm⟩
  | rmdir d name =>
    refine iff_of_true (law_of_extractIf hfs d name ?_ rfl ?_) trivial
    · intro x hx
      exact beq_iff_eq.mp (Bool.and_eq_true_iff.mp hx).2
    · rintro d' n ⟨hd, hn⟩
      exact ⟨hd.symm, hn.symm⟩
  | openFile path creat directory =>
    rcases openFile_cases fs path creat directory with
      ⟨d, name, node, res, hcreat, hlast, hparent, hopen⟩ | ⟨res, hopen, hnone⟩
    · have hexec : fs.exec (.openFile path creat directory)
          = some (res.map (fun _ => ()), fs.push d name node) := by
        simp only [RamFs.exec, hopen, Option.map_some]
      rw [law_push_iff hfs node hexec (fun _ _ => id)]
      constructor
      · intro hnew _ d' name' hlast' hparent'
        rw [hlast] at hlast'
        rw [hparent] at hparent'
        cases hlast'
        cases hparent'
        exact hnew
      · intro hnew
        exact hnew hcreat d name hlast hparent
    · have hexec : fs.exec (.openFile path creat directory)
          = some (res.map (fun _ => ()), fs) := by
        simp only [RamFs.exec, hopen, Option.map_some]
      refine iff_of_true (law_of_unchanged hfs hexec (fun _ _ => id)) ?_
      intro hcreat d name hlast hparent
      exact absurd hparent (hnone d name hcreat hlast)

end DirCall

/-- **When a directory is a map.** Over every sequence of calls on a new file system: all of
them obey the law of a finite map exactly when none of them creates a name that is there. -/
theorem ramDir_map_law_iff (calls : List DirCall) :
    Throughout DirStep (fun fs call => call.Law fs) RamFs.new calls
      ↔ Throughout DirStep (fun fs call => call.CreatesNew fs) RamFs.new calls := by
  have hnew : RamFs.new.Distinct := fun _ => List.nodup_nil
  refine throughout_iff (I := RamFs.Distinct) (fun _ call hfs => DirCall.law_iff hfs call) ?_
    hnew calls
  -- distinct names are part of the law
  intro fs call fs' hfs hcreates hstep
  obtain ⟨res, fs'', hexec, hdistinct, -⟩ := (DirCall.law_iff hfs call).mpr hcreates
  obtain ⟨res', hexec'⟩ := hstep
  rw [hexec] at hexec'
  cases hexec'
  exact hdistinct

/-- Opening `a` twice with `O_CREAT` leaves two entries `a`; made a directory and then a file, `a`
is still found after a successful `remove`. -/
theorem ramDir_second_entry :
    (∃ fs fs' : RamFs,
      RamFs.new.exec (.openFile ["a"] true false) = some (.ok (), fs)
      ∧ fs.exec (.openFile ["a"] true false) = some (.ok (), fs')
      ∧ fs'.names 0 = ["a", "a"])
    ∧ ∃ fs fs' fs'' : RamFs,
      RamFs.new.exec (.openFile ["a"] true true) = some (.ok (), fs)
      ∧ fs.exec (.openFile ["a"] true false) = some (.ok (), fs')
      ∧ fs'.exec (.remove 0 "a") = some (.ok (), fs'')
      ∧ fs''.lookup 0 "a" = .ok (.dir 1) :=
  ⟨⟨_, _, rfl, rfl, by decide⟩, ⟨_, _, _, rfl, rfl, rfl, rfl⟩⟩

end MonkeyOS
