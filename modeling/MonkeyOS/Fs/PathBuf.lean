import Mathlib.Data.List.Infix
import Mathlib.Data.String.Basic
import Mathlib.Tactic.Common

/-!
# MonkeyOS — normalised paths (`filesystem/fs/src/pathbuf.rs`)

A `PathBuf` is the list of the names from the root. `join` splits a text at its slashes and lets each
piece act on the list: a name is pushed, `..` pops, `.` and the empty piece do nothing.

* `splitOn_slash` — splitting a text at slashes is splitting the list of its characters;
* `resolve` — the action of a list of pieces, so that pieces in a row act one after the other;
* `Normal` — the names a path can have; every operation keeps to them (`Reachable.normal`);
* `ofStr_path` — a path is read back from its text;
* `pathBuf_algebra` — the laws of `join` together.
-/

namespace MonkeyOS

/-- The names of a path, from the root. -/
abbrev PathBuf := List String

namespace PathBuf

/-- What one piece of the text does. -/
def step (pb : PathBuf) (x : String) : PathBuf :=
  if x = "." ∨ x = "" then pb
  else if x = ".." then pb.dropLast
  else pb ++ [x]

def join (dir : PathBuf) (path : String) : PathBuf :=
  (path.splitOn "/").foldl step (if path.startsWith "/" then [] else dir)

def path (p : PathBuf) : String := "/" ++ "/".intercalate p

/-- `PathBuf::from(path)`. -/
def ofStr (path : String) : PathBuf := PathBuf.join [] path

/-- `self.dir()`. -/
def dir (p : PathBuf) : PathBuf := p.dropLast

/-- `self.starts_with(target)`. -/
def startsWith (self target : PathBuf) : Bool := target.isPrefixOf self

/-- `self.trim_start(target)`. -/
def trimStart (self target : PathBuf) : PathBuf :=
  if self.startsWith target then self.drop target.length else self

end PathBuf

/-! ## Splitting at slashes -/

section Split

open String

/-- The search for the one-character separator stands at the start of the separator whenever it
stands anywhere, so it is the search for the character. -/
theorem splitOnAux_slash (s : String) (b i : Pos.Raw) (r : List String) :
    splitOnAux s "/" b i 0 r = splitAux s (· == '/') b i r := by
  have hslash : (0 : Pos.Raw).get "/" = '/' := rfl
  have hnext : (0 : Pos.Raw).next "/" = ⟨1⟩ := rfl
  have hend : (⟨1⟩ : Pos.Raw).atEnd "/" = true := rfl
  induction b, i, r using String.splitAux.induct s (· == '/') with
  | case1 b i r h =>
    rw [splitOnAux, splitAux, if_pos h, dif_pos h]
  | case2 b i r h _ hp i' ih =>
    have hback : (i.next s).unoffsetBy ⟨1⟩ = i := by
      rw [Pos.Raw.next, beq_iff_eq.mp hp, Pos.Raw.ext_iff]
      rfl
    rw [splitOnAux, splitAux, if_neg h, dif_neg h, hslash, if_pos hp, if_pos hp]
    simp only [hnext, hend, if_true, hback]
    exact ih
  | case3 b i r h _ hp ih =>
    rw [splitOnAux, splitAux, if_neg h, dif_neg h, hslash, if_neg hp, if_neg hp,
      Pos.Raw.unoffsetBy_zero]
    exact ih

theorem splitOn_slash (s : String) :
    s.splitOn "/" = (s.toList.splitOn '/').map ofList := by
  rw [List.splitOn_eq_splitOnP, ← String.splitToList_of_valid]
  exact splitOnAux_slash s 0 0 []

/-- The pieces of two texts with a slash between them. -/
theorem splitOn_append_slash (a b : String) :
    (a ++ "/" ++ b).splitOn "/" = a.splitOn "/" ++ b.splitOn "/" := by
  have hlist : (a ++ "/" ++ b).toList = a.toList ++ '/' :: b.toList := by simp
  rw [splitOn_slash, hlist, List.splitOn_append_cons_self, List.map_append, ← splitOn_slash,
    ← splitOn_slash]

/-- No piece has the separator in it. -/
theorem notMem_of_mem_splitOn {α : Type*} [DecidableEq α] {x : α} {l piece : List α}
    (h : piece ∈ l.splitOn x) : x ∉ piece := by
  induction l generalizing piece with
  | nil =>
    rw [List.splitOn_nil, List.mem_singleton] at h
    simp [h]
  | cons c l ih =>
    rw [List.splitOn_cons_eq_if_modifyHead] at h
    split at h
    · rcases List.mem_cons.mp h with rfl | hrest
      · simp
      · exact ih hrest
    · rename_i hc
      -- `c` goes to the front of the first piece
      obtain ⟨first, rest, hsplit⟩ := List.exists_cons_of_ne_nil (List.splitOn_ne_nil x l)
      rw [hsplit] at h ih
      rw [List.modifyHead_cons] at h
      rcases List.mem_cons.mp h with rfl | hrest
      · simp only [List.mem_cons, not_or]
        exact ⟨fun heq => hc (beq_iff_eq.mpr heq.symm), ih List.mem_cons_self⟩
      · exact ih (List.mem_cons_of_mem _ hrest)

theorem slash_notMem_of_mem_splitOn {s x : String} (h : x ∈ s.splitOn "/") : '/' ∉ x.toList := by
  rw [splitOn_slash] at h
  obtain ⟨piece, hpiece, rfl⟩ := List.mem_map.mp h
  rw [String.toList_ofList]
  exact notMem_of_mem_splitOn hpiece

theorem startsWith_slash_iff {s : String} : s.startsWith "/" = true ↔ s.toList.head? = some '/' := by
  rw [String.startsWith_string_iff, List.head?_eq_some_iff]
  exact ⟨fun ⟨t, ht⟩ => ⟨t, ht.symm⟩, fun ⟨t, ht⟩ => ⟨t, ht.symm⟩⟩

end Split

/-! ## Pieces acting on a path -/

namespace PathBuf

def resolve (pb : PathBuf) (pieces : List String) : PathBuf := pieces.foldl step pb

theorem join_eq_resolve (p : PathBuf) (s : String) :
    p.join s = resolve (if s.startsWith "/" then [] else p) (s.splitOn "/") := rfl

variable {p : PathBuf} {s b : String}

theorem join_of_absolute (h : s.startsWith "/" = true) (p : PathBuf) :
    p.join s = resolve [] (s.splitOn "/") := by
  rw [join_eq_resolve, if_pos h]

theorem join_of_relative (h : s.startsWith "/" = false) (p : PathBuf) :
    p.join s = resolve p (s.splitOn "/") := by
  rw [join_eq_resolve, if_neg (by rw [h]; exact Bool.false_ne_true)]

theorem resolve_append (pb : PathBuf) (xs ys : List String) :
    resolve pb (xs ++ ys) = resolve (resolve pb xs) ys :=
  List.foldl_append

/-! ## The names a path can have -/

/-- A name: not one of the pieces with a meaning of their own, and without a slash. -/
def Name (x : String) : Prop := x ≠ "" ∧ x ≠ "." ∧ x ≠ ".." ∧ '/' ∉ x.toList

def Normal (p : PathBuf) : Prop := ∀ x ∈ p, Name x

theorem Normal.dropLast (h : p.Normal) : Normal p.dropLast :=
  fun x hx => h x (List.mem_of_mem_dropLast hx)

theorem Normal.step (h : p.Normal) {x : String} (hx : '/' ∉ x.toList) :
    (p.step x).Normal := by
  unfold PathBuf.step
  split
  · exact h
  split
  · exact h.dropLast
  intro y hy
  rcases List.mem_append.mp hy with hp | hnew
  · exact h y hp
  · rw [List.mem_singleton.mp hnew]
    exact ⟨by tauto, by tauto, by tauto, hx⟩

theorem Normal.resolve (h : p.Normal) {xs : List String}
    (hxs : ∀ x ∈ xs, '/' ∉ x.toList) : (p.resolve xs).Normal := by
  induction xs generalizing p with
  | nil => exact h
  | cons x xs ih =>
    exact ih (h.step (hxs x List.mem_cons_self)) (fun y hy => hxs y (List.mem_cons_of_mem _ hy))

theorem normal_nil : Normal [] := fun _ hx => absurd hx List.not_mem_nil

theorem Normal.join (h : p.Normal) (s : String) : (p.join s).Normal := by
  rw [join_eq_resolve]
  apply Normal.resolve
  · split
    · exact normal_nil
    · exact h
  · exact fun x hx => slash_notMem_of_mem_splitOn hx

/-- What the operations build from the empty path. -/
inductive Reachable : PathBuf → Prop where
  | new : Reachable []
  | ofStr (s : String) : Reachable (PathBuf.ofStr s)
  | join {p : PathBuf} (h : Reachable p) (s : String) : Reachable (p.join s)
  | dir {p : PathBuf} (h : Reachable p) : Reachable p.dir

theorem Reachable.normal (h : p.Reachable) : p.Normal := by
  induction h with
  | new => exact normal_nil
  | ofStr s => exact normal_nil.join s
  | join _ s ih => exact ih.join s
  | dir _ ih => exact ih.dropLast

/-! ## Reading a path back -/

/-- Names are pushed one after the other. -/
theorem resolve_of_normal (h : p.Normal) (pb : PathBuf) : pb.resolve p = pb ++ p := by
  induction p generalizing pb with
  | nil => exact (List.append_nil pb).symm
  | cons x p ih =>
    obtain ⟨hempty, hdot, hdots, -⟩ := h x List.mem_cons_self
    have hstep : pb.step x = pb ++ [x] := by
      rw [PathBuf.step, if_neg (by tauto), if_neg hdots]
    show (pb.step x).resolve p = pb ++ x :: p
    rw [hstep, ih (fun y hy => h y (List.mem_cons_of_mem _ hy)), List.append_assoc]
    rfl

theorem ofStr_path (h : p.Normal) : ofStr p.path = p := by
  have htext : p.path.toList = [] ++ '/' :: ['/'].intercalate (p.map String.toList) := by
    simp [path]
  have habs : p.path.startsWith "/" = true := by
    rw [startsWith_slash_iff, htext]
    rfl
  have hsplit : p.path.splitOn "/" = "" :: (if p = [] then [""] else p) := by
    rw [splitOn_slash, htext, List.splitOn_append_cons_self, List.splitOn_nil, List.map_append]
    split
    · rename_i hp
      rw [hp]
      rfl
    · rename_i hp
      rw [List.splitOn_intercalate]
      · simp
      · intro cs hcs
        obtain ⟨x, hx, rfl⟩ := List.mem_map.mp hcs
        exact (h x hx).2.2.2
      · simpa using hp
  rw [ofStr, join_of_absolute habs, hsplit]
  show resolve [] (if p = [] then [""] else p) = p
  split
  · rename_i hp
    rw [hp]
    rfl
  · exact resolve_of_normal h []

/-! ## The laws of `join` -/

/-- A text in two parts acts in two steps. -/
theorem join_append_slash (p : PathBuf) {a : String} (ha : a ≠ "")
    (hb : b.startsWith "/" = false) : p.join (a ++ "/" ++ b) = (p.join a).join b := by
  -- the whole text is absolute exactly when its first part is
  have hhead : (a ++ "/" ++ b).startsWith "/" = a.startsWith "/" := by
    rw [Bool.eq_iff_iff, startsWith_slash_iff, startsWith_slash_iff]
    cases hchars : a.toList with
    | nil => exact absurd (String.toList_eq_nil_iff.mp hchars) ha
    | cons c cs => simp [hchars]
  rw [join_eq_resolve, hhead, splitOn_append_slash, resolve_append, ← join_eq_resolve,
    join_of_relative hb]

/-- `..` at the root does nothing. -/
theorem root_join_parent (hb : b.startsWith "/" = false) :
    join [] ("../" ++ b) = join [] b := by
  have hparent : "../" ++ b = ".." ++ "/" ++ b := rfl
  have hroot : join [] ".." = [] := by
    rw [join_of_relative (by decide +kernel)]
    have hsplit : "..".splitOn "/" = [".."] := by
      rw [splitOn_slash]
      rfl
    rw [hsplit]
    rfl
  rw [hparent, join_append_slash [] (by decide) hb, hroot]

/-- **The algebra of paths.** Every path that the operations build has proper names only and is read
back from its text. An absolute text does not look at the path it is joined to. A text in two parts
acts in two steps. No text leads above the root. -/
theorem pathBuf_algebra {p : PathBuf} (h : p.Reachable) :
    (∀ x ∈ p, x ≠ "" ∧ x ≠ "." ∧ x ≠ ".." ∧ '/' ∉ x.toList)
      ∧ ofStr p.path = p
      ∧ (∀ (q : PathBuf) (s : String), s.startsWith "/" = true → p.join s = q.join s)
      ∧ (∀ a b : String, a ≠ "" → b.startsWith "/" = false →
          p.join (a ++ "/" ++ b) = (p.join a).join b)
      ∧ ∀ b : String, b.startsWith "/" = false → join [] ("../" ++ b) = join [] b := by
  refine ⟨h.normal, ofStr_path h.normal, fun q s hs => ?_, fun a b => join_append_slash p,
    fun b => root_join_parent⟩
  rw [join_of_absolute hs, join_of_absolute hs]

/-- A text with repeated slashes, dots and a `..` that pops an inherited name. -/
theorem pathBuf_algebra_lib :
    ofStr (path ((ofStr "/usr//bin/.").join "../lib/x")) = (ofStr "/usr//bin/.").join "../lib/x"
      ∧ (ofStr "/usr//bin/.").join "../lib/x" = ["usr", "lib", "x"] := by
  refine ⟨(pathBuf_algebra (.join (.ofStr "/usr//bin/.") "../lib/x")).2.1, ?_⟩
  rw [ofStr, join_eq_resolve, join_eq_resolve, splitOn_slash, splitOn_slash]
  decide +kernel

end PathBuf

end MonkeyOS
