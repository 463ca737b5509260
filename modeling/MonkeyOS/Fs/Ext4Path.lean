import MonkeyOS.Fs.PathBuf
import MonkeyOS.Lib.Components

/-!
# MonkeyOS — paths for lwext4 (`filesystem/fs/src/ext4_shim.rs`)

`lwext4` wants absolute paths. `path_deal_with` cleans a name up and puts the path of the directory in
front. It rewrites the name in three ways, slashes off the ends, `./` off the front, `//` to `/`, and
calls itself again after the second and the third, since each can make room for another.

* `dealWith` — the recursion, on the characters; each call is on fewer of them;
* `Cleaned` — what it makes of a name; `cleaned_dealWith`, by induction along the calls;
* `pathDealWith_clean` — the same of texts.
-/

namespace MonkeyOS

open Lib

/-- `path_deal_with`, for the path `dir` of the directory. -/
def dealWith (dir path : List Char) : List Char :=
  let p := trim '/' path
  if p = [] ∨ p = ['.'] then []
  else if ['.', '/'] <+: p then dealWith dir (p.drop 2)
  else if p ≠ squeeze '/' p then dealWith dir (squeeze '/' p)
  else trimEnd '/' dir ++ '/' :: p
termination_by path.length
decreasing_by
  · rename_i hprefix
    have hle := length_trim_le '/' path
    have hlen : 2 ≤ (trim '/' path).length := hprefix.length_le
    show ((trim '/' path).drop 2).length < path.length
    rw [List.length_drop]
    omega
  · rename_i hchanged
    have hle := length_trim_le '/' path
    have hshorter := length_squeeze_le '/' (trim '/' path)
    refine Nat.lt_of_lt_of_le (Nat.lt_of_le_of_ne hshorter ?_) hle
    exact fun heq => hchanged (squeeze_of_length_eq '/' heq).1.symm

structure Ext4FileWrapper where
  /-- what `get_path` of the inner file answers -/
  path : String

def Ext4FileWrapper.pathDealWith (self : Ext4FileWrapper) (path : String) : String :=
  .ofList (dealWith self.path.toList path.toList)

/-! ## What is left of a name -/

/-- A path as `lwext4` wants it behind the directory. -/
structure CleanPath (p : List Char) : Prop where
  head : p.head? ≠ some '/'
  last : p.getLast? ≠ some '/'
  dot : ¬ ['.', '/'] <+: p
  double : ¬ ['/', '/'] <:+: p

/-- The two results: nothing, or a clean path with the components of the name behind its leading dots. -/
inductive Cleaned (dir path : List Char) : List Char → Prop where
  | nothing (hdots : ∀ c ∈ components '/' path, c = ['.']) : Cleaned dir path []
  | path (p : List Char) (hclean : CleanPath p)
      (hcomponents : components '/' p = (components '/' path).dropWhile (· = ['.']))
      (hne : components '/' p ≠ []) : Cleaned dir path (trimEnd '/' dir ++ '/' :: p)

/-- The first component of a name that begins neither with a slash nor with `./` is not a dot, unless it
is the whole name. -/
theorem components_not_dot {p : List Char} (hne : p ≠ []) (hone : p ≠ ['.']) (hhead : p.head? ≠ some '/')
    (hdot : ¬ ['.', '/'] <+: p) : ∃ c rest, components '/' p = c :: rest ∧ c ≠ ['.'] := by
  obtain ⟨c, rest, hcomponents, hp⟩ := components_eq_cons '/' hne hhead
  refine ⟨c, rest, hcomponents, ?_⟩
  rintro rfl
  rcases hp with rfl | ⟨b, rfl⟩
  · exact hone rfl
  · exact hdot ⟨b, rfl⟩

/-- A name with the same components behind its leading dots has the same results. -/
theorem Cleaned.congr {dir path path' res : List Char} (h : Cleaned dir path' res)
    (hall : (∀ c ∈ components '/' path', c = ['.']) → ∀ c ∈ components '/' path, c = ['.'])
    (hdrop : (components '/' path').dropWhile (· = ['.']) = (components '/' path).dropWhile (· = ['.'])) :
    Cleaned dir path res := by
  cases h with
  | nothing hdots => exact .nothing (hall hdots)
  | path p hclean hcomponents hne => exact .path p hclean (hcomponents.trans hdrop) hne

theorem cleaned_dealWith (dir path : List Char) : Cleaned dir path (dealWith dir path) := by
  fun_induction dealWith dir path with
  | case1 path p hp =>
    refine .nothing ?_
    rw [← components_trim]
    rcases hp with hp | hp
    · rw [show trim '/' path = [] from hp]
      simp
    · rw [show trim '/' path = ['.'] from hp]
      decide
  | case2 path p hp hprefix ih =>
    obtain ⟨rest, hrest⟩ := hprefix
    have hdrop : p.drop 2 = rest := by
      rw [← hrest]
      rfl
    rw [hdrop] at ih ⊢
    -- the dot in front is one component more
    have hmore : components '/' path = ['.'] :: components '/' rest := by
      rw [← components_trim]
      show components '/' p = _
      rw [← hrest]
      exact components_append_cons '/' ['.'] rest
    refine ih.congr ?_ ?_
    · rw [hmore]
      intro hdots c hc
      rcases List.mem_cons.mp hc with rfl | hc
      · rfl
      · exact hdots c hc
    · rw [hmore, List.dropWhile_cons_of_pos (by decide)]
  | case3 path p hp hprefix hchanged ih =>
    have hsame : components '/' (squeeze '/' p) = components '/' path :=
      (components_append_squeeze '/' [] p).trans (components_trim '/' path)
    refine ih.congr ?_ ?_
    · rw [hsame]
      exact id
    · rw [hsame]
  | case4 path p hp hprefix hchanged =>
    have hsqueezed : p = squeeze '/' p := not_not.mp hchanged
    have hlen : (squeeze '/' p).length = p.length := congrArg List.length hsqueezed.symm
    have hdouble := (squeeze_of_length_eq '/' hlen).2
    obtain ⟨hne, hone⟩ := not_or.mp hp
    obtain ⟨c, rest, hcomponents, hc⟩ := components_not_dot hne hone (head?_trim '/' path) hprefix
    refine .path p ⟨head?_trim '/' path, getLast?_trimEnd '/' _, hprefix, hdouble⟩ ?_ ?_
    · rw [← components_trim '/' path]
      show components '/' p = (components '/' p).dropWhile _
      rw [hcomponents, List.dropWhile_cons_of_neg (by simpa using hc)]
    · rw [hcomponents]
      exact List.cons_ne_nil _ _

/-! ## Texts -/

/-- The names between the slashes of a text. -/
def names (s : String) : List String := (s.splitOn "/").filter (· ≠ "")

theorem names_eq (s : String) : names s = (components '/' s.toList).map .ofList := by
  unfold names components
  rw [splitOn_slash, List.filter_map]
  congr 1
  apply List.filter_congr
  intro c _
  simp

theorem names_ofList (cs : List Char) : names (.ofList cs) = (components '/' cs).map .ofList := by
  rw [names_eq, String.toList_ofList]

theorem ofList_eq_dot_iff (cs : List Char) : String.ofList cs = "." ↔ cs = ['.'] :=
  @String.ofList_inj cs ['.']

/-- **Cleaned paths.** The result is empty exactly if every name of the text is a dot; otherwise it is the
directory without the slashes at its end, a slash, and a clean path with the names of the text but for
the dots in front. -/
theorem pathDealWith_clean (self : Ext4FileWrapper) (s : String) :
    (self.pathDealWith s = "" ↔ ∀ name ∈ names s, name = ".")
      ∧ (self.pathDealWith s ≠ "" → ∃ dir p n, self.pathDealWith s = dir ++ "/" ++ p
        ∧ self.path.toList = dir.toList ++ List.replicate n '/' ∧ dir.toList.getLast? ≠ some '/'
        ∧ CleanPath p.toList ∧ names p = (names s).dropWhile (· = ".")) := by
  have hdots : (∀ name ∈ names s, name = ".") ↔ ∀ c ∈ components '/' s.toList, c = ['.'] := by
    rw [names_eq, List.forall_mem_map]
    exact forall₂_congr (fun c _ => ofList_eq_dot_iff c)
  have hcleaned := cleaned_dealWith self.path.toList s.toList
  unfold Ext4FileWrapper.pathDealWith
  rw [hdots]
  generalize dealWith self.path.toList s.toList = res at hcleaned
  cases hcleaned with
  | nothing hall => exact ⟨iff_of_true rfl hall, fun hne => absurd rfl hne⟩
  | path p hclean hcomponents hne =>
    obtain ⟨n, hdir⟩ := eq_trimEnd_append '/' self.path.toList
    have hsome : String.ofList (trimEnd '/' self.path.toList ++ '/' :: p) ≠ "" := by
      simp
    have hnotDots : ¬ ∀ c ∈ components '/' s.toList, c = ['.'] := by
      intro hall
      apply hne
      rw [hcomponents, List.dropWhile_eq_nil_iff]
      exact fun c hc => decide_eq_true (hall c hc)
    refine ⟨iff_of_false hsome hnotDots, fun _ => ?_⟩
    refine ⟨.ofList (trimEnd '/' self.path.toList), .ofList p, n, ?_, ?_, ?_, ?_, ?_⟩
    · simp [String.append_assoc]
    · rw [String.toList_ofList]
      exact hdir
    · rw [String.toList_ofList]
      exact getLast?_trimEnd '/' self.path.toList
    · rw [String.toList_ofList]
      exact hclean
    · have hdot : (fun c => decide (c = ['.'])) = (fun name => decide (name = ".")) ∘ String.ofList :=
        funext (fun c => decide_eq_decide.mpr (ofList_eq_dot_iff c).symm)
      rw [names_ofList, names_eq, hcomponents, List.dropWhile_map, hdot]

end MonkeyOS
