import MonkeyOS.Lib.Chain
import MonkeyOS.Task.Exec

/-!
# MonkeyOS — how far `execve` looks for a program

`exec_with_process` calls itself: a file that is no ELF file goes to the `busybox` of the current
directory, a dynamically linked one to the configured linker. Nothing bounds the depth.

* `Passes`, `Final` — one call of the recursion, and the call it makes or that it makes none;
* `Reaches` — a program or an error is reached; `Reaches.returns`, `reaches_of_returns`, what that
  says of `execWithProcess`;
* `nextPath` — whom a file is handed to, which depends on the files alone;
* `exec_reaches_iff` — there are two paths to hand a file to, so the third call is the last one, or
  the calls go round in a circle;
* `exec_busybox_loops` — a `busybox` that is a script;
* `interpLinker` — the linker by the text of the interpreter header; `exec_linker_iff`, the files that
  are handed to it.
-/

namespace MonkeyOS

open Lib

/-- A call of `exec_with_process`, from where the old areas are gone. -/
structure ExecCall (K : Type) where
  k : K
  path : String
  args : List String

/-- A program, or an error. -/
def Found.final {K : Type} : Found K → Bool
  | .cached _ => true
  | .program _ _ => true
  | .failed _ => true
  | .interpreter _ _ _ _ => false
  | .panicked => false

namespace ExecEnv

variable {K : Type} (env : ExecEnv K) (currDir : PathBuf)

/-- The first call makes the second. -/
def Passes (s t : ExecCall K) : Prop :=
  ∃ new skip, env.find s.k (PathBuf.join currDir s.path) = .interpreter t.path new skip t.k
    ∧ t.args = new ++ s.args.drop skip

def Final (s : ExecCall K) : Prop := (env.find s.k (PathBuf.join currDir s.path)).final = true

/-- After finitely many calls there is a program, or an error. -/
def Reaches (k : K) (areas : List MemArea) (path : String) (args : List String) : Prop :=
  ∃ k₀, env.dropAreas k areas = some k₀
    ∧ ∃ n, EndsIn (env.Passes currDir) (env.Final currDir) n ⟨k₀, path, args⟩

/-- Nothing is dropped with no area, and a buffer does not change what is in the files. -/
structure Quiet : Prop where
  drop : ∀ k, env.dropAreas k [] = some k
  openFile : ∀ k pages k', env.bufferAlloc k pages = some k' → env.openFile k' = env.openFile k
  fileSize : ∀ k pages k', env.bufferAlloc k pages = some k' → env.fileSize k' = env.fileSize k
  readat : ∀ k pages k', env.bufferAlloc k pages = some k' → env.readat k' = env.readat k

/-! ## The calls and what they return -/

section Returns

variable {env currDir} (hquiet : env.Quiet)

include hquiet

/-- A search that ends is a call that returns. -/
theorem EndsIn.returns {n : Nat} {s : ExecCall K}
    (h : EndsIn (env.Passes currDir) (env.Final currDir) n s) (task : ExecTask) :
    task.space.memset.areas = [] → ∃ r, env.Returns currDir s.k task s.path s.args r := by
  induction h generalizing task with
  | @here s hfinal =>
    intro hareas
    suffices hsome : (env.execWithProcess currDir 1 s.k task s.path s.args).isSome = true by
      obtain ⟨r, hr⟩ := Option.isSome_iff_exists.mp hsome
      exact ⟨r, 1, hr⟩
    unfold Final at hfinal
    simp only [execWithProcess, hareas, hquiet.drop]
    cases hfind : env.find s.k (PathBuf.join currDir s.path) with
    | cached cache => rfl
    | program f k =>
      simp only
      split
      · rfl
      · rfl
    | failed e => rfl
    | interpreter path new skip k =>
      rw [hfind] at hfinal
      cases hfinal
    | panicked => rfl
  | @next s t n hpasses hrest ih =>
    intro hareas
    obtain ⟨new, skip, hfind, hargs⟩ := hpasses
    obtain ⟨r, fuel, hfuel⟩ := ih task.teardown rfl
    refine ⟨r, fuel + 1, ?_⟩
    simp only [execWithProcess, hareas, hquiet.drop, hfind]
    rw [← hargs]
    exact hfuel

variable {r : ExecResult} {path : String} {k : K} {args : List String} {task : ExecTask}

/-- A call that returns no panic has come to a program or an error. -/
theorem endsIn_of_execWithProcess {fuel : Nat}
    (h : env.execWithProcess currDir fuel k task path args = some r) (hr : r ≠ .panicked) :
    task.space.memset.areas = [] →
      ∃ n, EndsIn (env.Passes currDir) (env.Final currDir) n ⟨k, path, args⟩ := by
  induction fuel generalizing k task path args with
  | zero => cases h
  | succ fuel ih =>
    intro hareas
    have hhere : (env.find k (PathBuf.join currDir path)).final = true →
        ∃ n, EndsIn (env.Passes currDir) (env.Final currDir) n ⟨k, path, args⟩ :=
      fun hfinal => ⟨0, .here hfinal⟩
    simp only [execWithProcess, hareas, hquiet.drop] at h
    cases hfind : env.find k (PathBuf.join currDir path) with
    | cached cache => exact hhere (by rw [hfind]; rfl)
    | program f k' => exact hhere (by rw [hfind]; rfl)
    | failed e => exact hhere (by rw [hfind]; rfl)
    | interpreter path' new skip k' =>
      rw [hfind] at h
      obtain ⟨n, hn⟩ := ih h rfl
      exact ⟨n + 1, .next ⟨new, skip, hfind, rfl⟩ hn⟩
    | panicked =>
      rw [hfind] at h
      cases h
      exact absurd rfl hr

/-- With the areas gone, the call is one of a task without any. -/
theorem execWithProcess_dropped {k₀ : K} (hdrop : env.dropAreas k task.space.memset.areas = some k₀)
    (fuel : Nat) (path : String) (args : List String) :
    env.execWithProcess currDir fuel k task path args
      = env.execWithProcess currDir fuel k₀ task.teardown path args := by
  cases fuel with
  | zero => rfl
  | succ fuel =>
    have hnone : env.dropAreas k₀ task.teardown.space.memset.areas = some k₀ := hquiet.drop k₀
    simp only [execWithProcess, hdrop, hnone]
    rfl

theorem Reaches.returns (h : env.Reaches currDir k task.space.memset.areas path args) :
    ∃ r, env.Returns currDir k task path args r := by
  obtain ⟨k₀, hdrop, n, hn⟩ := h
  obtain ⟨r, fuel, hfuel⟩ := EndsIn.returns hquiet hn task.teardown rfl
  exact ⟨r, fuel, (execWithProcess_dropped hquiet hdrop fuel path args).trans hfuel⟩

theorem reaches_of_returns (h : env.Returns currDir k task path args r) (hr : r ≠ .panicked) :
    env.Reaches currDir k task.space.memset.areas path args := by
  obtain ⟨fuel, hfuel⟩ := h
  cases hdrop : env.dropAreas k task.space.memset.areas with
  | none =>
    cases fuel with
    | zero => cases hfuel
    | succ fuel =>
      simp only [execWithProcess, hdrop] at hfuel
      cases hfuel
      exact absurd rfl hr
  | some k₀ =>
    rw [execWithProcess_dropped hquiet hdrop] at hfuel
    obtain ⟨n, hn⟩ := endsIn_of_execWithProcess hquiet hfuel hr rfl
    exact ⟨k₀, hdrop, n, hn⟩

end Returns

/-! ## Whom a file is handed to -/

/-- `none` when the file is run itself, or cannot be read. -/
def nextPath (k : K) (path : PathBuf) : Option String :=
  match env.caches.find? (·.name == path), env.openFile k path with
  | none, .ok file =>
    match env.fileSize k file with
    | .ok size =>
      match env.readat k file size with
      | .ok buffer =>
        match ElfFile.new buffer with
        | none => some "busybox"
        | some f => f.interp.join.map (fun _ => env.dynPath)
      | .error _ => none
    | .error _ => none
  | _, _ => none

/-- The files are the same in both states. -/
structure SameFiles (k k' : K) : Prop where
  openFile : env.openFile k' = env.openFile k
  fileSize : env.fileSize k' = env.fileSize k
  readat : env.readat k' = env.readat k

section Next

variable {env} {k k' k'' : K} {path : PathBuf}

theorem SameFiles.refl (k : K) : env.SameFiles k k := ⟨rfl, rfl, rfl⟩

theorem SameFiles.trans (h : env.SameFiles k k') (h' : env.SameFiles k' k'') :
    env.SameFiles k k'' where
  openFile := h'.openFile.trans h.openFile
  fileSize := h'.fileSize.trans h.fileSize
  readat := h'.readat.trans h.readat

theorem SameFiles.nextPath (h : env.SameFiles k k') : env.nextPath k' path = env.nextPath k path := by
  unfold ExecEnv.nextPath
  rw [h.openFile, h.fileSize, h.readat]

/-- What the search does with a file, unless it panics. -/
theorem find_nextPath (hquiet : env.Quiet) (k : K) (path : PathBuf) :
    match env.find k path with
    | .interpreter next _ _ k' => env.nextPath k path = some next ∧ env.SameFiles k k'
    | .panicked => True
    | _ => env.nextPath k path = none := by
  unfold find nextPath
  cases env.caches.find? (·.name == path) with
  | some cache => rfl
  | none =>
    unfold readProgram
    cases env.openFile k path with
    | error e => rfl
    | ok file =>
      simp only
      cases env.fileSize k file with
      | error e => rfl
      | ok size =>
        simp only
        rcases Nat.eq_zero_or_pos size with hzero | hpos
        · rw [if_pos hzero]
          trivial
        · rw [if_neg (by omega)]
          cases hbuffer : env.bufferAlloc k (divCeil size pageSize) with
          | none => trivial
          | some k' =>
            have hsame : env.SameFiles k k' :=
              ⟨hquiet.openFile _ _ _ hbuffer, hquiet.fileSize _ _ _ hbuffer,
                hquiet.readat _ _ _ hbuffer⟩
            simp only [hsame.readat]
            cases env.readat k file size with
            | error e => rfl
            | ok buffer =>
              simp only
              rcases Nat.decEq buffer.length size with hshort | hlength
              · rw [if_neg hshort]
                trivial
              · rw [if_pos hlength]
                unfold classify
                cases ElfFile.new buffer with
                | none => exact ⟨rfl, hsame⟩
                | some f =>
                  simp only [detectLibcType_dropped]
                  rcases f.interp with _ | _ | interp
                  · trivial
                  · rfl
                  · exact ⟨rfl, .refl k⟩

theorem Passes.nextPath (hquiet : env.Quiet) {currDir : PathBuf} {s t : ExecCall K}
    (h : env.Passes currDir s t) :
    env.nextPath s.k (PathBuf.join currDir s.path) = some t.path ∧ env.SameFiles s.k t.k := by
  obtain ⟨new, skip, hfind, -⟩ := h
  have hnext := find_nextPath hquiet s.k (PathBuf.join currDir s.path)
  rw [hfind] at hnext
  exact hnext

theorem Final.nextPath (hquiet : env.Quiet) {currDir : PathBuf} {s : ExecCall K}
    (h : env.Final currDir s) : env.nextPath s.k (PathBuf.join currDir s.path) = none := by
  have hnext := find_nextPath hquiet s.k (PathBuf.join currDir s.path)
  unfold Final at h
  split at hnext
  · rename_i hfind
    rw [hfind] at h
    cases h
  · rename_i hfind
    rw [hfind] at h
    cases h
  · exact hnext

/-- There are only these two to hand a file to. -/
theorem nextPath_mem {next : String} (h : env.nextPath k path = some next) :
    next ∈ ["busybox", env.dynPath] := by
  unfold ExecEnv.nextPath at h
  split at h
  · split at h
    · split at h
      · split at h
        · cases h
          exact List.mem_cons_self
        · obtain ⟨_, -, rfl⟩ := Option.map_eq_some_iff.mp h
          exact List.mem_cons_of_mem _ List.mem_cons_self
      · cases h
    · cases h
  · cases h

/-- The path decides how many calls are left, so no path comes twice after the first call. -/
theorem endsIn_le_two (hquiet : env.Quiet) {currDir : PathBuf} {n : Nat} {s : ExecCall K}
    (h : EndsIn (env.Passes currDir) (env.Final currDir) n s) : n ≤ 2 := by
  refine h.le_length (I := fun t => env.SameFiles s.k t.k) (·.path) ?_ ?_ ?_
    ["busybox", env.dynPath] ?_ (.refl s.k)
  · intro t u ht hpasses
    exact ht.trans (hpasses.nextPath hquiet).2
  · intro t t' u u' ht ht' hpath hpasses hpasses'
    have hnext := (hpasses.nextPath hquiet).1
    have hnext' := (hpasses'.nextPath hquiet).1
    rw [ht.nextPath, show t.path = t'.path from hpath] at hnext
    rw [ht'.nextPath, hnext] at hnext'
    exact Option.some.inj hnext'
  · intro t t' u' ht ht' hpath hfinal hpasses'
    have hnext := hfinal.nextPath hquiet
    have hnext' := (hpasses'.nextPath hquiet).1
    rw [ht.nextPath, show t.path = t'.path from hpath] at hnext
    rw [ht'.nextPath, hnext] at hnext'
    cases hnext'
  · intro t u _ hpasses
    exact nextPath_mem (hpasses.nextPath hquiet).1

end Next

/-! ## Termination -/

theorem Passes.path_mem (hquiet : env.Quiet) {s t : ExecCall K} (h : env.Passes currDir s t) :
    t.path ∈ ["busybox", env.dynPath] :=
  nextPath_mem (h.nextPath hquiet).1

/-- The recursion comes to a program or an error exactly if one of its first three calls does: the
old areas can be dropped, and the file is run itself, is cached or cannot be read; or it is handed to
`busybox` or to the linker, and that one is; or that one is handed on in its turn, to the other of the
two, and the other is. -/
theorem exec_reaches_iff (hquiet : env.Quiet) (k : K) (task : ExecTask) (path : String)
    (args : List String) :
    env.Reaches currDir k task.space.memset.areas path args
      ↔ ∃ k₀, env.dropAreas k task.space.memset.areas = some k₀
        ∧ (env.Final currDir ⟨k₀, path, args⟩
          ∨ ∃ t, env.Passes currDir ⟨k₀, path, args⟩ t ∧ t.path ∈ ["busybox", env.dynPath]
            ∧ (env.Final currDir t
              ∨ ∃ u, env.Passes currDir t u ∧ u.path ∈ ["busybox", env.dynPath]
                ∧ env.Final currDir u)) := by
  constructor
  · rintro ⟨k₀, hdrop, n, hn⟩
    refine ⟨k₀, hdrop, ?_⟩
    have hle := endsIn_le_two hquiet hn
    cases hn with
    | here hfinal => exact .inl hfinal
    | next hpasses hrest =>
      refine .inr ⟨_, hpasses, hpasses.path_mem env currDir hquiet, ?_⟩
      cases hrest with
      | here hfinal => exact .inl hfinal
      | next hpasses' hlast =>
        refine .inr ⟨_, hpasses', hpasses'.path_mem env currDir hquiet, ?_⟩
        cases hlast with
        | here hfinal => exact hfinal
        | next => omega
  · rintro ⟨k₀, hdrop, hfinal | ⟨t, hpasses, -, hfinal | ⟨u, hpasses', -, hfinal⟩⟩⟩
    · exact ⟨k₀, hdrop, 0, .here hfinal⟩
    · exact ⟨k₀, hdrop, 1, .next hpasses (.here hfinal)⟩
    · exact ⟨k₀, hdrop, 2, .next hpasses (.next hpasses' (.here hfinal))⟩

/-- It is enough that the file itself makes no panic, and that `busybox` and the linker are each run
themselves, cached or missing. -/
theorem reaches_of_servers (hquiet : env.Quiet) {k k₀ : K} {areas : List MemArea} {path : String}
    {args : List String} (hdrop : env.dropAreas k areas = some k₀)
    (hfirst : env.find k₀ (PathBuf.join currDir path) ≠ .panicked)
    (hservers : ∀ k', env.SameFiles k₀ k' → ∀ p ∈ ["busybox", env.dynPath],
      (env.find k' (PathBuf.join currDir p)).final = true) :
    env.Reaches currDir k areas path args := by
  cases hfind : env.find k₀ (PathBuf.join currDir path) with
  | panicked => exact absurd hfind hfirst
  | interpreter next new skip k' =>
    have hpasses : env.Passes currDir ⟨k₀, path, args⟩ ⟨k', next, new ++ args.drop skip⟩ :=
      ⟨new, skip, hfind, rfl⟩
    have hserver := hservers k' (hpasses.nextPath hquiet).2 next (hpasses.path_mem _ _ hquiet)
    exact ⟨k₀, hdrop, 1, .next hpasses (.here hserver)⟩
  | cached cache => exact ⟨k₀, hdrop, 0, .here (by simp [Final, hfind, Found.final])⟩
  | program f k' => exact ⟨k₀, hdrop, 0, .here (by simp [Final, hfind, Found.final])⟩
  | failed e => exact ⟨k₀, hdrop, 0, .here (by simp [Final, hfind, Found.final])⟩

/-! ## The linker -/

/-- The file is not cached, and is read as `buffer`; the buffer is allocated from `k` to `k'`. -/
structure Reads (k k' : K) (path : PathBuf) (buffer : List UInt8) : Prop where
  uncached : env.caches.find? (·.name == path) = none
  nonempty : buffer ≠ []
  allocated : env.bufferAlloc k (divCeil buffer.length pageSize) = some k'
  read : ∃ file, env.openFile k path = .ok file ∧ env.fileSize k file = .ok buffer.length
    ∧ env.readat k' file buffer.length = .ok buffer

/-- `musl` is in the text of an interpreter header. -/
def namesMusl (data : List UInt8) : Bool :=
  data.tails.any (fun rest => [0x6d, 0x75, 0x73, 0x6c].isPrefixOf rest)

/-- The linker that the text asks for. -/
def interpLinker (data : List UInt8) : String :=
  if namesMusl data then env.libcPath else env.dynPath

variable {env}

theorem Reads.find {k k' : K} {path : PathBuf} {buffer : List UInt8}
    (h : env.Reads k k' path buffer) : env.find k path = env.classify k k' path buffer := by
  obtain ⟨file, hopen, hsize, hread⟩ := h.read
  have hlength : buffer.length ≠ 0 := by
    rw [ne_eq, List.length_eq_zero_iff]
    exact h.nonempty
  unfold ExecEnv.find readProgram
  rw [h.uncached, hopen]
  simp only [hsize, if_neg hlength, h.allocated, hread, if_true]

/-- Whatever the text says, the file goes to one linker: the buffer is cleared before it is read. -/
theorem classify_dynamic {f : ElfFile} {buffer data : List UInt8} (hnew : ElfFile.new buffer = some f)
    (hinterp : f.interp = some (some data)) (k k' : K) (path : PathBuf) :
    env.classify k k' path buffer = .interpreter env.dynPath [env.dynPath, path.path] 1 k := by
  unfold classify
  rw [hnew]
  simp only [hinterp, detectLibcType_dropped]
  rfl

variable (env)

/-- A dynamically linked program is handed to the linker that its interpreter header asks for exactly
if the header does not ask for `musl`, or there is one linker for both. -/
theorem exec_linker_iff {k k' : K} {path : PathBuf} {buffer data : List UInt8} {f : ElfFile}
    (hreads : env.Reads k k' path buffer) (hnew : ElfFile.new buffer = some f)
    (hinterp : f.interp = some (some data)) :
    env.find k path = .interpreter (env.interpLinker data) [env.interpLinker data, path.path] 1 k
      ↔ (namesMusl data = true → env.libcPath = env.dynPath) := by
  rw [hreads.find, classify_dynamic hnew hinterp]
  unfold interpLinker
  cases namesMusl data with
  | false => simp
  | true =>
    rw [if_pos rfl]
    constructor
    · intro h _
      injection h with hpath
      exact hpath.symm
    · intro h
      rw [h rfl]

end ExecEnv

/-! ## Scripts in a directory -/

/-- The header of a static program for 64 bits, without any program header. -/
def bareElf : List UInt8 := [0x7f, 0x45, 0x4c, 0x46, 2, 1, 1] ++ List.replicate 57 0

/-- Two files, the script `hello` and `busybox`. -/
def ExecEnv.shell (busybox : List UInt8) : ExecEnv Unit where
  caches := []
  libcPath := "/lib/libc.so"
  dynPath := "/lib/ld.so"
  openFile := fun _ path =>
    if path = ["hello"] then .ok 0 else if path = ["busybox"] then .ok 1 else .error .ENOENT
  fileSize := fun _ file => .ok (if file = 0 then 3 else busybox.length)
  bufferAlloc := fun _ _ => some ()
  readat := fun _ file _ => .ok (if file = 0 then [0x23, 0x21, 0x0a] else busybox)
  dropAreas := fun _ _ => some ()
  alloc := fun _ _ => .bare

theorem ExecEnv.shell_quiet (busybox : List UInt8) : (shell busybox).Quiet :=
  ⟨fun _ => rfl, fun _ _ _ _ => rfl, fun _ _ _ _ => rfl, fun _ _ _ _ => rfl⟩

theorem PathBuf.root_join_busybox : PathBuf.join [] "busybox" = ["busybox"] := by
  rw [join_eq_resolve, splitOn_slash]
  decide +kernel

theorem PathBuf.root_join_hello : PathBuf.join [] "hello" = ["hello"] := by
  rw [join_eq_resolve, splitOn_slash]
  decide +kernel

/-- The script is handed to a `busybox` that is a program. -/
theorem exec_reaches_iff_script :
    (ExecEnv.shell bareElf).Reaches [] () ExecTask.onePage.space.memset.areas "hello" ["hello"] := by
  apply (ExecEnv.exec_reaches_iff (.shell bareElf) [] (ExecEnv.shell_quiet bareElf) () .onePage "hello"
    ["hello"]).mpr
  refine ⟨(), rfl, .inr ⟨⟨(), "busybox", ["busybox", "sh", "hello"]⟩, ?_, List.mem_cons_self,
    .inl ?_⟩⟩
  · refine ⟨["busybox", "sh"], 0, ?_, rfl⟩
    show (ExecEnv.shell bareElf).find () (PathBuf.join [] "hello") = _
    rw [PathBuf.root_join_hello]
    rfl
  · show ((ExecEnv.shell bareElf).find () (PathBuf.join [] "busybox")).final = true
    rw [PathBuf.root_join_busybox]
    rfl

theorem ExecEnv.shell_script_loops (fuel : Nat) (task : ExecTask) (args : List String) :
    (shell [0x23, 0x21]).execWithProcess [] fuel () task "busybox" args = none := by
  induction fuel generalizing task args with
  | zero => rfl
  | succ fuel ih =>
    have hfind : (shell [0x23, 0x21]).find () (PathBuf.join [] "busybox")
        = .interpreter "busybox" ["busybox", "sh"] 0 () := by
      rw [PathBuf.root_join_busybox]
      rfl
    have hdrop : (shell [0x23, 0x21]).dropAreas () task.space.memset.areas = some () := rfl
    simp only [execWithProcess, hdrop, hfind]
    exact ih _ _

/-- A `busybox` that is a script itself: the call never returns. -/
theorem exec_busybox_loops :
    ¬ (ExecEnv.shell [0x23, 0x21]).Reaches [] () ExecTask.onePage.space.memset.areas "busybox"
        ["busybox"]
      ∧ ¬ ∃ r, (ExecEnv.shell [0x23, 0x21]).Returns [] () .onePage "busybox" ["busybox"] r := by
  have hloops : ¬ ∃ r, (ExecEnv.shell [0x23, 0x21]).Returns [] () .onePage "busybox" ["busybox"] r := by
    rintro ⟨r, fuel, hfuel⟩
    rw [ExecEnv.shell_script_loops] at hfuel
    cases hfuel
  exact ⟨fun hreaches => hloops (hreaches.returns (ExecEnv.shell_quiet _)), hloops⟩

/-! ## Dynamically linked programs -/

/-- A program with one header, for an interpreter whose name has eight bytes. -/
def dynamicElf (interp : List UInt8) : List UInt8 :=
  [0x7f, 0x45, 0x4c, 0x46, 2, 1, 1, 0] ++ leBytes 8 0
    ++ leBytes 2 2 ++ leBytes 2 243 ++ leBytes 4 1 ++ leBytes 8 0 ++ leBytes 8 64
    ++ leBytes 8 0 ++ leBytes 4 0 ++ leBytes 2 64 ++ leBytes 2 56 ++ leBytes 2 1 ++ leBytes 2 0
    ++ leBytes 2 0 ++ leBytes 2 0
    ++ leBytes 4 3 ++ leBytes 4 4 ++ leBytes 8 120 ++ leBytes 8 0 ++ leBytes 8 0
    ++ leBytes 8 8 ++ leBytes 8 8 ++ leBytes 8 1 ++ interp

/-- `ld-linux` -/
def linuxInterp : List UInt8 := [0x6c, 0x64, 0x2d, 0x6c, 0x69, 0x6e, 0x75, 0x78]

/-- `ld-musl` -/
def muslInterp : List UInt8 := [0x6c, 0x64, 0x2d, 0x6d, 0x75, 0x73, 0x6c, 0]

theorem dynamicElf_interp :
    ∀ interp ∈ [linuxInterp, muslInterp], ∃ f, ElfFile.new (dynamicElf interp) = some f
      ∧ f.interp = some (some interp) := by
  have hval : ∀ interp ∈ [linuxInterp, muslInterp],
      (ElfFile.new (dynamicElf interp)).map ElfFile.interp = some (some (some interp)) := by
    decide +kernel
  intro interp h
  exact Option.map_eq_some_iff.mp (hval interp h)

theorem ExecEnv.shell_reads (busybox : List UInt8) (h : busybox ≠ []) :
    (shell busybox).Reads () () ["busybox"] busybox :=
  ⟨rfl, h, rfl, 1, rfl, rfl, rfl⟩

/-- A program for `ld-linux` is handed to it. -/
theorem exec_linker_iff_linux :
    (ExecEnv.shell (dynamicElf linuxInterp)).find () ["busybox"]
      = .interpreter "/lib/ld.so" ["/lib/ld.so", "/busybox"] 1 () := by
  obtain ⟨f, hnew, hinterp⟩ := dynamicElf_interp linuxInterp (by simp)
  exact (ExecEnv.exec_linker_iff _ (ExecEnv.shell_reads _ (List.cons_ne_nil _ _)) hnew hinterp).mpr
    (fun h => absurd h (by decide))

/-- A program for `ld-musl` is handed to the other linker. -/
theorem exec_linker_musl :
    (∃ f, ElfFile.new (dynamicElf muslInterp) = some f ∧ f.interp = some (some muslInterp))
      ∧ ExecEnv.namesMusl muslInterp = true
      ∧ (ExecEnv.shell (dynamicElf muslInterp)).interpLinker muslInterp = "/lib/libc.so"
      ∧ (ExecEnv.shell (dynamicElf muslInterp)).find () ["busybox"]
        = .interpreter "/lib/ld.so" ["/lib/ld.so", "/busybox"] 1 () := by
  obtain ⟨f, hnew, hinterp⟩ := dynamicElf_interp muslInterp (by simp)
  refine ⟨⟨f, hnew, hinterp⟩, by decide, by decide, ?_⟩
  rw [(ExecEnv.shell_reads (dynamicElf muslInterp) (List.cons_ne_nil _ _)).find,
    ExecEnv.classify_dynamic hnew hinterp]
  rfl

end MonkeyOS
