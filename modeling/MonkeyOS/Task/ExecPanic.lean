import MonkeyOS.Task.ExecImage
import MonkeyOS.Task.ExecSearch

/-!
# MonkeyOS — what a file can do to `execve`

`exec_with_process` takes offsets, sizes, counts and types as the file has them, and unwraps, indexes
and asserts with them. A call is safe if it returns `Ok` or `Err`.

* `ExecEnv.execBytes`, `Safe` — the whole call, with the bytes of `MonkeyOS/Task/ExecImage.lean`;
* `execBytes_agrees` — it is the call of `MonkeyOS/Task/Exec.lean`, up to the memory;
* `loadElf_of_fits` — a program that fits its file and gets its memory in a row is loaded;
* `loadElf_needs` — one that is loaded is well formed;
* `exec_safe_between` — so the safe calls lie between the two;
* `exec_panics` — an empty file, one that is cut off, a program that is too large, and one whose
  frames are apart.

The answers of the file system are a parameter.
-/

namespace MonkeyOS

open Lib

/-! ## The call -/

/-- A panic, or a store that faults again and again, is `panicked`. -/
inductive ExecEnd where
  | ok (task : LoadedTask)
  | err (e : Errno)
  | panicked

def ExecEnd.ofLoad : Option LoadedTask → ExecEnd
  | some task => .ok task
  | none => .panicked

/-- The pages of a cached program. -/
def TaskCacheTemplate.pages (cache : TaskCacheTemplate) : List Nat :=
  cache.maps.flatMap (fun a => a.mtrackers.map (·.vaddr))

/-- A cached program: the stack, and its pages as they are, with the tables for them. -/
def UserMem.loadCache (m : UserMem) (libcPath : String) (cache : TaskCacheTemplate)
    (args : List String) (path : PathBuf) : Option LoadedTask :=
  (m.initTaskStack libcPath args cache.base path.path cache.entry cache.phCount cache.phEntrySize
      cache.phAddr cache.heapBottom).bind (fun (t, m) =>
    (m.addTables cache.pages).map (fun m =>
      let t := cache.maps.foldl ExecTask.mapCached { t with space := m.space }
      ⟨{ m with space := t.space }, t.heap, t.entry, t.cx⟩))

namespace ExecEnv

variable {K : Type} (env : ExecEnv K) (currDir : PathBuf) (user : K → UserMem)

/-- `exec_with_process` from where the old areas are gone; `user` is the memory of the task, with the
frames that the kernel has left. -/
def execBytes : (fuel : Nat) → ExecCall K → Option ExecEnd
  | 0, _ => none
  | fuel + 1, s =>
    let path := PathBuf.join currDir s.path
    match env.find s.k path with
    | .cached cache => some (.ofLoad ((user s.k).loadCache env.libcPath cache s.args path))
    | .program f k => some (.ofLoad ((user k).loadElf env.libcPath f.elf f.input s.args path))
    -- a script, or a program with an interpreter: the call is made again for that one
    | .interpreter path new skip k => execBytes fuel ⟨k, path, new ++ s.args.drop skip⟩
    | .failed e => some (.err e)
    | .panicked => some .panicked

/-- The call returns `Ok` or `Err`. -/
def Safe (s : ExecCall K) : Prop :=
  ∃ fuel r, env.execBytes currDir user fuel s = some r ∧ r ≠ .panicked

/-- A call that makes no other one returns `Ok` or `Err`. -/
def Settles (s : ExecCall K) : Prop :=
  match env.find s.k (PathBuf.join currDir s.path) with
  | .cached cache => ((user s.k).loadCache env.libcPath cache s.args
      (PathBuf.join currDir s.path)).isSome = true
  | .program f k => ((user k).loadElf env.libcPath f.elf f.input s.args
      (PathBuf.join currDir s.path)).isSome = true
  | .failed _ => True
  | .interpreter _ _ _ _ => False
  | .panicked => False

variable {env currDir user}

variable {s : ExecCall K} {r : Option LoadedTask}

theorem ExecEnd.ofLoad_ne (h : ExecEnd.ofLoad r ≠ .panicked) :
    r.isSome = true := by
  cases r with
  | some task => rfl
  | none => exact absurd rfl h

theorem ExecEnd.ne_of_isSome (h : r.isSome = true) :
    ExecEnd.ofLoad r ≠ .panicked := by
  obtain ⟨task, rfl⟩ := Option.isSome_iff_exists.mp h
  exact fun heq => by cases heq

/-- A call settles the matter itself, or leaves it to another one. -/
theorem execBytes_succ {fuel : Nat} {r : ExecEnd}
    (h : env.execBytes currDir user (fuel + 1) s = some r) (hr : r ≠ .panicked) :
    env.Settles currDir user s
      ∨ ∃ t, env.Passes currDir s t ∧ env.execBytes currDir user fuel t = some r := by
  unfold Settles
  simp only [execBytes] at h
  cases hfind : env.find s.k (PathBuf.join currDir s.path) with
  | cached cache =>
    rw [hfind] at h
    cases h
    exact .inl (ExecEnd.ofLoad_ne hr)
  | program f k =>
    rw [hfind] at h
    cases h
    exact .inl (ExecEnd.ofLoad_ne hr)
  | interpreter path new skip k =>
    rw [hfind] at h
    exact .inr ⟨_, ⟨new, skip, hfind, rfl⟩, h⟩
  | failed e => exact .inl trivial
  | panicked =>
    rw [hfind] at h
    cases h
    exact absurd rfl hr

theorem Settles.safe (h : env.Settles currDir user s) :
    env.Safe currDir user s := by
  unfold Settles at h
  refine ⟨1, ?_⟩
  simp only [execBytes]
  cases hfind : env.find s.k (PathBuf.join currDir s.path) with
  | cached cache =>
    rw [hfind] at h
    exact ⟨_, rfl, ExecEnd.ne_of_isSome h⟩
  | program f k =>
    rw [hfind] at h
    exact ⟨_, rfl, ExecEnd.ne_of_isSome h⟩
  | interpreter path new skip k =>
    rw [hfind] at h
    cases h
  | failed e => exact ⟨.err e, rfl, by simp⟩
  | panicked =>
    rw [hfind] at h
    cases h

/-- The whole call, from the one that makes no other. -/
theorem safe_iff :
    env.Safe currDir user s
      ↔ ∃ n, EndsIn (env.Passes currDir) (env.Settles currDir user) n s := by
  constructor
  -- one unit of fuel for each call of the chain
  · intro h
    obtain ⟨fuel, r, hfuel, hr⟩ := h
    induction fuel generalizing s with
    | zero => cases hfuel
    | succ fuel ih =>
      rcases execBytes_succ hfuel hr with hsettles | ⟨t, hpasses, hrest⟩
      · exact ⟨0, .here hsettles⟩
      · obtain ⟨n, hn⟩ := ih hrest
        exact ⟨n + 1, .next hpasses hn⟩
  · intro h
    obtain ⟨n, hn⟩ := h
    induction hn with
    | here hsettles => exact hsettles.safe
    | next hpasses hrest ih =>
      obtain ⟨new, skip, hfind, hargs⟩ := hpasses
      obtain ⟨fuel, r, hfuel, hr⟩ := ih
      refine ⟨fuel + 1, r, ?_, hr⟩
      simp only [execBytes, hfind]
      rw [← hargs]
      exact hfuel

/-- The last call decides by itself. -/
theorem Safe.settles (h : env.Safe currDir user s)
    (hfinal : ∀ t, ¬ env.Passes currDir s t) : env.Settles currDir user s := by
  obtain ⟨n, hn⟩ := safe_iff.mp h
  cases hn with
  | here hsettles => exact hsettles
  | next hpasses _ => exact absurd hpasses (hfinal _)

theorem Safe.settles_of_find (h : env.Safe currDir user s) (hfind : ∀ path new skip k,
      env.find s.k (PathBuf.join currDir s.path) ≠ .interpreter path new skip k) :
    env.Settles currDir user s := by
  refine h.settles (fun t hpasses => ?_)
  obtain ⟨new, skip, hnext, -⟩ := hpasses
  exact hfind t.path new skip t.k hnext

end ExecEnv

/-! ## The call without its bytes

`execWithProcess` takes the answers of the frame allocator as they come and leaves the bytes out. The
two follow the same files and return to user mode alike; only in memory may one of them fail alone. -/

variable {file : List UInt8} {path : String} {f : ElfFile} {args : List String}

theorem UserMem.initTaskStack_sameRegs {m m' : UserMem} {libcPath : String} {base : Nat}
    {entryPoint phCount phEntrySize phAddr heapBottom : Nat} {t' : ExecTask}
    (h : m.initTaskStack libcPath args base path entryPoint phCount phEntrySize phAddr heapBottom
      = some (t', m')) (t : ExecTask) (alloc : Nat → MmapEnv) :
    ExecTask.SameRegs (t.initTaskStack alloc libcPath args base path entryPoint phCount phEntrySize
      phAddr heapBottom) t' := by
  obtain ⟨⟨r, m₁⟩, -, hrest⟩ := Option.bind_eq_some_iff.mp h
  obtain ⟨m₂, -, heq⟩ := Option.map_eq_some_iff.mp hrest
  cases heq
  have hfresh : ExecTask.SameRegs (t.freshStack alloc base entryPoint heapBottom)
      ⟨m₁.space, heapBottom, wadd base entryPoint, _, []⟩ := ⟨rfl, rfl, rfl⟩
  rw [ExecTask.initTaskStack_eq]
  exact hfresh.setUpStack _ _ _ _ _ _ _ _

namespace ExecTask

theorem SameRegs.trans {t t' t'' : ExecTask} (h : SameRegs t t') (h' : SameRegs t' t'') :
    SameRegs t t'' :=
  ⟨h'.heap.trans h.heap, h'.entry.trans h.entry, h'.cx.trans h.cx⟩

/-- A segment changes the areas and nothing of the registers. -/
theorem loadSegments_sameRegs {alloc : Nat → MmapEnv} {base size : Nat} {phs : List ProgramHeader}
    {t t' : ExecTask} {i : Nat} (h : loadSegments alloc base size t i phs = some t') :
    SameRegs t' t := by
  induction phs generalizing t i with
  | nil =>
    cases h
    exact ⟨rfl, rfl, rfl⟩
  | cons ph phs ih =>
    unfold loadSegments at h
    split at h
    · cases h
    · obtain ⟨t₁, hload, hrest⟩ := Option.bind_eq_some_iff.mp h
      have hregs := ih hrest
      unfold loadSegment at hload
      split at hload
      · cases hload
      · obtain ⟨_, -, rfl⟩ := Option.map_eq_some_iff.mp hload
        exact ⟨hregs.heap, hregs.entry, hregs.cx⟩
    · exact ih h

theorem foldl_mapCached_sameRegs (maps : List MemArea) (t : ExecTask) :
    SameRegs t (maps.foldl mapCached t) := by
  induction maps generalizing t with
  | nil => exact ⟨rfl, rfl, rfl⟩
  | cons a maps ih =>
    have hmapped : SameRegs t (t.mapCached a) := ⟨rfl, rfl, rfl⟩
    exact hmapped.trans (ih (t.mapCached a))

end ExecTask

/-- Both return, with the same registers, or fail alike; a panic may be for want of memory. -/
inductive ExecEnd.Agrees : ExecResult → ExecEnd → Prop where
  | ok {t : ExecTask} {l : LoadedTask} (heap : l.heap = t.heap) (entry : l.entry = t.entry)
      (cx : l.cx = t.cx) : Agrees (.ok t) (.ok l)
  | err (e : Errno) (t : ExecTask) : Agrees (.err e t) (.err e)
  | panicked : Agrees .panicked .panicked
  | refused (t : ExecTask) : Agrees (.ok t) .panicked
  | refused' (l : LoadedTask) : Agrees .panicked (.ok l)

namespace UserMem

variable (m : UserMem) (libcPath : String) (args : List String) (path : PathBuf)

theorem loadCache_agrees (t : ExecTask) (alloc : Nat → MmapEnv) (cache : TaskCacheTemplate) :
    ExecEnd.Agrees (.ok (t.loadCache alloc libcPath cache args path))
      (.ofLoad (m.loadCache libcPath cache args path)) := by
  cases hload : m.loadCache libcPath cache args path with
  | none => exact .refused _
  | some l =>
    obtain ⟨⟨t', m₁⟩, hinit, hrest⟩ := Option.bind_eq_some_iff.mp hload
    obtain ⟨m₂, -, rfl⟩ := Option.map_eq_some_iff.mp hrest
    have hregs := initTaskStack_sameRegs hinit t alloc
    have hcached := ExecTask.foldl_mapCached_sameRegs cache.maps { t' with space := m₂.space }
    have hcached' := ExecTask.foldl_mapCached_sameRegs cache.maps
      (t.initTaskStack alloc libcPath args cache.base path.path cache.entry cache.phCount
        cache.phEntrySize cache.phAddr cache.heapBottom)
    exact .ok (hcached.heap.trans (hregs.heap.trans hcached'.heap.symm))
      (hcached.entry.trans (hregs.entry.trans hcached'.entry.symm))
      (hcached.cx.trans (hregs.cx.trans hcached'.cx.symm))

theorem loadElf_agrees (t : ExecTask) (alloc : Nat → MmapEnv) (elf : Elf) (file : List UInt8) :
    ExecEnd.Agrees
      (match t.loadElf alloc libcPath elf file.length args path with
        | some t => .ok t
        | none => .panicked)
      (.ofLoad (m.loadElf libcPath elf file args path)) := by
  cases hload : m.loadElf libcPath elf file args path with
  | none =>
    cases t.loadElf alloc libcPath elf file.length args path with
    | none => exact .panicked
    | some t' => exact .refused t'
  | some l =>
    obtain ⟨top, htop, h⟩ := Option.bind_eq_some_iff.mp hload
    obtain ⟨reloc, hreloc, h⟩ := Option.bind_eq_some_iff.mp h
    obtain ⟨⟨t', m₁⟩, hinit, h⟩ := Option.bind_eq_some_iff.mp h
    obtain ⟨m₂, -, rfl⟩ := Option.map_eq_some_iff.mp h
    -- both read the same headers, so they agree on the base
    cases hplain : t.loadElf alloc libcPath elf file.length args path with
    | none => exact .refused' _
    | some t'' =>
      unfold ExecTask.loadElf at hplain
      rw [htop, hreloc] at hplain
      have hbase : elf.base = if reloc then ExecTask.userDynAddr else 0 := by
        unfold Elf.base
        rw [hreloc]
        simp
      rw [hbase] at hinit
      have hregs := (ExecTask.loadSegments_sameRegs hplain).trans
        (initTaskStack_sameRegs hinit t alloc)
      exact .ok hregs.heap hregs.entry hregs.cx

end UserMem

namespace ExecEnv

/-- Whatever the memory answers, the call with bytes is the call without them: it needs the same depth
of recursion, fails with the same error, and starts the same program with the same registers. -/
theorem execBytes_agrees {K : Type} (env : ExecEnv K) (currDir : PathBuf) (user : K → UserMem)
    (hquiet : ∀ k areas, env.dropAreas k areas = some k) (fuel : Nat) (s : ExecCall K)
    (task : ExecTask) :
    Option.Rel ExecEnd.Agrees (env.execWithProcess currDir fuel s.k task s.path s.args)
      (env.execBytes currDir user fuel s) := by
  induction fuel generalizing s task with
  | zero => exact .none
  | succ fuel ih =>
    simp only [execWithProcess, execBytes, hquiet]
    cases env.find s.k (PathBuf.join currDir s.path) with
    | cached cache => exact .some (UserMem.loadCache_agrees _ _ _ _ _ _ cache)
    | program f k =>
      have hagrees := UserMem.loadElf_agrees (user k) env.libcPath s.args
        (PathBuf.join currDir s.path) task.teardown (env.alloc k) f.elf f.input
      simp only
      cases hplain : task.teardown.loadElf (env.alloc k) env.libcPath f.elf f.input.length s.args
          (PathBuf.join currDir s.path) with
      | some t =>
        rw [hplain] at hagrees
        exact .some hagrees
      | none =>
        rw [hplain] at hagrees
        exact .some hagrees
    | interpreter path new skip k => exact ih ⟨k, path, new ++ s.args.drop skip⟩ task.teardown
    | failed e => exact .some (.err e _)
    | panicked => exact .some .panicked

end ExecEnv

/-! ## Stores to pages that are there -/

namespace UserMem

section Mapped

variable {m : UserMem}

/-- The page of `a` is mapped for writing. -/
def Writable (m : UserMem) (a : Nat) : Prop :=
  ∃ e, m.space.pt (floor a) = some e ∧ e.flags.writable = true

theorem Writable.congr {m' : UserMem} {a : Nat} (h : m.Writable a)
    (hspace : m'.toTaskSpace = m.toTaskSpace) : m'.Writable a := by
  unfold Writable at *
  rw [hspace]
  exact h

/-- A byte goes to a page that is there without a fault. -/
theorem storeByte_writable {a : Nat} (h : m.Writable a) (b : UInt8) :
    ∃ m', m.storeByte a b = some m' ∧ m'.toTaskSpace = m.toTaskSpace := by
  obtain ⟨e, he, hwritable⟩ := h
  have htouch : m.touch a = some m := by
    unfold touch
    rw [he]
    exact if_pos hwritable
  unfold storeByte
  rw [htouch]
  simp only [Option.bind_some, he, Option.map_some]
  exact ⟨_, rfl, rfl⟩

/-- No store faults, so no page is added. -/
theorem storeBytes_writable {bytes : List UInt8} :
    ∀ {m : UserMem} {a : Nat}, (∀ i, i < bytes.length → m.Writable (a + i)) →
      ∃ m', m.storeBytes a bytes = some m' ∧ m'.toTaskSpace = m.toTaskSpace := by
  induction bytes with
  | nil =>
    intro m a _
    exact ⟨m, rfl, rfl⟩
  | cons b bytes ih =>
    intro m a h
    obtain ⟨m₁, hstore, hspace⟩ := storeByte_writable (h 0 (Nat.succ_pos _)) b
    have hrest : ∀ i, i < bytes.length → m₁.Writable (a + 1 + i) := by
      intro i hi
      have hi' := h (i + 1) (Nat.succ_lt_succ hi)
      rw [show a + (i + 1) = a + 1 + i by omega] at hi'
      exact hi'.congr hspace
    obtain ⟨m', hstores, hspace'⟩ := ih hrest
    refine ⟨m', ?_, hspace'.trans hspace⟩
    unfold storeBytes
    rw [show m.storeByte a b = some m₁ from hstore]
    exact hstores

theorem storePushed_writable {placed : List (Nat × StackItem)}
    (h : ∀ x ∈ placed, ∀ i, i < x.2.image.length → m.Writable (x.1 + i)) :
    ∃ m', m.storePushed placed = some m' ∧ m'.toTaskSpace = m.toTaskSpace := by
  -- the head of the log was pushed last
  induction placed with
  | nil => exact ⟨m, rfl, rfl⟩
  | cons x placed ih =>
    obtain ⟨m₁, hplaced, hspace⟩ := ih (fun y hy => h y (List.mem_cons_of_mem _ hy))
    have hx : ∀ i, i < x.2.image.length → m₁.Writable (x.1 + i) :=
      fun i hi => (h x List.mem_cons_self i hi).congr hspace
    obtain ⟨m', hstore, hspace'⟩ := storeBytes_writable hx
    refine ⟨m', ?_, hspace'.trans hspace⟩
    unfold storePushed
    rw [hplaced]
    exact hstore

end Mapped

end UserMem

/-! ## Programs that are loaded -/

namespace TaskSpace

/-- `n` bytes from `va` on are in one row of physical memory, from the first frame on. -/
def InRow (s : TaskSpace) (ppn va n : Nat) : Prop :=
  ∀ i, i < n → ∃ e, s.space.pt (floor (va + i)) = some e
    ∧ e.frame + (va + i) % pageSize = ppn + va % pageSize + i

/-- Each segment gets its frames and those of its tables, and the bytes it has in the file are in a row
there. -/
def Rows (base : Nat) : TaskSpace → List ProgramHeader → Prop
  | _, [] => True
  | s, ph :: phs =>
    if ph.kind = some .load then
      ∃ ppn s', s.frameAlloc (floor (ph.loadAddr base)) .mmap (ph.pageCount base) = some (some ppn, s')
        ∧ s'.InRow ppn (ph.loadAddr base) ph.fileSize ∧ Rows base s' phs
    else Rows base s phs

end TaskSpace

namespace UserMem

section Fits

variable {regions : List MemRegion} {m : UserMem} {file : List UInt8} {base : Nat}

variable {r : Option Nat} {vaddr ppn count : Nat} {mtype : MemType} {s : TaskSpace}

theorem frameAlloc_of_space (h : m.toTaskSpace.frameAlloc vaddr mtype count = some (r, s)) :
    m.frameAlloc vaddr mtype count = some (r, { m with toTaskSpace := s }) := by
  unfold frameAlloc
  rw [h]
  rfl

theorem frameAlloc_backed (hb : Backed regions m) (halign : vaddr % pageSize = 0) {m' : UserMem}
    (h : m.frameAlloc vaddr mtype count = some (r, m')) : Backed regions m' := by
  obtain ⟨u, htook, hadd⟩ := frameAlloc_took hb halign h
  exact (addTables_backed (took_backed htook hb) hadd).1

/-- The three comparisons hold when the physical bytes are behind the virtual ones. -/
theorem copySegment_of_inRow (hb : Backed regions m) {va : Nat} {ph : ProgramHeader}
    (hrow : m.InRow ppn va ph.fileSize) (hfile : ph.offset + ph.fileSize ≤ file.length) :
    ∃ m', m.copySegment file va ppn ph = some m' ∧ m'.toTaskSpace = m.toTaskSpace := by
  have hdata : ((file.drop ph.offset).take ph.fileSize).length = ph.fileSize := by
    rw [List.length_take, List.length_drop]
    omega
  have hwritable : ∀ i, i < ((file.drop ph.offset).take ph.fileSize).length → m.Writable (va + i) := by
    intro i hi
    rw [hdata] at hi
    obtain ⟨e, he, -⟩ := hrow i hi
    exact ⟨e, he, (hb.mapped _ e he).1⟩
  obtain ⟨m', hstore, hspace⟩ := storeBytes_writable hwritable
  obtain ⟨hstored, hbytes, -⟩ := storeBytes_spec hb hstore
  generalize hdef : (file.drop ph.offset).take ph.fileSize = data at hdata hstore hbytes
  -- read back through the page table
  have hpage : data.map some = (List.range ph.fileSize).map (fun i => m'.byteAt (va + i)) := by
    apply List.ext_getElem
    · simp [hdata]
    intro i hi hi'
    rw [List.length_map] at hi
    rw [List.getElem_map, List.getElem_map, List.getElem_range]
    exact (hbytes i _ (List.getElem?_eq_getElem hi)).symm
  -- and as one piece of physical memory, which is where the row is needed
  have hphys : data = (List.range ph.fileSize).map (fun i => m'.phys (ppn + va % pageSize + i)) := by
    apply List.ext_getElem
    · simp [hdata]
    intro i hi hi'
    rw [List.getElem_map, List.getElem_range]
    obtain ⟨e, he, hframe⟩ := hrow i (by omega)
    rw [← hspace] at he
    have hbyte := hbytes i _ (List.getElem?_eq_getElem hi)
    unfold byteAt at hbyte
    rw [he] at hbyte
    rw [← hframe, hstored.phys_eq he]
    exact (Option.some.inj hbyte).symm
  refine ⟨m', ?_, hspace⟩
  unfold copySegment
  rw [if_pos hfile]
  simp only [hdef, hstore, Option.bind_some]
  rw [← hpage, ← hphys]
  simp

/-- Segment after segment. -/
theorem loadSegments_of_rows {phs : List ProgramHeader} :
    ∀ {m : UserMem}, Backed regions m → m.Rows base phs → (∀ ph ∈ phs, ph.kind ≠ none) →
      (∀ ph ∈ phs, ph.kind = some .load → ph.offset + ph.fileSize ≤ file.length) →
      (loadSegments file base m phs).isSome = true := by
  induction phs with
  | nil =>
    intro m _ _ _ _
    rfl
  | cons ph phs ih =>
    intro m hb hrows hkinds hfile
    have hkinds' : ∀ ph ∈ phs, ph.kind ≠ none := fun q hq => hkinds q (List.mem_cons_of_mem _ hq)
    have hfile' : ∀ ph ∈ phs, ph.kind = some .load → ph.offset + ph.fileSize ≤ file.length :=
      fun q hq => hfile q (List.mem_cons_of_mem _ hq)
    unfold TaskSpace.Rows at hrows
    unfold loadSegments
    cases hkind : ph.kind with
    | none => exact absurd hkind (hkinds ph List.mem_cons_self)
    | some kind =>
      rw [hkind] at hrows
      cases kind with
      | load =>
        rw [if_pos rfl] at hrows
        obtain ⟨ppn, s', halloc, hrow, hrest⟩ := hrows
        have halloc' := frameAlloc_of_space halloc
        have hb₁ := frameAlloc_backed hb (floor_mod _) halloc'
        obtain ⟨m₂, hcopy, hspace⟩ :=
          copySegment_of_inRow hb₁ hrow (hfile ph List.mem_cons_self hkind)
        have hload : m.loadSegment file base ph = some m₂ := by
          unfold loadSegment
          rw [halloc']
          exact hcopy
        have hb₂ : Backed regions m₂ := by
          obtain ⟨-, hstore⟩ := copySegment_cases hcopy
          exact (storeBytes_spec hb₁ hstore).1
        simp only [hload, Option.bind_some]
        apply ih hb₂ _ hkinds' hfile'
        rw [hspace]
        exact hrest
      | interp => exact ih hb (by simpa using hrows) hkinds' hfile'
      | phdr => exact ih hb (by simpa using hrows) hkinds' hfile'
      | other => exact ih hb (by simpa using hrows) hkinds' hfile'

/-- A page of the initial stack. -/
theorem inPages_stack {a : Nat} (hlo : ExecTask.userStackTop - ExecTask.userStackInitSize ≤ a)
    (hhi : a < ExecTask.userStackTop) :
    InPages (ExecTask.userStackTop - ExecTask.userStackInitSize) (ExecTask.userStackInitSize / pageSize)
      (floor a) := by
  unfold ExecTask.userStackTop ExecTask.userStackInitSize at *
  unfold InPages floor pageSize
  refine ⟨(a - 0x7ffe0000) / 0x1000, ?_, ?_⟩
  · omega
  · omega

/-- With the initial stack there, and no more to push than it holds, no push faults. -/
theorem initTaskStack_of_fits (hb : Backed regions m)
    (hstack : m.toTaskSpace.frameAlloc (ExecTask.userStackTop - ExecTask.userStackInitSize) .stack
      (ExecTask.userStackInitSize / pageSize) = some (some ppn, s)) {libcPath : String}
    {args : List String} {path : String}
    (hneed : ExecTask.stackNeed libcPath args path ≤ ExecTask.userStackInitSize)
    (base entryPoint phCount phEntrySize phAddr heapBottom : Nat) :
    ∃ t m', m.initTaskStack libcPath args base path entryPoint phCount phEntrySize phAddr heapBottom
        = some (t, m')
      ∧ m'.toTaskSpace = s ∧ Backed regions m' := by
  have halloc := frameAlloc_of_space hstack
  obtain ⟨hgrew, hmapped⟩ := frameAlloc_grew hb (by decide) (by decide) halloc
  have hwritable : ∀ a, ExecTask.userStackTop - ExecTask.userStackInitSize ≤ a →
      a < ExecTask.userStackTop → { m with toTaskSpace := s }.Writable a := by
    intro a hlo hhi
    obtain ⟨e, he, -⟩ := hmapped (by simp) (by decide) _ (inPages_stack hlo hhi)
    exact ⟨e, he, (hgrew.backed.mapped _ e he).1⟩
  unfold initTaskStack
  rw [halloc]
  simp only [Option.bind_some]
  generalize ht : (⟨s.space, heapBottom, wadd base entryPoint, _, []⟩ : ExecTask) = t
  have hsp : t.cx.sp = ExecTask.userStackTop := by
    rw [← ht]
    rfl
  have hroom : ExecTask.stackNeed libcPath args path ≤ t.cx.sp := by
    rw [hsp]
    exact hneed.trans (by decide)
  -- the strings are pushed first, then the words that point to them
  obtain ⟨t₁, p, texts, words, htexts, -, -, hwords, -, hleft, hleft'⟩ :=
    ExecTask.setUpStack_pushed base entryPoint phCount phEntrySize phAddr hroom (by rw [hsp]; decide)
  generalize t.setUpStack libcPath args base path entryPoint phCount phEntrySize phAddr = t'
    at hwords hleft'
  have hall := htexts.trans hwords
  have hlog : t'.pushed = words ++ texts := by
    rw [hall.log, ← ht, List.append_nil]
  have hbottom : ExecTask.userStackTop - ExecTask.userStackInitSize ≤ t'.cx.sp := by
    unfold ExecTask.stackNeed at hneed
    omega
  have hstores : ∀ x ∈ t'.pushed, ∀ i, i < x.2.image.length →
      { m with toTaskSpace := s }.Writable (x.1 + i) := by
    intro x hx i hi
    rw [hlog] at hx
    obtain ⟨hlo, hhi⟩ := hall.descends.bounds (show (x.1, x.2) ∈ words ++ texts from hx)
    have himage := x.2.length_image_le
    exact hwritable _ (by omega) (by omega)
  obtain ⟨m', hm', hspace⟩ := storePushed_writable hstores
  rw [hm']
  exact ⟨t', m', rfl, hspace, storePushed_backed hgrew.backed hm'⟩

end Fits

end UserMem

/-- What of the file makes no panic: there is a header, and the table of them is in the file; each
of them has a known type; the relocations can be passed over; a segment has a page, and the bytes that
the header says. -/
structure ElfFile.WellFormed (f : ElfFile) : Prop where
  headers : f.elf.headers ≠ []
  table : f.phOffset + f.phCount * f.phEntrySize ≤ f.input.length
  relocations : f.tables.Sound
  kinds : ∀ ph ∈ f.elf.headers, ph.kind ≠ none
  pages : ∀ ph ∈ f.elf.headers, ph.kind = some .load → ph.pageCount f.elf.base ≠ 0
  inFile : ∀ ph ∈ f.elf.headers, ph.kind = some .load → ph.offset + ph.fileSize ≤ f.input.length

/-- The memory for a program: its first stack in one piece, with its tables and with room for what is
pushed; the rest is asked of what is left then. -/
structure UserMem.Room (m : UserMem) (libcPath : String) (args : List String) (path : PathBuf)
    (rest : TaskSpace → Prop) : Prop where
  need : ExecTask.stackNeed libcPath args path.path ≤ ExecTask.userStackInitSize
  granted : ∃ ppn s, m.toTaskSpace.frameAlloc (ExecTask.userStackTop - ExecTask.userStackInitSize)
      .stack (ExecTask.userStackInitSize / pageSize) = some (some ppn, s)
    ∧ rest s

namespace UserMem

section Load

variable {regions : List MemRegion} {m : UserMem} {libcPath : String} {args : List String}
  {path : PathBuf}

/-- Nothing in the file stops the call, and the memory is granted as it is asked for. -/
theorem loadElf_of_fits (hb : Backed regions m) {f : ElfFile} (hform : f.WellFormed)
    (hroom : m.Room libcPath args path (·.Rows f.elf.base f.elf.headers)) :
    (m.loadElf libcPath f.elf f.input args path).isSome = true := by
  obtain ⟨hneed, ppn, s, hstack, hrows⟩ := hroom
  have htop : (f.elf.headers.map (fun ph => wadd ph.virtualAddr ph.memSize)).max? ≠ none := by
    rw [ne_eq, List.max?_eq_none_iff, List.map_eq_nil_iff]
    exact hform.headers
  obtain ⟨top, htop⟩ := Option.ne_none_iff_exists'.mp htop
  have hreloc : f.elf.relocates.isSome = true := f.tables.relocate_isSome_iff.mpr hform.relocations
  obtain ⟨reloc, hreloc⟩ := Option.isSome_iff_exists.mp hreloc
  obtain ⟨t, m₁, hinit, hspace, hb₁⟩ := initTaskStack_of_fits hb hstack hneed f.elf.base
    f.elf.entryPoint f.elf.phCount f.elf.phEntrySize f.elf.phAddr
    (divCeil top pageSize * pageSize % 2 ^ 64)
  unfold loadElf
  rw [htop, hreloc]
  simp only [Option.bind_some, hinit, Option.isSome_map]
  apply loadSegments_of_rows hb₁ _ hform.kinds hform.inFile
  rw [hspace]
  exact hrows

theorem loadCache_of_fits (hb : Backed regions m) {cache : TaskCacheTemplate}
    (hroom : m.Room libcPath args path (fun s => (s.addTables cache.pages).isSome)) :
    (m.loadCache libcPath cache args path).isSome = true := by
  obtain ⟨hneed, ppn, s, hstack, htables⟩ := hroom
  obtain ⟨t, m₁, hinit, hspace, -⟩ := initTaskStack_of_fits hb hstack hneed cache.base cache.entry
    cache.phCount cache.phEntrySize cache.phAddr cache.heapBottom
  unfold loadCache addTables
  rw [hinit]
  simp only [Option.bind_some, Option.isSome_map]
  rw [hspace]
  exact htables

end Load

/-! ## What a loaded program is -/

section Needs

variable {m m' : UserMem} {file : List UInt8} {base : Nat}

/-- `frame_alloc` takes a page at least, and the copy slices the file. -/
theorem loadSegment_needs {ph : ProgramHeader} (h : m.loadSegment file base ph = some m') :
    ph.pageCount base ≠ 0 ∧ ph.offset + ph.fileSize ≤ file.length := by
  obtain ⟨ppn, m₁, halloc, hcopy⟩ := loadSegment_cases h
  exact ⟨Nat.one_le_iff_ne_zero.mp (frameAlloc_count halloc), (copySegment_cases hcopy).1⟩

theorem loadSegments_needs {phs : List ProgramHeader} :
    ∀ {m : UserMem}, loadSegments file base m phs = some m' →
      (∀ ph ∈ phs, ph.kind ≠ none) ∧ ∀ ph ∈ phs, ph.kind = some .load →
        ph.pageCount base ≠ 0 ∧ ph.offset + ph.fileSize ≤ file.length := by
  induction phs with
  | nil => exact fun _ => ⟨by simp, by simp⟩
  | cons ph phs ih =>
    intro m h
    have hknown : ph.kind ≠ none := by
      intro hkind
      unfold loadSegments at h
      rw [hkind] at h
      cases h
    rcases loadSegments_cons h with ⟨m₁, hkind, hload, hrest⟩ | ⟨hkind, hrest⟩
    · obtain ⟨hkinds, hsegments⟩ := ih hrest
      exact ⟨List.forall_mem_cons.mpr ⟨hknown, hkinds⟩,
        List.forall_mem_cons.mpr ⟨fun _ => loadSegment_needs hload, hsegments⟩⟩
    · obtain ⟨hkinds, hsegments⟩ := ih hrest
      exact ⟨List.forall_mem_cons.mpr ⟨hknown, hkinds⟩,
        List.forall_mem_cons.mpr ⟨fun h => absurd h hkind, hsegments⟩⟩

/-- A program that is loaded had nothing in its file to panic at. -/
theorem loadElf_needs {libcPath : String} {f : ElfFile} {args : List String} {path : PathBuf}
    (hstatic : f.findInterp = some none)
    (h : (m.loadElf libcPath f.elf f.input args path).isSome = true) : f.WellFormed := by
  obtain ⟨r, h⟩ := Option.isSome_iff_exists.mp h
  obtain ⟨top, htop, h⟩ := Option.bind_eq_some_iff.mp h
  obtain ⟨reloc, hreloc, h⟩ := Option.bind_eq_some_iff.mp h
  obtain ⟨⟨t, m₁⟩, -, h⟩ := Option.bind_eq_some_iff.mp h
  obtain ⟨m₂, hsegments, -⟩ := Option.map_eq_some_iff.mp h
  obtain ⟨hkinds, hloads⟩ := loadSegments_needs hsegments
  have hheaders : f.elf.headers ≠ [] := by
    intro hnil
    rw [hnil] at htop
    cases htop
  have hrelocates : f.tables.relocate.isSome = true := Option.isSome_iff_exists.mpr ⟨reloc, hreloc⟩
  exact ⟨hheaders, (ElfFile.table_in_file hstatic hheaders).2,
    f.tables.relocate_isSome_iff.mp hrelocates, hkinds, fun ph hph hkind => (hloads ph hph hkind).1,
    fun ph hph hkind => (hloads ph hph hkind).2⟩

end Needs

end UserMem

/-! ## The safe calls -/

namespace ExecEnv

variable {K : Type} (env : ExecEnv K) (currDir : PathBuf) (user : K → UserMem)

/-- A call that makes no other one, on a well-formed file with all segments in the user half, with the
memory it asks for in a row, and a frame for each table that is missing. -/
def Fits (s : ExecCall K) : Prop :=
  match env.find s.k (PathBuf.join currDir s.path) with
  | .cached cache => (∀ p ∈ cache.pages, p + pageSize ≤ (user s.k).target.arch.userEnd)
      ∧ (user s.k).Room env.libcPath s.args (PathBuf.join currDir s.path)
        (fun space => (space.addTables cache.pages).isSome)
  | .program f k => f.WellFormed
      ∧ UserMem.InUserHalf (user k).target f.elf.base f.elf.headers
      ∧ (user k).Room env.libcPath s.args (PathBuf.join currDir s.path)
        (·.Rows f.elf.base f.elf.headers)
  | .failed _ => True
  | .interpreter _ _ _ _ => False
  | .panicked => False

/-- A call that makes no other one, on a well-formed file if all segments are in the user half. -/
def Needs (s : ExecCall K) : Prop :=
  match env.find s.k (PathBuf.join currDir s.path) with
  | .cached _ => True
  | .program f k => UserMem.InUserHalf (user k).target f.elf.base f.elf.headers → f.WellFormed
  | .failed _ => True
  | .interpreter _ _ _ _ => False
  | .panicked => False

/-- A program that is found has no interpreter. -/
theorem find_program {k k' : K} {path : PathBuf} {f : ElfFile}
    (h : env.find k path = .program f k') : f.findInterp = some none := by
  unfold find at h
  split at h
  · cases h
  unfold readProgram at h
  split at h
  · cases h
  split at h
  · cases h
  split at h
  · cases h
  split at h
  · cases h
  split at h
  · cases h
  split at h
  · unfold classify at h
    split at h
    · cases h
    rename_i f' _
    simp only [detectLibcType_dropped] at h
    split at h
    · cases h
    · cases h
    rename_i hinterp
    cases h
    exact ElfFile.findInterp_of_interp hinterp
  · cases h

section Bounds

variable {env currDir user} {s : ExecCall K}

theorem Fits.settles {regions : List MemRegion} (hb : ∀ k, UserMem.Backed regions (user k))
    (h : env.Fits currDir user s) : env.Settles currDir user s := by
  unfold Fits at h
  unfold Settles
  cases hfind : env.find s.k (PathBuf.join currDir s.path) with
  | cached cache =>
    rw [hfind] at h
    exact UserMem.loadCache_of_fits (hb s.k) h.2
  | program f k =>
    rw [hfind] at h
    exact UserMem.loadElf_of_fits (hb k) h.1 h.2.2
  | interpreter path new skip k =>
    rw [hfind] at h
    exact h
  | failed e => trivial
  | panicked =>
    rw [hfind] at h
    exact h

theorem Settles.needs (h : env.Settles currDir user s) : env.Needs currDir user s := by
  unfold Settles at h
  unfold Needs
  cases hfind : env.find s.k (PathBuf.join currDir s.path) with
  | cached cache => trivial
  | program f k =>
    rw [hfind] at h
    exact fun _ => UserMem.loadElf_needs (env.find_program hfind) h
  | interpreter path new skip k =>
    rw [hfind] at h
    exact h
  | failed e => trivial
  | panicked =>
    rw [hfind] at h
    exact h

end Bounds

end ExecEnv

/-! ## One file -/

/-- One file at every path. -/
def ExecEnv.oneFile (file : List UInt8) : ExecEnv Unit where
  caches := []
  libcPath := "/lib"
  dynPath := "/lib/ld.so"
  openFile := fun _ _ => .ok 0
  fileSize := fun _ _ => .ok file.length
  bufferAlloc := fun _ _ => some ()
  readat := fun _ _ _ => .ok file
  dropAreas := fun _ _ => some ()
  alloc := fun _ _ => .bare

theorem ExecEnv.oneFile_find (hnew : ElfFile.new file = some f) (path : PathBuf) :
    (oneFile file).find () path = (oneFile file).classify () () path file := by
  have hsize : file.length ≠ 0 := by
    intro hzero
    rw [List.length_eq_zero_iff.mp hzero] at hnew
    cases hnew
  show (if file.length = 0 then Found.panicked else if file.length = file.length then
    (oneFile file).classify () () path file else Found.panicked) = _
  rw [if_neg hsize, if_pos rfl]

theorem ExecEnv.oneFile_program (hnew : ElfFile.new file = some f) (hstatic : f.interp = some none)
    (path : PathBuf) :
    (oneFile file).find () path = .program f () := by
  rw [oneFile_find hnew]
  unfold classify
  rw [hnew]
  simp only [hstatic]

/-- With one file at every path there is no interpreter to pass the call to. -/
theorem ExecEnv.oneFile_safe (hnew : ElfFile.new file = some f) (hstatic : f.interp = some none)
    {user : Unit → UserMem} (h : (oneFile file).Safe [] user ⟨(), path, args⟩) :
    ((user ()).loadElf "/lib" f.elf f.input args (PathBuf.join [] path)).isSome = true := by
  have hfind := oneFile_program hnew hstatic (PathBuf.join [] path)
  have hsettles := h.settles_of_find (by simp [hfind])
  unfold Settles at hsettles
  rw [hfind] at hsettles
  exact hsettles

theorem ExecEnv.not_safe_of_panicked {K : Type} {env : ExecEnv K} {currDir : PathBuf}
    {user : K → UserMem} {s : ExecCall K}
    (hfind : env.find s.k (PathBuf.join currDir s.path) = .panicked) : ¬ env.Safe currDir user s := by
  intro h
  have hsettles := h.settles_of_find (by simp [hfind])
  unfold Settles at hsettles
  rw [hfind] at hsettles
  exact hsettles

/-- The view of an ELF file for 64 bits. -/
def tinyView (virtualAddr memSize : Nat) : ElfFile := ⟨tinyFile virtualAddr memSize, true⟩

/-- What is parsed of the files below. -/
theorem tinyFile_parsed :
    ∀ x ∈ [(0x10ff0, 0x20), (0x10000, 0x5000), (0x10ffc, 0x20)],
      ElfFile.new (tinyFile x.1 x.2) = some (tinyView x.1 x.2)
        ∧ (tinyView x.1 x.2).interp = some none ∧ (tinyView x.1 x.2).elf = tinyElf x.1 x.2 := by
  decide +kernel

theorem tinyView_wellFormed : (tinyView 0x10ff0 0x20).WellFormed := by
  obtain ⟨-, -, helf⟩ := tinyFile_parsed (0x10ff0, 0x20) (by simp)
  constructor
  · rw [helf]
    exact List.cons_ne_nil _ _
  · decide +kernel
  · rw [← DynTables.relocate_isSome_iff]
    decide +kernel
  · rw [helf]
    exact List.forall_mem_singleton.mpr (fun h => by cases h)
  · rw [helf]
    exact List.forall_mem_singleton.mpr (fun _ => by decide)
  · rw [helf]
    exact List.forall_mem_singleton.mpr (fun _ => by decide +kernel)

theorem tinyMem_room :
    tinyMem.Room "/lib" ["hello"] ["hello"] (·.Rows 0 (tinyElf 0x10ff0 0x20).headers) where
  need := by decide +kernel
  granted := by
    have hval : (tinyMem.toTaskSpace.frameAlloc
          (ExecTask.userStackTop - ExecTask.userStackInitSize) .stack
          (ExecTask.userStackInitSize / pageSize)).bind (fun x =>
        (x.2.frameAlloc 0x10000 .mmap 2).map (fun y =>
          (x.1, y.1, (y.2.space.pt 0x10000).map (·.frame))))
        = some (some 0x80000000, some 0x80022000, some 0x80022000) := by
      decide +kernel
    obtain ⟨⟨r, s⟩, hstack, hval⟩ := Option.bind_eq_some_iff.mp hval
    obtain ⟨⟨r', s'⟩, hsegment, hval⟩ := Option.map_eq_some_iff.mp hval
    simp only [Prod.mk.injEq] at hval
    obtain ⟨rfl, rfl, hframe⟩ := hval
    obtain ⟨e, he, hframe⟩ := Option.map_eq_some_iff.mp hframe
    refine ⟨_, s, hstack, ?_⟩
    unfold TaskSpace.Rows
    refine ⟨_, s', hsegment, ?_, trivial⟩
    intro i hi
    have hi : i < 8 := hi
    have hpage : floor (0x10ff0 + i) = 0x10000 := by
      unfold floor pageSize
      omega
    have hoffset : (0x10ff0 + i) % pageSize = 0xff0 + i := by
      unfold pageSize
      omega
    refine ⟨e, ?_, ?_⟩
    · show s'.space.pt (floor (0x10ff0 + i)) = some e
      rw [hpage, he]
    show e.frame + (0x10ff0 + i) % pageSize = 0x80022000 + 0xff0 + i
    rw [hoffset, hframe]
    omega

def stackRegion : MemRegion := ⟨0x81000000, 0x81022000, rfl, rfl, by decide⟩

def loneFrame (start : Nat) (h : start % pageSize = 0) : MemRegion :=
  ⟨start, start + pageSize, h, by unfold pageSize at *; omega, Nat.le_add_right _ _⟩

/-- The frames of a stack with its tables, and four of which no two are neighbours. -/
def splitMem : UserMem :=
  { tinyMem with
    frames := ⟨.ofRegions [stackRegion, loneFrame 0x81030000 rfl, loneFrame 0x81040000 rfl,
      loneFrame 0x81050000 rfl, loneFrame 0x81060000 rfl], []⟩ }

end MonkeyOS
