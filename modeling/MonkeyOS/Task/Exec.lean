import MonkeyOS.Fs.PathBuf
import MonkeyOS.Mem.Mmap
import MonkeyOS.Task.ElfFile
import MonkeyOS.Task.Signal

/-!
# MonkeyOS — `execve` (`exec_with_process`, `init_task_stack`)

`exec_with_process` first unmaps and drops everything the task has, and then looks for the
program: in the cache, or in the file of the path. A file that is no ELF file is run by
`busybox sh`, a dynamically linked one by its linker, both by a call of the same function. When
opening, sizing or reading a file fails, at any level, the error is returned as it is.

* `ExecTask.teardown` — what is done before anything can fail;
* `ExecEnv.LookupFails` — the search for the program alone, which sees nothing of the task but the
  areas that are dropped first;
* `execWithProcess_err` — a failed call has torn the task down, at whatever level it failed;
* `exec_failure_keeps_task_iff` — so it leaves the task as it was exactly if there was nothing to
  tear down.

The file system and the frame allocator are parameters (`ExecEnv`), with a state of their own since
dropping a shared file area writes it back; the bytes that are read are parsed as in
`MonkeyOS/Task/ElfFile.lean`. What goes onto the user stack is kept as the list of what was pushed;
the bytes of the segments are left out.
-/

namespace MonkeyOS

open Lib

structure TaskCacheTemplate where
  name : PathBuf
  entry : Nat
  maps : List MemArea
  base : Nat
  heapBottom : Nat
  phCount : Nat
  phEntrySize : Nat
  phAddr : Nat

namespace ProgramHeader

/-- Where the segment goes. -/
def loadAddr (ph : ProgramHeader) (base : Nat) : Nat := wadd base ph.virtualAddr

/-- `page_count` -/
def pageCount (ph : ProgramHeader) (base : Nat) : Nat :=
  let virtAddr := ph.loadAddr base
  let vpn := virtAddr / pageSize
  (divCeil (wadd virtAddr ph.memSize) pageSize + 2 ^ 64 - vpn) % 2 ^ 64

end ProgramHeader

/-! ## The task -/

/-- What is pushed on the user stack. -/
inductive StackItem where
  | bytes (data : List UInt8)
  | num (n : Nat)

structure ExecTask where
  space : AddrSpace
  heap : Nat
  entry : Nat
  cx : TrapFrame
  /-- the addresses on the user stack that were written, latest first -/
  pushed : List (Nat × StackItem)

namespace ExecTask

def push (t : ExecTask) (size : Nat) (item : StackItem) : ExecTask :=
  let sp := (t.cx.sp + 2 ^ 64 - size) % 2 ^ 64
  { t with cx := t.cx.setSp sp, pushed := (sp, item) :: t.pushed }

/-- `push_arr`, with the address of what was pushed. -/
def pushArr (t : ExecTask) (data : List UInt8) : ExecTask × Nat :=
  let t := t.push (alignup (data.length + 1) 8) (.bytes data)
  (t, t.cx.sp)

def pushStr (t : ExecTask) (text : String) : ExecTask × Nat := t.pushArr text.toUTF8.toList

def pushNum (t : ExecTask) (n : Nat) : ExecTask := t.push 8 (.num n)

/-- The texts in reverse, with their addresses in that order. -/
def pushStrs (t : ExecTask) (texts : List String) : ExecTask × List Nat :=
  texts.reverse.foldl (fun (t, ptrs) text =>
    let (t, ptr) := t.pushStr text
    (t, ptrs ++ [ptr])) (t, [])

def userStackTop : Nat := 0x80000000

def userStackInitSize : Nat := 0x20000

def userDynAddr : Nat := 0x20000000

/-- The environment of every program. -/
def defaultEnv (libcPath : String) : List String :=
  ["LD_LIBRARY_PATH=" ++ libcPath,
    "PS1=\x1b[1m\x1b[32mMonkeyOS\x1b[0m:\x1b[1m\x1b[34m\\w\x1b[0m\\$ \x00",
    "PATH=/:/bin:/usr/bin", "UB_BINDIR=./"]

/-- `alloc` has the answers of the frame allocator to the calls of `frame_alloc`, in their order;
the first is the one for the stack. -/
def initTaskStack (t : ExecTask) (alloc : Nat → MmapEnv) (libcPath : String) (args : List String)
    (base : Nat) (path : String) (entryPoint phCount phEntrySize phAddr heapBottom : Nat) :
    ExecTask :=
  -- a stack that could not be allocated is not noticed here
  let space := ((t.space.frameAlloc (alloc 0) (userStackTop - userStackInitSize) .stack
    (userStackInitSize / pageSize)).map Prod.snd).getD t.space
  let cx := (TrapFrame.setSp ⟨fun _ => 0, 0⟩ userStackTop).setSepc (wadd base entryPoint)
  let t := { t with space := space, heap := heapBottom, entry := wadd base entryPoint, cx := cx }
  let (t, envp) := t.pushStrs (defaultEnv libcPath)
  let (t, args) := t.pushStrs args
  let (t, random) := t.pushArr (List.replicate 16 0)
  let (t, platform) := t.pushStr "riscv"
  let (t, execfn) := t.pushStr path
  -- AT_PHDR, AT_PHENT, AT_PHNUM, AT_PAGESZ, AT_ENTRY, AT_UID, AT_EUID, AT_GID, AT_EGID,
  -- AT_PLATFORM, AT_SECURE, AT_RANDOM, AT_EXECFN
  let auxv := [(3, wadd base phAddr), (4, phEntrySize), (5, phCount), (6, pageSize),
    (9, wadd base entryPoint), (11, 0), (12, 0), (13, 0), (14, 0), (15, platform), (23, 0),
    (25, random), (31, execfn)]
  let t := auxv.foldl (fun t (key, v) => (t.pushNum v).pushNum key) (t.pushNum 0)
  let t := envp.foldl pushNum (t.pushNum 0)
  let t := args.foldl pushNum (t.pushNum 0)
  t.pushNum args.length

/-- The pages of a cached program are mapped as they are, read-only. -/
def mapCached (t : ExecTask) (a : MemArea) : ExecTask :=
  let space := t.space.subArea a.start (a.start + a.len)
  { t with space :=
    { space with memset := space.memset.push a, pt := space.pt.mapTrackers a.mtrackers urx } }

def loadCache (t : ExecTask) (alloc : Nat → MmapEnv) (libcPath : String)
    (cache : TaskCacheTemplate) (args : List String) (path : PathBuf) : ExecTask :=
  cache.maps.foldl mapCached
    (t.initTaskStack alloc libcPath args cache.base path.path cache.entry cache.phCount
      cache.phEntrySize cache.phAddr cache.heapBottom)

/-- One segment; `none` when there is not enough memory, or the file is too short. -/
def loadSegment (t : ExecTask) (env : MmapEnv) (base size : Nat) (ph : ProgramHeader) :
    Option ExecTask :=
  if ph.pageCount base = 0 ∨ ph.offset + ph.fileSize > size then none
  else
    (t.space.frameAlloc env (floor (ph.loadAddr base)) .mmap (ph.pageCount base)).map
      (fun (_, space) => { t with space := space })

/-- The segments that are loaded; `i` counts the calls of `frame_alloc`. -/
def loadSegments (alloc : Nat → MmapEnv) (base size : Nat) :
    ExecTask → Nat → List ProgramHeader → Option ExecTask
  | t, _, [] => some t
  | t, i, ph :: phs =>
    match ph.kind with
    | none => none
    | some .load =>
      (t.loadSegment (alloc i) base size ph).bind
        (fun t => loadSegments alloc base size t (i + 1) phs)
    | some _ => loadSegments alloc base size t i phs

/-- The program of a file of `size` bytes; `none` is a panic. -/
def loadElf (t : ExecTask) (alloc : Nat → MmapEnv) (libcPath : String) (elf : Elf) (size : Nat)
    (args : List String) (path : PathBuf) : Option ExecTask :=
  match (elf.headers.map (fun ph => wadd ph.virtualAddr ph.memSize)).max?, elf.relocates with
  | some top, some relocates =>
    let heapBottom := divCeil top pageSize * pageSize % 2 ^ 64
    let base := if relocates then userDynAddr else 0
    loadSegments alloc base size
      (t.initTaskStack alloc libcPath args base path.path elf.entryPoint elf.phCount
        elf.phEntrySize elf.phAddr heapBottom) 1 elf.headers
  | _, _ => none

/-- Every page of every area unmapped, the areas dropped, and `page_table.restore()`: no user
mapping is left. -/
def teardown (t : ExecTask) : ExecTask :=
  { t with space := { t.space with memset := ⟨[]⟩, pt := .empty } }

end ExecTask

/-! ## The search for the program -/

/-- What `exec_with_process` asks of the rest of the kernel, whose state is a `K`. -/
structure ExecEnv (K : Type) where
  caches : List TaskCacheTemplate
  libcPath : String
  dynPath : String
  openFile : K → PathBuf → Except Errno Nat
  fileSize : K → (file : Nat) → Except Errno Nat
  /-- the frames of the read buffer; `none` when there are not enough -/
  bufferAlloc : K → (pages : Nat) → Option K
  readat : K → (file size : Nat) → Except Errno (List UInt8)
  /-- the areas go, the pages of a shared file after they are written back; `none` when that
  fails -/
  dropAreas : K → List MemArea → Option K
  /-- what the calls of `frame_alloc` are answered with, in their order -/
  alloc : K → Nat → MmapEnv

/-- What one level of the search ends with. -/
inductive Found (K : Type) where
  | cached (cache : TaskCacheTemplate)
  | program (f : ElfFile) (k : K)
  /-- another program is to run the file; it gets these arguments in place of the first `skip` -/
  | interpreter (path : String) (args : List String) (skip : Nat) (k : K)
  | failed (e : Errno)
  | panicked

namespace ExecEnv

variable {K : Type} (env : ExecEnv K)

/-- The linker of a dynamically linked program. -/
def linker (libc : LibcType) : String :=
  match libc with
  | .musl => env.libcPath
  | .glibc => env.dynPath
  | .unknown => env.dynPath

/-- How the bytes of a file are run. `k₀` is the kernel before the buffer was allocated, `k` after. -/
def classify (k₀ k : K) (path : PathBuf) (buffer : List UInt8) : Found K :=
  match ElfFile.new buffer with
  -- the buffer is kept for as long as `busybox` is looked for
  | none => .interpreter "busybox" ["busybox", "sh"] 0 k
  | some f =>
    match f.interp with
    | none => .panicked
    | some (some _) =>
      -- the buffer is dropped, and then the type is read from it
      match detectLibcType f.dropped with
      | none => .panicked
      | some libc => .interpreter (env.linker libc) [env.linker libc, path.path] 1 k₀
    | some none => .program f k

/-- The file of the path, read as a whole. -/
def readProgram (k : K) (path : PathBuf) : Found K :=
  match env.openFile k path with
  | .error e => .failed e
  | .ok file =>
    match env.fileSize k file with
    | .error e => .failed e
    | .ok size =>
      -- the buffer of an empty file has no first frame
      if size = 0 then .panicked
      else
        match env.bufferAlloc k (divCeil size pageSize) with
        | none => .panicked
        | some k' =>
          match env.readat k' file size with
          | .error e => .failed e
          | .ok buffer =>
            if buffer.length = size then env.classify k k' path buffer else .panicked

def find (k : K) (path : PathBuf) : Found K :=
  match env.caches.find? (·.name == path) with
  | some cache => .cached cache
  | none => env.readProgram k path

end ExecEnv

/-! ## The call -/

inductive ExecResult where
  | ok (task : ExecTask)
  | err (e : Errno) (task : ExecTask)
  | panicked

namespace ExecEnv

variable {K : Type} (env : ExecEnv K) (currDir : PathBuf)

/-- `fuel` bounds the depth of the recursion; `none` when it is not enough. -/
def execWithProcess : (fuel : Nat) → K → ExecTask → String → List String → Option ExecResult
  | 0, _, _, _, _ => none
  | fuel + 1, k, task, path, args =>
    let path := PathBuf.join currDir path
    match env.dropAreas k task.space.memset.areas with
    | none => some .panicked
    | some k =>
      -- the address space is gone before the file is looked for
      let task := task.teardown
      match env.find k path with
      | .cached cache => some (.ok (task.loadCache (env.alloc k) env.libcPath cache args path))
      | .program f k =>
        match task.loadElf (env.alloc k) env.libcPath f.elf f.input.length args path with
        | some task => some (.ok task)
        | none => some .panicked
      | .interpreter path new skip k => execWithProcess fuel k task path (new ++ args.drop skip)
      | .failed e => some (.err e task)
      | .panicked => some .panicked

/-- The call returns. -/
def Returns (k : K) (task : ExecTask) (path : String) (args : List String) (r : ExecResult) :
    Prop :=
  ∃ fuel, env.execWithProcess currDir fuel k task path args = some r

/-- A file of the search, from `path` on, cannot be opened, sized or read. The areas are those
that are dropped before it. -/
inductive LookupFails : K → List MemArea → String → Errno → Prop where
  | here {k k' : K} {areas : List MemArea} {path : String} {e : Errno}
      (hdrop : env.dropAreas k areas = some k')
      (hfind : env.find k' (PathBuf.join currDir path) = .failed e) : LookupFails k areas path e
  | next {k k' k'' : K} {areas : List MemArea} {path path' : String} {new : List String}
      {skip : Nat} {e : Errno} (hdrop : env.dropAreas k areas = some k')
      (hfind : env.find k' (PathBuf.join currDir path) = .interpreter path' new skip k'')
      (hrest : LookupFails k'' [] path' e) : LookupFails k areas path e

variable {env currDir}

/-- A failed call has torn the task down, and done nothing else to it. -/
theorem execWithProcess_err {fuel : Nat} {k : K} {task task' : ExecTask} {path : String}
    {args : List String} {e : Errno}
    (h : env.execWithProcess currDir fuel k task path args = some (.err e task')) :
    task' = task.teardown ∧ env.LookupFails currDir k task.space.memset.areas path e := by
  induction fuel generalizing k task path args with
  | zero => cases h
  | succ fuel ih =>
    simp only [execWithProcess] at h
    split at h
    · cases h
    rename_i k' hdrop
    split at h
    · cases h
    · split at h <;> cases h
    · rename_i hfind
      -- the second teardown finds nothing left
      obtain ⟨htask, hrest⟩ := ih h
      exact ⟨htask, .next hdrop hfind hrest⟩
    · rename_i hfind
      cases h
      exact ⟨rfl, .here hdrop hfind⟩
    · cases h

theorem LookupFails.returns {k : K} {areas : List MemArea} {path : String} {e : Errno}
    (h : env.LookupFails currDir k areas path e) (task : ExecTask)
    (hareas : task.space.memset.areas = areas) (args : List String) :
    env.Returns currDir k task path args (.err e task.teardown) := by
  induction h generalizing task args with
  | here hdrop hfind =>
    refine ⟨1, ?_⟩
    simp only [execWithProcess, hareas, hdrop, hfind]
  | next hdrop hfind hrest ih =>
    rename_i new skip e
    obtain ⟨fuel, hfuel⟩ := ih task.teardown rfl (new ++ args.drop skip)
    refine ⟨fuel + 1, ?_⟩
    simp only [execWithProcess, hareas, hdrop, hfind]
    exact hfuel

theorem teardown_eq_self_iff {task : ExecTask} :
    task.teardown = task ↔ task.space.memset.areas = [] ∧ ∀ v, task.space.pt v = none := by
  constructor
  · intro h
    rw [← h]
    exact ⟨rfl, fun _ => rfl⟩
  · rintro ⟨hareas, hpt⟩
    have hmemset : task.space.memset = ⟨[]⟩ := congrArg MemSet.mk hareas
    have hempty : task.space.pt = .empty := funext hpt
    unfold ExecTask.teardown
    rw [← hmemset, ← hempty]

variable (env currDir)

/-- A call that fails leaves the task as it was exactly if the task had no area and no user
mapping to lose. The other way out is that no call fails: every file of the search is read. -/
theorem exec_failure_keeps_task_iff (k : K) (task : ExecTask) (path : String)
    (args : List String) :
    (∀ e task', env.Returns currDir k task path args (.err e task') → task' = task)
      ↔ (task.space.memset.areas = [] ∧ ∀ v, task.space.pt v = none)
        ∨ ∀ e, ¬ env.LookupFails currDir k task.space.memset.areas path e := by
  rw [← teardown_eq_self_iff]
  constructor
  · intro hkeeps
    by_cases hfails : ∃ e, env.LookupFails currDir k task.space.memset.areas path e
    · obtain ⟨e, he⟩ := hfails
      exact .inl (hkeeps e _ (he.returns task rfl args))
    · exact .inr (not_exists.mp hfails)
  · intro hcond e task' hreturns
    obtain ⟨fuel, hfuel⟩ := hreturns
    obtain ⟨htask, hfails⟩ := execWithProcess_err hfuel
    rcases hcond with hself | hnone
    · rw [htask, hself]
    · exact absurd hfails (hnone e)

end ExecEnv

/-- A kernel without any file. -/
def ExecEnv.noFiles : ExecEnv Unit where
  caches := []
  libcPath := ""
  dynPath := ""
  openFile := fun _ _ => .error .ENOENT
  fileSize := fun _ _ => .error .EBADF
  bufferAlloc := fun _ _ => none
  readat := fun _ _ _ => .error .EBADF
  dropAreas := fun _ _ => some ()
  alloc := fun _ _ => .bare

/-- A task with one resident page, of code. -/
def ExecTask.onePage : ExecTask where
  space := { AddrSpace.empty with
    memset := ⟨[⟨.mmap, [⟨0x10000, 0x80200000, 0⟩], none, 0, 0x10000, 0x1000⟩]⟩
    pt := PageTable.empty.mapPage 0x10000 0x80200000 urwx }
  heap := 0x11000
  entry := 0x10000
  cx := (TrapFrame.setSp ⟨fun _ => 0, 0⟩ 0x7fffff00).setSepc 0x10004
  pushed := []

/-- The file is not there: the call fails, and the task has lost its code. -/
theorem exec_failure_loses_memory :
    ∃ task', ExecEnv.noFiles.Returns [] () .onePage "missing" ["missing"] (.err .ENOENT task')
      ∧ task'.space.memset.areas = [] ∧ ExecTask.onePage.space.memset.areas.length = 1
      ∧ task'.space.pt 0x10000 = none
      ∧ ExecTask.onePage.space.pt 0x10000 = some ⟨0x80200000, urwx⟩ :=
  ⟨_, ⟨1, rfl⟩, rfl, rfl, rfl, rfl⟩

end MonkeyOS
