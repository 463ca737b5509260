import MonkeyOS.Basic
import MonkeyOS.Task.Exit
import Mathlib.Data.List.Nodup

/-!
# MonkeyOS — waiting for a child (`sys_wait4`)

`sys_wait4` searches the children twice over, in two ways. The blocking form awaits `WaitPid`,
which looks for a child that matches *and* has exited. The form with `WNOHANG` takes the first child
that matches, and only then asks whether that one has exited.

The two agree when the pid names a child, since then one child matches at most. For any child
(`pid = -1`) they agree if the first one decides (`wait4_nohang_iff`).
-/

namespace MonkeyOS

/-- A child, with the fields of its `pcb` that the parent reads. -/
structure ChildTask extends Child where
  exitSignal : Option Nat
  coreDumped : Bool

/-- The children of a process. Their task ids are from `task_id_alloc`, which starts at 1 and hands
out each one once. -/
structure Children where
  list : List ChildTask
  nodup : (list.map (·.taskId)).Nodup
  pos : ∀ x ∈ list, x.taskId ≠ 0

/-- A process that waits. -/
structure WaitSys where
  children : Children
  /-- the keys of `TASK_MAP` -/
  taskMap : List Nat
  /-- the words of the user memory -/
  words : Nat → BitVec 32

/-- The process id `-1`, as a machine word. -/
def anyChild : Nat := 2 ^ 64 - 1

def wnohang : Nat := 1

def ChildTask.Matches (x : ChildTask) (pid : Nat) : Prop := pid = anyChild ∨ x.taskId = pid

/-- The child in the list `children` that `WaitPid::poll` answers with. -/
def waitPid (children : List ChildTask) (pid : Nat) : Option ChildTask :=
  children.find? (fun x => (pid == anyChild || x.taskId == pid) && x.exitCode.isSome)

/-- The status of a child that was killed by a signal, or returned an exit code. -/
def ChildTask.waitStatus (x : ChildTask) (exitCode : Nat) : BitVec 32 :=
  match x.exitSignal with
  | some signal =>
    let status := BitVec.ofNat 32 signal
    if x.coreDumped then status ||| 0x80 else status
  | none => BitVec.ofNat 32 exitCode <<< 8

/-- `children.retain(|x| x.task_id != task_id)`. -/
def Children.retainOthers (children : Children) (taskId : Nat) : Children where
  list := children.list.filter (·.taskId != taskId)
  nodup := children.nodup.sublist (List.filter_sublist.map _)
  pos := fun x hx => children.pos x (List.mem_of_mem_filter hx)

namespace WaitSys

/-- What both forms do with the child they found: `release` takes it out of `TASK_MAP`, and the
status is written when the pointer is not null. -/
def reap (s : WaitSys) (x : ChildTask) (exitCode status : Nat) : WaitSys where
  children := s.children.retainOthers x.taskId
  taskMap := s.taskMap.filter (· != x.taskId)
  words := if status ≠ 0 then Function.update s.words status (x.waitStatus exitCode) else s.words

/-- `sys_wait4`; `none` while `WaitPid` is pending. -/
def sysWait4 (s : WaitSys) (pid status options : Nat) : Option (WaitSys × Except Errno Nat) :=
  if s.children.list.length = 0 then some (s, .error .ECHILD)
  else if pid ≠ anyChild ∧ (s.children.list.find? (·.taskId == pid)).isNone then
    some (s, .error .ECHILD)
  else if options = 0 ∨ options = 2 ∨ options = 3 ∨ options = 10 then
    (waitPid s.children.list pid).map
      (fun x => (s.reap x (x.exitCode.getD 0) status, .ok x.taskId))
  else if options = wnohang then
    match s.children.list.find? (fun x => x.taskId == pid || pid == anyChild) with
    | none => some (s, .ok 0)
    | some x =>
      match x.exitCode with
      | some exitCode => some (s.reap x exitCode status, .ok x.taskId)
      | none => some (s, .ok 0)
  else some (s, .error .EPERM)

end WaitSys

/-! ## The status word

What a program reads out of it, with the macros of `sys/wait.h`. -/

def wtermsig (w : BitVec 32) : Nat := w.toNat % 0x80

def wcoredump (w : BitVec 32) : Bool := w.toNat / 0x80 % 2 == 1

def wexitstatus (w : BitVec 32) : Nat := w.toNat / 0x100 % 0x100

/-- The word says how the child ended: by which signal and whether it left a core, or with which
exit code. -/
def ChildTask.Encoded (x : ChildTask) (w : BitVec 32) : Prop :=
  match x.exitSignal with
  | some signal => signal < 0x80 → wtermsig w = signal ∧ wcoredump w = x.coreDumped
  | none => wtermsig w = 0 ∧ ∀ exitCode, x.exitCode = some exitCode → wexitstatus w = exitCode % 0x100

variable {x : ChildTask} {children : Children}

theorem ChildTask.encoded_waitStatus {exitCode : Nat}
    (h : x.exitCode = some exitCode) : x.Encoded (x.waitStatus exitCode) := by
  unfold Encoded waitStatus
  cases x.exitSignal with
  | some signal =>
    have hall : ∀ signal < 0x80, ∀ core : Bool,
        wtermsig (if core then BitVec.ofNat 32 signal ||| 0x80 else BitVec.ofNat 32 signal) = signal
        ∧ wcoredump (if core then BitVec.ofNat 32 signal ||| 0x80 else BitVec.ofNat 32 signal)
          = core := by
      decide
    intro hsignal
    exact hall signal hsignal x.coreDumped
  | none =>
    -- the low byte of the word is empty, the exit code starts above it
    have hword : (BitVec.ofNat 32 exitCode <<< 8).toNat = exitCode * 2 ^ 8 % 2 ^ 32 := by
      rw [BitVec.toNat_shiftLeft, Nat.shiftLeft_eq, BitVec.toNat_ofNat, Nat.mod_mul_mod]
    constructor
    · unfold wtermsig
      rw [hword]
      omega
    · intro code hcode
      cases h.symm.trans hcode
      unfold wexitstatus
      rw [hword]
      omega

/-! ## The two searches -/

/-- Some child that matches has exited. -/
def WaitSys.Ready (s : WaitSys) (pid : Nat) : Prop :=
  ∃ x ∈ s.children.list, x.Matches pid ∧ x.exitCode.isSome

/-- `waitPid` is the search of the other model of `WaitPid`, with the child's other fields. -/
theorem waitPid_toChild (children : List ChildTask) (pid : Nat) :
    (waitPid children pid).map ChildTask.toChild
      = waitPidPoll (children.map ChildTask.toChild) pid := by
  unfold waitPid waitPidPoll
  rw [List.find?_map]
  rfl

theorem waitPidPoll_isSome_iff (s : WaitSys) (pid : Nat) :
    (waitPidPoll (s.children.list.map ChildTask.toChild) pid).isSome ↔ s.Ready pid := by
  rw [← waitPid_toChild, Option.isSome_map]
  unfold waitPid WaitSys.Ready ChildTask.Matches
  simp [List.find?_isSome]

theorem Children.eq_of_taskId {y : ChildTask} (hx : x ∈ children.list) (hy : y ∈ children.list)
    (h : x.taskId = y.taskId) : x = y :=
  List.inj_on_of_nodup_map children.nodup hx hy h

theorem Children.mem_retainOthers (hx : x ∈ children.list) (y : ChildTask) :
    y ∈ (children.retainOthers x.taskId).list ↔ y ∈ children.list ∧ y ≠ x := by
  show y ∈ children.list.filter _ ↔ _
  rw [List.mem_filter, bne_iff_ne]
  refine and_congr_right fun hy => not_congr ⟨fun h => ?_, fun h => ?_⟩
  · exact eq_of_taskId hy hx h
  · rw [h]

section

variable {s t : WaitSys} {pid status : Nat} {r : Except Errno Nat}

/-- What the call with `WNOHANG` can do: there is no such child, or it reaps the first child that
matches, or that child has not exited. -/
inductive NoHangCase (s : WaitSys) (pid status : Nat) : WaitSys → Except Errno Nat → Prop where
  | noChild (h : ∀ x ∈ s.children.list, ¬ x.Matches pid) :
      NoHangCase s pid status s (.error .ECHILD)
  | reaped {x : ChildTask} {exitCode : Nat} (hx : x ∈ s.children.list) (hmatch : x.Matches pid)
      (hfirst : pid = anyChild → s.children.list.head? = some x)
      (hexit : x.exitCode = some exitCode) :
      NoHangCase s pid status (s.reap x exitCode status) (.ok x.taskId)
  | running {x : ChildTask} (hx : x ∈ s.children.list) (hmatch : x.Matches pid)
      (hfirst : pid = anyChild → s.children.list.head? = some x) (hexit : x.exitCode = none) :
      NoHangCase s pid status s (.ok 0)

/-- The search with `WNOHANG` stops at the first child when any child will do. -/
theorem head?_of_find? {children : List ChildTask} {x : ChildTask} (hpid : pid = anyChild)
    (h : children.find? (fun x => x.taskId == pid || pid == anyChild) = some x) :
    children.head? = some x := by
  cases children with
  | nil => cases h
  | cons y rest =>
    rw [List.find?_cons_of_pos (by simp [hpid])] at h
    exact h

theorem noHangCase (s : WaitSys) (pid status : Nat) :
    ∃ t r, s.sysWait4 pid status wnohang = some (t, r) ∧ NoHangCase s pid status t r := by
  unfold WaitSys.sysWait4
  by_cases hempty : s.children.list.length = 0
  · refine ⟨s, _, if_pos hempty, .noChild ?_⟩
    rw [List.length_eq_zero_iff.mp hempty]
    exact fun x hx => nomatch hx
  rw [if_neg hempty]
  by_cases hpid : pid ≠ anyChild ∧ (s.children.list.find? (·.taskId == pid)).isNone
  · refine ⟨s, _, if_pos hpid, .noChild ?_⟩
    intro x hx hmatch
    have hnone := List.find?_eq_none.mp (Option.isNone_iff_eq_none.mp hpid.2) x hx
    simp [hmatch.resolve_left hpid.1] at hnone
  rw [if_neg hpid, if_neg (by decide), if_pos rfl]
  cases hfind : s.children.list.find? (fun x => x.taskId == pid || pid == anyChild) with
  | none =>
    -- the two checks in front leave some child that matches
    exfalso
    have hno := List.find?_eq_none.mp hfind
    obtain ⟨y, hy⟩ := List.exists_mem_of_length_pos (Nat.pos_of_ne_zero hempty)
    have hne : pid ≠ anyChild := by
      intro h
      exact hno y hy (by simp [h])
    refine hpid ⟨hne, Option.isNone_iff_eq_none.mpr (List.find?_eq_none.mpr fun z hz h => ?_)⟩
    exact hno z hz (by simp [h])
  | some x =>
    have hx := List.mem_of_find?_eq_some hfind
    have hmatch : x.Matches pid := by
      have htrue := List.find?_some hfind
      unfold ChildTask.Matches
      simpa [or_comm] using htrue
    cases hexit : x.exitCode with
    | some exitCode =>
      refine ⟨s.reap x exitCode status, .ok x.taskId, ?_,
        .reaped hx hmatch (head?_of_find? · hfind) hexit⟩
      dsimp only
      rw [hexit]
    | none =>
      refine ⟨s, .ok 0, ?_, .running hx hmatch (head?_of_find? · hfind) hexit⟩
      dsimp only
      rw [hexit]

end

/-! ## What a wait without hanging should do -/

/-- The call finds a child exactly if one that matches has exited, as the blocking form does. The
child returned has exited, it and no other leaves the children, and its status is written; if the
call returns 0, nothing changes. -/
structure WaitSys.Finds (s : WaitSys) (pid status : Nat) (t : WaitSys) (r : Except Errno Nat) :
    Prop where
  finds : (∃ x ∈ s.children.list, r = .ok x.taskId) ↔ s.Ready pid
  blocking : (waitPidPoll (s.children.list.map ChildTask.toChild) pid).isSome ↔ s.Ready pid
  reaps : ∀ x ∈ s.children.list, r = .ok x.taskId →
    x.Matches pid ∧ x.exitCode.isSome
    ∧ (∀ y, y ∈ t.children.list ↔ y ∈ s.children.list ∧ y ≠ x)
    ∧ (status ≠ 0 → x.Encoded (t.words status)) ∧ ∀ a, a ≠ status → t.words a = s.words a
  zero : r = .ok 0 → t = s

namespace WaitSys

variable {s : WaitSys} {pid status : Nat}

variable {x : ChildTask} {exitCode : Nat}

theorem words_reap_self (h : status ≠ 0) :
    (s.reap x exitCode status).words status = x.waitStatus exitCode := by
  unfold reap
  rw [if_pos h]
  exact Function.update_self _ _ _

theorem words_reap_of_ne {a : Nat} (h : a ≠ status) :
    (s.reap x exitCode status).words a = s.words a := by
  unfold reap
  split
  · exact Function.update_of_ne h _ _
  · rfl

theorem finds_noChild (h : ∀ x ∈ s.children.list, ¬ x.Matches pid) :
    s.Finds pid status s (.error .ECHILD) where
  finds := by
    constructor
    · rintro ⟨x, -, hr⟩
      cases hr
    · rintro ⟨x, hx, hmatch, -⟩
      exact absurd hmatch (h x hx)
  blocking := waitPidPoll_isSome_iff s pid
  reaps := fun _ _ hr => nomatch hr
  zero := fun hr => nomatch hr

theorem finds_reaped (hx : x ∈ s.children.list) (hmatch : x.Matches pid)
    (hexit : x.exitCode = some exitCode) :
    s.Finds pid status (s.reap x exitCode status) (.ok x.taskId) where
  finds := ⟨fun _ => ⟨x, hx, hmatch, by rw [hexit]; rfl⟩, fun _ => ⟨x, hx, rfl⟩⟩
  blocking := waitPidPoll_isSome_iff s pid
  reaps := by
    intro y hy hr
    have hid : x.taskId = y.taskId := Except.ok.inj hr
    obtain rfl := Children.eq_of_taskId hx hy hid
    refine ⟨hmatch, by rw [hexit]; rfl, Children.mem_retainOthers hx, ?_, ?_⟩
    · intro hstatus
      rw [words_reap_self hstatus]
      exact ChildTask.encoded_waitStatus hexit
    · intro a ha
      exact words_reap_of_ne ha
  zero := by
    intro hr
    exact absurd (Except.ok.inj hr) (s.children.pos x hx)

/-- When the call returns 0, the law is that no child is ready. -/
theorem finds_zero_iff : s.Finds pid status s (.ok 0) ↔ ¬ s.Ready pid := by
  have hno : ¬ ∃ x ∈ s.children.list, Except.ok (ε := Errno) 0 = .ok x.taskId := by
    rintro ⟨x, hx, hr⟩
    exact s.children.pos x hx (Except.ok.inj hr).symm
  constructor
  · intro h hready
    exact hno (h.finds.mpr hready)
  · intro h
    refine ⟨iff_of_false hno h, waitPidPoll_isSome_iff s pid, ?_, fun _ => rfl⟩
    intro x hx hr
    exact absurd ⟨x, hx, hr⟩ hno

/-- When a pid names a child, no other child matches. -/
theorem not_ready_of_running (hpid : pid ≠ anyChild) (hx : x ∈ s.children.list)
    (hmatch : x.Matches pid) (hexit : x.exitCode = none) : ¬ s.Ready pid := by
  rintro ⟨y, hy, hmatch', hexit'⟩
  have hid : x.taskId = y.taskId :=
    (hmatch.resolve_left hpid).trans (hmatch'.resolve_left hpid).symm
  obtain rfl := Children.eq_of_taskId hx hy hid
  rw [hexit] at hexit'
  cases hexit'

end WaitSys

/-- **`sys_wait4` with `WNOHANG` finds any exited child** exactly if it is not asked for any child
while the first one is running and some other has exited. -/
theorem wait4_nohang_iff (s : WaitSys) (pid status : Nat) :
    (∃ t r, s.sysWait4 pid status wnohang = some (t, r) ∧ s.Finds pid status t r)
      ↔ (pid = anyChild → s.Ready pid →
          ∃ x, s.children.list.head? = some x ∧ x.exitCode.isSome) := by
  obtain ⟨t, r, hcall, hcase⟩ := noHangCase s pid status
  have hfun : (∃ t r, s.sysWait4 pid status wnohang = some (t, r) ∧ s.Finds pid status t r)
      ↔ s.Finds pid status t r := by
    rw [hcall]
    constructor
    · rintro ⟨t', r', hsame, hfinds⟩
      cases hsame
      exact hfinds
    · intro hfinds
      exact ⟨t, r, rfl, hfinds⟩
  rw [hfun]
  cases hcase with
  | noChild h =>
    refine iff_of_true (WaitSys.finds_noChild h) ?_
    rintro - ⟨x, hx, hmatch, -⟩
    exact absurd hmatch (h x hx)
  | @reaped x exitCode hx hmatch hfirst hexit =>
    refine iff_of_true (WaitSys.finds_reaped hx hmatch hexit) ?_
    intro hpid _
    exact ⟨x, hfirst hpid, by rw [hexit]; rfl⟩
  | @running x hx hmatch hfirst hexit =>
    rw [WaitSys.finds_zero_iff]
    constructor
    · intro hno _ hready
      exact absurd hready hno
    · intro h hready
      by_cases hpid : pid = anyChild
      · -- the first child is the one that has not exited
        obtain ⟨y, hy, hexit'⟩ := h hpid hready
        cases (hfirst hpid).symm.trans hy
        rw [hexit] at hexit'
        cases hexit'
      · exact WaitSys.not_ready_of_running hpid hx hmatch hexit hready

/-- Two children, the first running, the second exited with 7: the call for any child with `WNOHANG`
returns 0, though the blocking form would return the second. -/
theorem wait4_nohang_misses_exited :
    let children : Children :=
      ⟨[⟨⟨2, none⟩, none, false⟩, ⟨⟨3, some 7⟩, none, false⟩], by decide, by decide⟩
    let s : WaitSys := ⟨children, [2, 3], fun _ => 0⟩
    s.sysWait4 anyChild 0 wnohang = some (s, .ok 0)
      ∧ waitPid s.children.list anyChild = some ⟨⟨3, some 7⟩, none, false⟩
      ∧ ¬ ∃ t r, s.sysWait4 anyChild 0 wnohang = some (t, r) ∧ s.Finds anyChild 0 t r := by
  refine ⟨rfl, rfl, ?_⟩
  rintro ⟨t, r, hcall, hfinds⟩
  cases hcall
  refine WaitSys.finds_zero_iff.mp hfinds ⟨⟨⟨3, some 7⟩, none, false⟩, ?_, .inl rfl, rfl⟩
  exact List.mem_cons_of_mem _ List.mem_cons_self

end MonkeyOS
