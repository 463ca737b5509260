import Mathlib.Data.List.Basic
import MonkeyOS.Basic
import MonkeyOS.Lib.Run

/-!
# MonkeyOS — the file-descriptor table (`kernel/src/tasks/task.rs`, `tasks/filetable.rs`)

A process has a table of open files and a limit, `rlimits[7]`, that `sys_prlimit64` sets to
anything. `get_fd` and `set_fd` compare their index with the limit and then index the table;
the table's own length is looked at by `clear_fd` and `alloc_fd` only.

* `allocFd_some` — the index `alloc_fd` finds: the first free one, inside the limit and the table;
* `getFd_set`, `getFd_set_of_ne`, `getFd_allocFd` — reading after the other operations;
* `install_cases` — `alloc_fd` and `set_fd` without a yield in between;
* `FdCall.law_iff` — when one system call keeps the law of a descriptor table;
* `fdTable_law_iff` — the same for every sequence of calls of a task.

An open file is a number that stands for its `Arc<File>`. Indexing outside the table is a
panic, `none` here.
-/

namespace MonkeyOS

open Lib

/-- `fd_table` and `rlimits[7]` of a process. -/
structure FdState where
  table : List (Option Nat)
  limit : Nat
  deriving DecidableEq

namespace FdState

/-- `FILE_MAX`. -/
def fileMax : Nat := 255

/-- `FileTable::new` and `rlimits_new`: the terminal three times, the rest free. -/
def new (tty : Nat) : FdState where
  table := List.replicate 3 (some tty) ++ List.replicate (fileMax - 3) none
  limit := fileMax

variable (s : FdState)

def getFd (index : Nat) : Option (Option Nat) :=
  if index ≥ s.limit then some none else s.table[index]?

def setFd (index value : Nat) : Option FdState :=
  if index ≥ s.limit then some s
  else if index < s.table.length then some { s with table := s.table.set index (some value) }
  else none

def clearFd (index : Nat) : FdState :=
  if index ≥ s.table.length then s else { s with table := s.table.set index none }

def allocFd : Option Nat × FdState :=
  let index := (s.table.zipIdx.find? (fun (x, i) => x.isNone && i < s.limit)).map Prod.snd
  if index.isNone ∧ s.table.length < s.limit then
    (some s.table.length, { s with table := s.table ++ [none] })
  else (index, s)

/-- No file stands at the index. -/
def Free (index : Nat) : Prop := ∀ f, s.table[index]? ≠ some (some f)

variable {s} {t : FdState} {d i f : Nat}

/-! ## `alloc_fd` -/

theorem allocFd_none (h : s.allocFd = (none, t)) : t = s := by
  unfold allocFd at h
  simp only at h
  split at h
  · cases h
  · exact (Prod.ext_iff.mp h).2.symm

/-- The scan finds nothing: every entry below the limit holds a file. -/
theorem full_of_find_none
    (h : s.table.zipIdx.find? (fun (x, i) => x.isNone && i < s.limit) = none)
    (hi : i < s.table.length) (hlimit : i < s.limit) : ∃ f, s.table[i]? = some (some f) := by
  have hentry := List.getElem?_eq_getElem hi
  have htest := List.find?_eq_none.mp h (s.table[i], i)
    (List.mk_mem_zipIdx_iff_getElem?.mpr hentry)
  cases hx : s.table[i] with
  | some f => exact ⟨f, by rw [hentry, hx]⟩
  | none =>
    rw [hx] at htest
    simp [hlimit] at htest

/-- The scan stops at a free entry, with no free one below the limit in front of it. -/
theorem first_of_find_some {x : Option Nat}
    (h : s.table.zipIdx.find? (fun (x, i) => x.isNone && i < s.limit) = some (x, d)) :
    s.table[d]? = some none ∧ d < s.limit ∧ ∀ j < d, ∃ f, s.table[j]? = some (some f) := by
  obtain ⟨htest, k, hk, hentry, hbefore⟩ := List.find?_eq_some_iff_getElem.mp h
  rw [List.getElem_zipIdx, Nat.zero_add] at hentry
  obtain ⟨rfl, rfl⟩ := Prod.ext_iff.mp hentry
  rw [List.length_zipIdx] at hk
  simp only [Bool.and_eq_true, Option.isNone_iff_eq_none, decide_eq_true_eq] at htest
  refine ⟨by rw [List.getElem?_eq_getElem hk, htest.1], htest.2, fun j hj => ?_⟩
  have hj' := hbefore j hj
  rw [List.getElem_zipIdx, Nat.zero_add] at hj'
  have hjk : j < s.table.length := Nat.lt_trans hj hk
  cases hx : s.table[j] with
  | some f => exact ⟨f, by rw [List.getElem?_eq_getElem hjk, hx]⟩
  | none =>
    rw [hx] at hj'
    have hlimit : ¬ j < s.limit := by simpa using hj'
    omega

/-- **What `alloc_fd` finds.** The first free index, below the limit; it may lie one past the
table, which then grows. -/
theorem allocFd_some (h : s.allocFd = (some d, t)) :
    d < s.limit ∧ (∀ j < d, ∃ f, s.table[j]? = some (some f))
      ∧ ((s.table[d]? = some none ∧ t = s)
        ∨ (d = s.table.length ∧ t = { s with table := s.table ++ [none] })) := by
  unfold allocFd at h
  simp only at h
  split at h
  · -- nothing free below the limit, which the table has not reached
    rename_i hgrow
    obtain ⟨hnone, hlen⟩ := hgrow
    rw [Option.isNone_iff_eq_none, Option.map_eq_none_iff] at hnone
    cases h
    exact ⟨hlen, fun j hj => full_of_find_none hnone hj (Nat.lt_trans hj hlen), .inr ⟨rfl, rfl⟩⟩
  · obtain ⟨hmap, rfl⟩ := Prod.ext_iff.mp h
    obtain ⟨⟨x, i⟩, hfind, rfl⟩ := Option.map_eq_some_iff.mp hmap
    obtain ⟨hfree, hlimit, hbefore⟩ := first_of_find_some hfind
    exact ⟨hlimit, hbefore, .inl ⟨hfree, rfl⟩⟩

theorem free_of_getElem? (h : s.table[i]? = some none) : s.Free i := by
  intro f hf
  rw [h] at hf
  cases hf

theorem free_of_length_le (h : s.table.length ≤ i) : s.Free i := by
  intro f hf
  rw [List.getElem?_eq_none h] at hf
  cases hf

/-- The index is free before, and a free slot of the table after. -/
theorem allocFd_slot (h : s.allocFd = (some d, t)) :
    t.limit = s.limit ∧ d < t.limit ∧ t.table[d]? = some none ∧ s.Free d := by
  obtain ⟨hlimit, -, ⟨hfree, rfl⟩ | ⟨rfl, rfl⟩⟩ := allocFd_some h
  · exact ⟨rfl, hlimit, hfree, free_of_getElem? hfree⟩
  · refine ⟨rfl, hlimit, ?_, free_of_length_le (Nat.le_refl _)⟩
    exact List.getElem?_concat_length

theorem table_allocFd (h : s.allocFd = (some d, t)) (hi : i ≠ d) : t.table[i]? = s.table[i]? := by
  obtain ⟨-, -, ⟨-, rfl⟩ | ⟨rfl, rfl⟩⟩ := allocFd_some h
  · rfl
  · show (s.table ++ [none])[i]? = s.table[i]?
    rcases Nat.lt_or_gt_of_ne hi with hlt | hgt
    · exact List.getElem?_append_left hlt
    · rw [List.getElem?_eq_none (by rw [List.length_append, List.length_singleton]; omega),
        List.getElem?_eq_none (by omega)]

theorem getFd_allocFd (h : s.allocFd = (some d, t)) (hi : i ≠ d) : t.getFd i = s.getFd i := by
  unfold getFd
  rw [(allocFd_slot h).1, table_allocFd h hi]

/-! ## Reading after a `set_fd` -/

theorem setFd_eq (hlimit : i < s.limit) (hlen : i < s.table.length) :
    s.setFd i f = some { s with table := s.table.set i (some f) } := by
  unfold setFd
  rw [if_neg (by omega), if_pos hlen]

theorem setFd_eq_none_iff : s.setFd i f = none ↔ i < s.limit ∧ s.table.length ≤ i := by
  unfold setFd
  split
  · exact iff_of_false (fun h => nomatch h) (by omega)
  split
  · exact iff_of_false (fun h => nomatch h) (by omega)
  · exact iff_of_true rfl (by omega)

theorem getFd_eq_none_iff : s.getFd i = none ↔ i < s.limit ∧ s.table.length ≤ i := by
  unfold getFd
  split
  · exact iff_of_false (fun h => nomatch h) (by omega)
  · rw [List.getElem?_eq_none_iff]
    omega

theorem lt_of_getFd_eq_some (h : s.getFd i = some (some f)) :
    i < s.limit ∧ s.table[i]? = some (some f) := by
  unfold getFd at h
  split at h
  · cases h
  · exact ⟨by omega, h⟩

/-- Storing a file at an index inside the limit and the table. -/
theorem getFd_set (hlimit : i < s.limit) (hlen : i < s.table.length) :
    ({ s with table := s.table.set i (some f) } : FdState).getFd i = some (some f) := by
  unfold getFd
  rw [if_neg (Nat.not_le_of_lt hlimit)]
  exact List.getElem?_set_self hlen

theorem getFd_set_of_ne {j : Nat} (hj : j ≠ i) :
    ({ s with table := s.table.set i (some f) } : FdState).getFd j = s.getFd j := by
  unfold getFd
  rw [List.getElem?_set_ne (Ne.symm hj)]

/-- Beyond the limit `set_fd` stores nothing, and below it it indexes the table. -/
theorem lt_of_setFd {g : Nat} (hset : s.setFd i f = some t) (hget : t.getFd i = some (some g)) :
    i < s.limit ∧ i < s.table.length := by
  have hlimit : i < s.limit := by
    by_contra hnot
    unfold setFd at hset
    rw [if_pos (Nat.le_of_not_lt hnot)] at hset
    cases hset
    exact hnot (lt_of_getFd_eq_some hget).1
  refine ⟨hlimit, ?_⟩
  by_contra hnot
  rw [setFd_eq_none_iff.mpr ⟨hlimit, Nat.le_of_not_lt hnot⟩] at hset
  cases hset

/-! ## The system calls -/

/-- `alloc_fd` followed at once by `set_fd`, as most calls do it; `e` is the error when there is
no index. -/
def install (s : FdState) (e : Errno) (value : Nat) : Option (Except Errno Nat × FdState) :=
  match s.allocFd with
  | (none, s) => some (.error e, s)
  | (some fd, s) => (s.setFd fd value).map (fun s => (.ok fd, s))

def sysOpenat (s : FdState) (file : Except Errno Nat) : Option (Except Errno Nat × FdState) :=
  match file with
  | .ok file => s.install .EMFILE file
  | .error e => some (.error e, s)

def sysDup3 (s : FdState) (fdSrc fdDst : Nat) : Option (Except Errno Nat × FdState) :=
  match s.getFd fdSrc with
  | none => none
  | some none => some (.error .EBADF, s)
  | some (some file) => (s.setFd fdDst file).map (fun s => (.ok fdDst, s))

def sysDup (s : FdState) (fd : Nat) : Option (Except Errno Nat × FdState) :=
  match s.allocFd with
  | (none, s) => some (.error .EMFILE, s)
  | (some fdDst, s) => s.sysDup3 fd fdDst

/-- The result, the descriptors stored for the user (as 32-bit words) and the table. -/
def sysPipe2 (s : FdState) (rx tx : Nat) : Option (Except Errno Nat × List Nat × FdState) :=
  match s.install .ENFILE rx with
  | none => none
  | some (.error e, s) => some (.error e, [], s)
  | some (.ok rxFd, s) =>
    match s.install .ENFILE tx with
    | none => none
    | some (.error e, s) => some (.error e, [rxFd % 2 ^ 32], s)
    | some (.ok txFd, s) => some (.ok 0, [rxFd % 2 ^ 32, txFd % 2 ^ 32], s)

/-- `sys_prlimit64(RLIMIT_NOFILE)`: the new maximum, if any, and whether the old one is asked
for (it is stored after the change). -/
def sysPrlimit64 (s : FdState) (newMax : Option Nat) (old : Bool) : List Nat × FdState :=
  let s := { s with limit := newMax.getD s.limit }
  (if old then [s.limit, s.limit] else [], s)

/-- **`alloc_fd` and `set_fd` in one go** never panic: there is no index, or the first free one
gets the file and nothing else changes. -/
theorem install_cases (s : FdState) (e : Errno) (value : Nat) :
    s.install e value = some (.error e, s)
    ∨ ∃ d t, s.install e value = some (.ok d, t)
      ∧ (∀ j < d, ∃ f, s.table[j]? = some (some f)) ∧ s.Free d
      ∧ t.limit = s.limit ∧ t.table[d]? = some (some value) ∧ t.getFd d = some (some value)
      ∧ ∀ i, i ≠ d → t.table[i]? = s.table[i]? ∧ t.getFd i = s.getFd i := by
  unfold install
  cases halloc : s.allocFd with
  | mk index t =>
    cases index with
    | none =>
      cases allocFd_none halloc
      exact .inl rfl
    | some d =>
      obtain ⟨hlimit, hd, hslot, hfree⟩ := allocFd_slot halloc
      have hlen : d < t.table.length := (List.getElem?_eq_some_iff.mp hslot).1
      refine .inr ⟨d, { t with table := t.table.set d (some value) }, ?_,
        (allocFd_some halloc).2.1, hfree, hlimit, List.getElem?_set_self hlen,
        getFd_set hd hlen, fun i hi => ⟨?_, ?_⟩⟩
      · simp only [setFd_eq hd hlen, Option.map_some]
      · show (t.table.set d (some value))[i]? = _
        rw [List.getElem?_set_ne (Ne.symm hi), table_allocFd halloc hi]
      · rw [getFd_set_of_ne hi, getFd_allocFd halloc hi]

end FdState

/-! ## The law of the table -/

inductive FdCall where
  /-- with what `fd_open` answers -/
  | openat (file : Except Errno Nat)
  | dup (fd : Nat)
  | dup3 (fdSrc fdDst : Nat)
  | close (fd : Nat)
  /-- with the new files of the receiver and the sender -/
  | pipe2 (rx tx : Nat)
  | prlimit64 (newMax : Option Nat) (old : Bool)

/-- One call: its result, what it stores for the user and the table; `none` is a panic. -/
def FdState.exec (s : FdState) : FdCall → Option (Except Errno Nat × List Nat × FdState)
  | .openat file => (s.sysOpenat file).map (fun (res, s) => (res, [], s))
  | .dup fd => (s.sysDup fd).map (fun (res, s) => (res, [], s))
  | .dup3 fdSrc fdDst => (s.sysDup3 fdSrc fdDst).map (fun (res, s) => (res, [], s))
  | .close fd => some (.ok 0, [], s.clearFd fd)
  | .pipe2 rx tx => s.sysPipe2 rx tx
  | .prlimit64 newMax old =>
    let (stored, s) := s.sysPrlimit64 newMax old
    some (.ok 0, stored, s)

def FdStep (s : FdState) (call : FdCall) (t : FdState) : Prop :=
  ∃ res stored, s.exec call = some (res, stored, t)

/-- Descriptor `d` now is the file `f`, and every other one is what it was. -/
def FdState.Installed (s t : FdState) (d f : Nat) : Prop :=
  t.getFd d = some (some f) ∧ ∀ i, i ≠ d → t.getFd i = s.getFd i

/-- What the result of a call promises. -/
def FdCall.Promise (s t : FdState) (res : Except Errno Nat) (stored : List Nat) : FdCall → Prop
  | .openat file => ∀ d, res = .ok d → ∃ f, file = .ok f ∧ s.Installed t d f
  | .dup fd => ∀ d, res = .ok d → ∃ f, s.getFd fd = some (some f) ∧ s.Installed t d f
  | .dup3 fdSrc _ => ∀ d, res = .ok d → ∃ f, s.getFd fdSrc = some (some f) ∧ s.Installed t d f
  | .pipe2 rx tx => ∀ d, res = .ok d → ∃ a b, stored = [a, b] ∧ a ≠ b ∧ s.Free a ∧ s.Free b
      ∧ t.getFd a = some (some rx) ∧ t.getFd b = some (some tx)
  | _ => True

/-- The call indexes inside the table only, and its result keeps its promise. -/
def FdCall.Law (s : FdState) (call : FdCall) : Prop :=
  ∃ res stored t, s.exec call = some (res, stored, t) ∧ call.Promise s t res stored

/-- When it does. `dup` and `dup3` need the descriptors they are given inside the table, unless
they fail before they look; `dup3` needs its target inside the limit as well. `pipe2` needs
indices that fit the 32-bit words it stores. -/
def FdCall.Within (s : FdState) : FdCall → Prop
  | .dup fd =>
    match s.allocFd with
    | (none, _) => True
    | (some _, t) => s.limit ≤ fd ∨ fd < t.table.length
  | .dup3 fdSrc fdDst =>
    s.limit ≤ fdSrc ∨ (fdSrc < s.table.length
      ∧ (s.Free fdSrc ∨ (fdDst < s.limit ∧ fdDst < s.table.length)))
  | .pipe2 rx tx => ∀ a t b u, s.install .ENFILE rx = some (.ok a, t) →
      t.install .ENFILE tx = some (.ok b, u) → a < 2 ^ 32 ∧ b < 2 ^ 32
  | _ => True

namespace FdCall

variable {s : FdState}

theorem law_openat (file : Except Errno Nat) : (FdCall.openat file).Law s := by
  cases file with
  | error e => exact ⟨_, _, _, rfl, fun d h => nomatch h⟩
  | ok f =>
    rcases s.install_cases .EMFILE f with h | ⟨d, t, h, -, -, -, -, hget, hrest⟩
    · refine ⟨.error .EMFILE, [], s, ?_, fun d h => nomatch h⟩
      simp only [FdState.exec, FdState.sysOpenat, h, Option.map_some]
    · refine ⟨.ok d, [], t, ?_, ?_⟩
      · simp only [FdState.exec, FdState.sysOpenat, h, Option.map_some]
      · rintro d' hd
        cases hd
        exact ⟨f, rfl, hget, fun i hi => (hrest i hi).2⟩

theorem sysDup3_ok {fdSrc fdDst f : Nat} (hsrc : s.getFd fdSrc = some (some f))
    (hlimit : fdDst < s.limit) (hlen : fdDst < s.table.length) :
    ∃ t, s.sysDup3 fdSrc fdDst = some (.ok fdDst, t) ∧ s.Installed t fdDst f := by
  refine ⟨{ s with table := s.table.set fdDst (some f) }, ?_, ?_⟩
  · simp only [FdState.sysDup3, hsrc, FdState.setFd_eq hlimit hlen, Option.map_some]
  · exact ⟨FdState.getFd_set hlimit hlen, fun i hi => FdState.getFd_set_of_ne hi⟩

/-- A source that is looked at and holds nothing: past the limit, or a free slot. -/
theorem getFd_eq_some_none {i : Nat} (h : s.getFd i = some none) :
    s.limit ≤ i ∨ i < s.table.length ∧ s.Free i := by
  unfold FdState.getFd at h
  split at h
  · rename_i hlimit
    exact .inl hlimit
  · exact .inr ⟨(List.getElem?_eq_some_iff.mp h).1, FdState.free_of_getElem? h⟩

theorem law_dup3_iff (fdSrc fdDst : Nat) :
    (FdCall.dup3 fdSrc fdDst).Law s ↔ (FdCall.dup3 fdSrc fdDst).Within s := by
  cases hsrc : s.getFd fdSrc with
  | none =>
    -- the source itself is outside the table
    obtain ⟨hlimit, hlen⟩ := FdState.getFd_eq_none_iff.mp hsrc
    refine iff_of_false ?_ ?_
    · rintro ⟨res, stored, t, hexec, -⟩
      simp [FdState.exec, FdState.sysDup3, hsrc] at hexec
    rintro (h | ⟨h, -⟩)
    · omega
    · omega
  | some entry =>
    cases entry with
    | none =>
      refine iff_of_true ⟨.error .EBADF, [], s, ?_, fun d h => nomatch h⟩ ?_
      · simp only [FdState.exec, FdState.sysDup3, hsrc, Option.map_some]
      · exact (getFd_eq_some_none hsrc).imp_right fun h => ⟨h.1, .inl h.2⟩
    | some f =>
      obtain ⟨hlimit, hentry⟩ := FdState.lt_of_getFd_eq_some hsrc
      constructor
      · rintro ⟨res, stored, t, hexec, hpromise⟩
        obtain ⟨⟨res', t'⟩, hdup, heq⟩ := Option.map_eq_some_iff.mp hexec
        simp only [FdState.sysDup3, hsrc] at hdup
        obtain ⟨u, hset, hpair⟩ := Option.map_eq_some_iff.mp hdup
        cases hpair
        cases heq
        obtain ⟨g, -, hget, -⟩ := hpromise fdDst rfl
        have hdst := FdState.lt_of_setFd hset hget
        exact .inr ⟨(List.getElem?_eq_some_iff.mp hentry).1, .inr hdst⟩
      · rintro (h | ⟨-, hfree | ⟨hdst, hlen⟩⟩)
        · omega
        · exact absurd hentry (hfree f)
        · obtain ⟨t, hdup, hinst⟩ := sysDup3_ok hsrc hdst hlen
          refine ⟨.ok fdDst, [], t, ?_, fun d hd => ?_⟩
          · simp only [FdState.exec, hdup, Option.map_some]
          · cases hd
            exact ⟨f, hsrc, hinst⟩

theorem law_dup_iff (fd : Nat) : (FdCall.dup fd).Law s ↔ (FdCall.dup fd).Within s := by
  unfold Within
  cases halloc : s.allocFd with
  | mk index t =>
    cases index with
    | none =>
      refine iff_of_true ⟨.error .EMFILE, [], t, ?_, fun d h => nomatch h⟩ trivial
      simp only [FdState.exec, FdState.sysDup, halloc, Option.map_some]
    | some d =>
      obtain ⟨hlimit, hd, hslot, -⟩ := FdState.allocFd_slot halloc
      have hexec : s.exec (.dup fd) = (t.sysDup3 fd d).map (fun (res, s) => (res, [], s)) := by
        simp only [FdState.exec, FdState.sysDup, halloc]
      cases hsrc : t.getFd fd with
      | none =>
        obtain ⟨hfd, hlen⟩ := FdState.getFd_eq_none_iff.mp hsrc
        refine iff_of_false ?_ (by omega)
        rintro ⟨res, stored, u, hexec', -⟩
        rw [hexec] at hexec'
        simp [FdState.sysDup3, hsrc] at hexec'
      | some entry =>
        cases entry with
        | none =>
          refine iff_of_true ⟨.error .EBADF, [], t, ?_, fun d h => nomatch h⟩ ?_
          · simp only [hexec, FdState.sysDup3, hsrc, Option.map_some]
          · rw [← hlimit]
            exact (getFd_eq_some_none hsrc).imp_right And.left
        | some f =>
          obtain ⟨-, hentry⟩ := FdState.lt_of_getFd_eq_some hsrc
          -- the source holds a file, the index found is free
          have hne : fd ≠ d := by
            rintro rfl
            rw [hslot] at hentry
            cases hentry
          obtain ⟨u, hdup, hget, hrest⟩ :=
            sysDup3_ok hsrc hd (List.getElem?_eq_some_iff.mp hslot).1
          refine iff_of_true ⟨.ok d, [], u, ?_, fun d' hd' => ?_⟩
            (.inr (List.getElem?_eq_some_iff.mp hentry).1)
          · simp only [hexec, hdup, Option.map_some]
          cases hd'
          refine ⟨f, (FdState.getFd_allocFd halloc hne).symm.trans hsrc, hget, fun i hi => ?_⟩
          rw [hrest i hi, FdState.getFd_allocFd halloc hi]

/-- An index that does not fit its word is stored as a smaller one, and every smaller one was
taken when the index was found. -/
theorem law_pipe2_iff (rx tx : Nat) :
    (FdCall.pipe2 rx tx).Law s ↔ (FdCall.pipe2 rx tx).Within s := by
  rcases s.install_cases .ENFILE rx with hrx | ⟨a, t, hrx, hbelowA, hfreeA, -, hslotA, hgetA, hrestA⟩
  · refine iff_of_true ⟨.error .ENFILE, [], s, ?_, fun d h => nomatch h⟩ fun a t b u hrx' => ?_
    · simp only [FdState.exec, FdState.sysPipe2, hrx]
    · rw [hrx] at hrx'
      cases hrx'
  rcases t.install_cases .ENFILE tx with htx | ⟨b, u, htx, hbelowB, hfreeB, -, -, hgetB, hrestB⟩
  · refine iff_of_true ⟨.error .ENFILE, [a % 2 ^ 32], t, ?_, fun d h => nomatch h⟩
      fun a' t' b u hrx' htx' => ?_
    · simp only [FdState.exec, FdState.sysPipe2, hrx, htx]
    · rw [hrx] at hrx'
      cases hrx'
      rw [htx] at htx'
      cases htx'
  have hab : a ≠ b := by
    rintro rfl
    exact hfreeB rx hslotA
  have hexec : s.exec (.pipe2 rx tx) = some (.ok 0, [a % 2 ^ 32, b % 2 ^ 32], u) := by
    simp only [FdState.exec, FdState.sysPipe2, hrx, htx]
  constructor
  · rintro ⟨res, stored, u', hexec', hpromise⟩ a' t' b' u'' hrx' htx'
    rw [hrx] at hrx'
    cases hrx'
    rw [htx] at htx'
    cases htx'
    rw [hexec] at hexec'
    cases hexec'
    obtain ⟨x, y, hstored, hxy, hfreeX, hfreeY, -, -⟩ := hpromise 0 rfl
    cases hstored
    have hA : a < 2 ^ 32 := by
      by_contra hlarge
      obtain ⟨f, hf⟩ := hbelowA (a % 2 ^ 32) (by omega)
      exact hfreeX f hf
    refine ⟨hA, ?_⟩
    by_contra hlarge
    rw [Nat.mod_eq_of_lt hA] at hxy
    obtain ⟨f, hf⟩ := hbelowB (b % 2 ^ 32) (by omega)
    rw [(hrestA _ hxy.symm).1] at hf
    exact hfreeY f hf
  · intro hwithin
    obtain ⟨hA, hB⟩ := hwithin a t b u hrx htx
    refine ⟨_, _, u, hexec, fun d _ => ⟨a, b, ?_, hab, hfreeA, ?_, ?_, hgetB⟩⟩
    · rw [Nat.mod_eq_of_lt hA, Nat.mod_eq_of_lt hB]
    · intro f hf
      rw [← (hrestA b hab.symm).1] at hf
      exact hfreeB f hf
    · rw [(hrestB a hab).2]
      exact hgetA

theorem law_iff (s : FdState) (call : FdCall) : call.Law s ↔ call.Within s := by
  cases call with
  | openat file => exact iff_of_true (law_openat file) trivial
  | dup fd => exact law_dup_iff fd
  | dup3 fdSrc fdDst => exact law_dup3_iff fdSrc fdDst
  | close fd => exact iff_of_true ⟨_, _, _, rfl, trivial⟩ trivial
  | pipe2 rx tx => exact law_pipe2_iff rx tx
  | prlimit64 newMax old => exact iff_of_true ⟨_, _, _, rfl, trivial⟩ trivial

end FdCall

/-- **The law of a task's descriptor table.** Over every sequence of calls from a new table: all
of them obey it exactly when each is `Within` what the table and the limit are at its time. -/
theorem fdTable_law_iff (tty : Nat) (calls : List FdCall) :
    Throughout FdStep (fun s call => call.Law s) (FdState.new tty) calls
      ↔ Throughout FdStep (fun s call => call.Within s) (FdState.new tty) calls :=
  throughout_iff (I := fun _ => True) (fun s call _ => FdCall.law_iff s call)
    (fun _ _ _ _ _ _ => trivial) trivial calls

/-- With the limit as it starts, `dup3` onto descriptor 255 answers 255 and installs nothing. With
the limit raised to 1000, `dup3` onto descriptor 300 and `dup` of it index past the table. -/
theorem fdTable_outside :
    (∃ t, (FdState.new 7).exec (.dup3 0 255) = some (.ok 255, [], t) ∧ t.getFd 255 = some none)
    ∧ ∃ t, (FdState.new 7).exec (.prlimit64 (some 1000) false) = some (.ok 0, [], t)
      ∧ t.exec (.dup3 0 300) = none ∧ t.exec (.dup 300) = none := by
  refine ⟨⟨_, rfl, rfl⟩, ⟨_, rfl, ?_, ?_⟩⟩
  · decide +kernel
  · decide +kernel

end MonkeyOS
