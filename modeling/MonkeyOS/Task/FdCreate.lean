import Mathlib.Tactic.IntervalCases
import MonkeyOS.Net.SocketPair
import MonkeyOS.Task.FdRun

/-!
# MonkeyOS — calls that make descriptors, when they fail (`kernel/src/syscall/{fd,socket}.rs`)

`sys_openat`, `sys_dup`, `sys_accept` and `sys_accept4` store their file as the last thing they do.
`sys_pipe2` and `sys_socket_pair` make two descriptors one after the other, and return with an error
from the second `alloc_fd` without taking the first back.

* `FdState.SameOpen` — the same files at the same descriptors, in a table that may have grown;
* `FdState.install_error_iff`, `FdState.install_ok` — when `alloc_fd` finds an index, and which free
  ones are left;
* `FdRun.sameOpen_step` — a turn of an `accept` that does not return `Ok`;
* `create_fails_iff` — a failing call leaves the descriptors as they were, but for the two that make
  two, and these exactly if the limit leaves room for one.
-/

namespace MonkeyOS

open Lib

namespace FdState

/-- The same files are open, under the same limit. -/
structure SameOpen (s t : FdState) : Prop where
  limit : t.limit = s.limit
  files : ∀ i f : Nat, t.table[i]? = some (some f) ↔ s.table[i]? = some (some f)

/-- Just one more descriptor can be made. -/
def OneFree (s : FdState) : Prop := ∃! i : Nat, i < s.limit ∧ s.Free i

section Alloc

variable {s t u : FdState} {i d e : Nat}

theorem SameOpen.refl (s : FdState) : s.SameOpen s := ⟨rfl, fun _ _ => Iff.rfl⟩

theorem SameOpen.trans (hst : s.SameOpen t) (htu : t.SameOpen u) : s.SameOpen u :=
  ⟨htu.limit.trans hst.limit, fun i f => (htu.files i f).trans (hst.files i f)⟩

/-- `alloc_fd` opens nothing: the table may grow by a free entry. -/
theorem sameOpen_allocFd {index : Option Nat} (h : s.allocFd = (index, t)) : s.SameOpen t := by
  cases index with
  | none =>
    rw [allocFd_none h]
    exact .refl s
  | some d =>
    obtain ⟨hlimit, -, hslot, hfree⟩ := allocFd_slot h
    refine ⟨hlimit, fun i f => ?_⟩
    by_cases hi : i = d
    · subst hi
      refine iff_of_false ?_ (hfree f)
      rw [hslot]
      exact fun hsome => nomatch hsome
    · rw [table_allocFd h hi]

/-- There is no index exactly if every one below the limit has a file. -/
theorem allocFd_eq_none_iff : s.allocFd.1 = none ↔ ∀ i < s.limit, ¬ s.Free i := by
  cases halloc : s.allocFd with
  | mk index t =>
    cases index with
    | some d =>
      obtain ⟨hlimit, hd, -, hfree⟩ := allocFd_slot halloc
      exact iff_of_false (Option.some_ne_none d) (fun hfull => hfull d (hlimit ▸ hd) hfree)
    | none =>
      refine iff_of_true rfl (fun i hi hfree => ?_)
      unfold allocFd at halloc
      dsimp only at halloc
      split at halloc
      · cases halloc
      rename_i hgrow
      have hnone := Option.map_eq_none_iff.mp (Prod.ext_iff.mp halloc).1
      rw [hnone] at hgrow
      have hlen : s.limit ≤ s.table.length := Nat.le_of_not_lt (fun hlt => hgrow ⟨rfl, hlt⟩)
      obtain ⟨f, hf⟩ := full_of_find_none hnone (Nat.lt_of_lt_of_le hi hlen) hi
      exact hfree f hf

/-- The error is given for a full table only. -/
theorem install_error_iff (s : FdState) (e : Errno) (value : Nat) :
    s.install e value = some (.error e, s) ↔ ∀ i < s.limit, ¬ s.Free i := by
  rw [← allocFd_eq_none_iff]
  cases halloc : s.allocFd with
  | mk index t =>
    cases index with
    | none =>
      refine iff_of_true ?_ rfl
      unfold install
      rw [halloc, allocFd_none halloc]
    | some d =>
      refine iff_of_false ?_ (fun h => nomatch h)
      obtain ⟨-, hd, hslot, -⟩ := allocFd_slot halloc
      unfold install
      simp only [halloc, setFd_eq hd (List.getElem?_eq_some_iff.mp hslot).1, Option.map_some]
      exact fun h => nomatch h

/-- A descriptor that was made: its index was free below the limit, and the other free ones are left. -/
theorem install_ok {e : Errno} {value : Nat} (h : s.install e value = some (.ok d, t)) :
    t.limit = s.limit ∧ d < s.limit ∧ s.Free d ∧ t.table[d]? = some (some value)
      ∧ ∀ i, t.Free i ↔ s.Free i ∧ i ≠ d := by
  rcases s.install_cases e value with herror | ⟨d', t', hok, -, hfree, hlimit, hslot, hget, hrest⟩
  · rw [h] at herror
    cases herror
  · rw [h] at hok
    cases hok
    refine ⟨hlimit, hlimit ▸ (lt_of_getFd_eq_some hget).1, hfree, hslot, fun i => ?_⟩
    by_cases hi : i = d
    · subst hi
      exact iff_of_false (fun hnot => hnot value hslot) (·.2 rfl)
    unfold Free
    rw [(hrest i hi).1]
    exact ⟨fun h => ⟨h, hi⟩, And.left⟩

/-- Two descriptors are made in turn: both, none, or just the first. -/
theorem install_twice (s : FdState) (e : Errno) (rx tx : Nat) :
    (s.install e rx = some (.error e, s) ∧ ¬ s.OneFree)
    ∨ (∃ a t, s.install e rx = some (.ok a, t) ∧ t.install e tx = some (.error e, t)
      ∧ ¬ s.SameOpen t ∧ s.OneFree)
    ∨ ∃ a t b u, s.install e rx = some (.ok a, t) ∧ t.install e tx = some (.ok b, u) ∧ ¬ s.OneFree := by
  rcases s.install_cases e rx with hrx | ⟨a, t, hrx, -⟩
  · refine .inl ⟨hrx, ?_⟩
    rintro ⟨i, ⟨hi, hfree⟩, -⟩
    exact (install_error_iff s e rx).mp hrx i hi hfree
  obtain ⟨hlimit, ha, hfree, hslot, hleft⟩ := install_ok hrx
  rcases t.install_cases e tx with htx | ⟨b, u, htx, -⟩
  · refine .inr (.inl ⟨a, t, hrx, htx, ?_, a, ⟨ha, hfree⟩, ?_⟩)
    · exact fun hsame => hfree rx ((hsame.files a rx).mp hslot)
    · rintro i ⟨hi, hfreeI⟩
      by_contra hne
      exact (install_error_iff t e tx).mp htx i (hlimit ▸ hi) ((hleft i).mpr ⟨hfreeI, hne⟩)
  · refine .inr (.inr ⟨a, t, b, u, hrx, htx, ?_⟩)
    obtain ⟨-, hb, hfreeB, -⟩ := install_ok htx
    obtain ⟨hfreeB', hne⟩ := (hleft b).mp hfreeB
    rintro ⟨i, -, hunique⟩
    exact hne ((hunique b ⟨hlimit ▸ hb, hfreeB'⟩).trans (hunique a ⟨ha, hfree⟩).symm)

end Alloc

end FdState

/-! ## `accept` -/

/-- The events of an `accept`. -/
def FdEvent.isAccept : FdEvent → Bool
  | .accept .. => true
  | .resume .. => true
  | _ => false

namespace FdRun

open FdState

variable {r u : FdRun} {tid : Nat} {out : FdOut}

variable {turns : List (Option Nat × Bool)} {attempt : Option Nat} {e : Errno} {kind : AcceptKind}
  {stop : Bool}

theorem sameOpen_acceptPoll {fd : Nat} (h : r.acceptPoll tid fd kind attempt stop = some (out, u))
    (hres : ∀ d, out.res ≠ some (.ok d)) :
    r.fds.SameOpen u.fds := by
  unfold acceptPoll at h
  cases attempt with
  | some file =>
    obtain ⟨fds, -, heq⟩ := Option.map_eq_some_iff.mp h
    cases heq
    exact absurd rfl (hres fd)
  | none =>
    dsimp only at h
    split at h
    · cases h
      exact .refl _
    · cases h
      exact .refl _

/-- A turn of an `accept` opens nothing, unless it returns the new descriptor. -/
theorem sameOpen_step {event : FdEvent} (haccept : event.isAccept = true)
    (h : r.exec event = some (out, u)) (hres : ∀ d, out.res ≠ some (.ok d)) :
    r.fds.SameOpen u.fds := by
  cases event with
  | accept tid kind socketFd isSocket attempt stop =>
    simp only [exec, Option.ite_none_left_eq_some] at h
    obtain ⟨-, h⟩ := h
    split at h
    · cases h
    · cases h
      exact .refl _
    split at h
    · cases h
      exact .refl _
    cases halloc : r.fds.allocFd with
    | mk index fds =>
      have hsame := sameOpen_allocFd halloc
      cases index with
      | none =>
        simp only [halloc] at h
        cases h
        exact hsame
      | some fd =>
        simp only [halloc] at h
        exact hsame.trans (sameOpen_acceptPoll h hres)
  | resume tid attempt stop =>
    simp only [exec] at h
    split at h
    · cases h
    · exact sameOpen_acceptPoll h hres
  | call tid call => cases haccept
  | socket tid file => cases haccept
  | epollCreate1 tid file => cases haccept
  | abort tid => cases haccept

/-- The turns of an `accept` after its first one, while nobody else takes a step; the answer is `none`
when the turns are used up. -/
def resumeAll (r : FdRun) (tid : Nat) : List (Option Nat × Bool) → Option (Option (Except Errno Nat) × FdRun)
  | [] => some (none, r)
  | (attempt, stop) :: turns =>
    match r.exec (.resume tid attempt stop) with
    | none => none
    | some (⟨some res, _⟩, r) => some (some res, r)
    | some (⟨none, _⟩, r) => r.resumeAll tid turns

/-- `sys_accept` and `sys_accept4`. -/
def sysAccept (r : FdRun) (tid : Nat) (kind : AcceptKind) (socketFd : Nat) (isSocket : Bool)
    (attempt : Option Nat) (stop : Bool) (turns : List (Option Nat × Bool)) :
    Option (Option (Except Errno Nat) × FdRun) :=
  match r.exec (.accept tid kind socketFd isSocket attempt stop) with
  | none => none
  | some (⟨some res, _⟩, r) => some (some res, r)
  | some (⟨none, _⟩, r) => r.resumeAll tid turns

/-- An `accept` that fails after any number of turns has opened nothing. -/
theorem sameOpen_resumeAll
    (h : r.resumeAll tid turns = some (some (.error e), u)) : r.fds.SameOpen u.fds := by
  induction turns generalizing r with
  | nil => cases h
  | cons turn turns ih =>
    obtain ⟨attempt, stop⟩ := turn
    unfold resumeAll at h
    split at h
    · cases h
    · rename_i hexec
      cases h
      exact sameOpen_step rfl hexec (fun d hd => nomatch hd)
    · rename_i hexec
      exact (sameOpen_step rfl hexec (fun d hd => nomatch hd)).trans (ih h)

theorem sameOpen_sysAccept {socketFd : Nat} {isSocket : Bool}
    (h : r.sysAccept tid kind socketFd isSocket attempt stop turns = some (some (.error e), u)) :
    r.fds.SameOpen u.fds := by
  unfold sysAccept at h
  split at h
  · cases h
  · rename_i hexec
    cases h
    exact sameOpen_step rfl hexec (fun d hd => nomatch hd)
  · rename_i hexec
    exact (sameOpen_step rfl hexec (fun d hd => nomatch hd)).trans (sameOpen_resumeAll h)

end FdRun

/-! ## The calls -/

inductive CreateCall where
  /-- with what `fd_open` answers -/
  | openat (file : Except Errno Nat)
  | dup (fd : Nat)
  | pipe2 (rx tx : Nat)
  | socketPair (socket rx tx : Nat)
  /-- `sys_accept` and `sys_accept4`, with what each turn finds -/
  | accept (kind : AcceptKind) (socketFd : Nat) (isSocket : Bool) (attempt : Option Nat) (stop : Bool)
      (turns : List (Option Nat × Bool))

namespace CreateCall

/-- The call, made with the table `s`, returns an error and leaves the table `t`. -/
def Fails (s t : FdState) : CreateCall → Prop
  | openat file => ∃ e, s.sysOpenat file = some (.error e, t)
  | dup fd => ∃ e, s.sysDup fd = some (.error e, t)
  | pipe2 rx tx => ∃ e stored, s.sysPipe2 rx tx = some (.error e, stored, t)
  | socketPair socket rx tx => ∃ (p q : PairSys) (e : Errno),
      p.fds = s ∧ q.fds = t ∧ p.sysSocketPair socket rx tx = some (.error e, q)
  | accept kind socketFd isSocket attempt stop turns => ∃ (r u : FdRun) (tid : Nat) (e : Errno),
      r.fds = s ∧ u.fds = t
        ∧ r.sysAccept tid kind socketFd isSocket attempt stop turns = some (some (.error e), u)

/-- Two descriptors are to be made. -/
def isTwo : CreateCall → Bool
  | pipe2 _ _ => true
  | socketPair _ _ _ => true
  | _ => false

variable {s t : FdState}

theorem sameOpen_openat {file : Except Errno Nat} (h : (openat file).Fails s t) : s.SameOpen t := by
  obtain ⟨e, h⟩ := h
  unfold FdState.sysOpenat at h
  cases file with
  | error e' =>
    cases h
    exact .refl s
  | ok file =>
    rcases s.install_cases .EMFILE file with herror | ⟨d, u, hok, -⟩
    · simp only [herror] at h
      cases h
      exact .refl s
    · simp only [hok] at h
      cases h

theorem sameOpen_dup {fd : Nat} (h : (dup fd).Fails s t) : s.SameOpen t := by
  obtain ⟨e, h⟩ := h
  unfold FdState.sysDup at h
  cases halloc : s.allocFd with
  | mk index u =>
    have hsame := FdState.sameOpen_allocFd halloc
    cases index with
    | none =>
      simp only [halloc] at h
      cases h
      exact hsame
    | some fdDst =>
      simp only [halloc, FdState.sysDup3] at h
      split at h
      · cases h
      · cases h
        exact hsame
      · obtain ⟨v, -, heq⟩ := Option.map_eq_some_iff.mp h
        cases heq

theorem pipe2_law_iff (rx tx : Nat) :
    (∀ t, (pipe2 rx tx).Fails s t → s.SameOpen t) ↔ ¬ s.OneFree := by
  unfold Fails FdState.sysPipe2
  rcases s.install_twice .ENFILE rx tx with ⟨hrx, hone⟩ | ⟨a, t, hrx, htx, hdiff, hone⟩
    | ⟨a, t, b, u, hrx, htx, hone⟩
  · simp only [hrx]
    refine iff_of_true ?_ hone
    rintro t ⟨e, stored, h⟩
    cases h
    exact .refl s
  · simp only [hrx, htx]
    refine iff_of_false ?_ (not_not.mpr hone)
    exact fun hlaw => hdiff (hlaw t ⟨_, _, rfl⟩)
  · simp only [hrx, htx]
    refine iff_of_true ?_ hone
    rintro t ⟨e, stored, h⟩
    cases h

theorem socketPair_law_iff (socket rx tx : Nat) :
    (∀ t, (socketPair socket rx tx).Fails s t → s.SameOpen t) ↔ ¬ s.OneFree := by
  rcases s.install_twice .ENFILE rx tx with ⟨hrx, hone⟩ | ⟨a, t, hrx, htx, hdiff, hone⟩
    | ⟨a, t, b, u, hrx, htx, hone⟩
  · refine iff_of_true ?_ hone
    rintro t ⟨p, q, e, rfl, rfl, h⟩
    simp only [PairSys.sysSocketPair, hrx] at h
    cases h
    exact .refl _
  · refine iff_of_false ?_ (not_not.mpr hone)
    intro hlaw
    have hfails : ∃ q : PairSys, q.fds = t
        ∧ PairSys.sysSocketPair ⟨s, fun _ => 0, fun _ => []⟩ socket rx tx = some (.error .ENFILE, q) := by
      simp only [PairSys.sysSocketPair, hrx, htx]
      exact ⟨_, rfl, rfl⟩
    obtain ⟨q, hq, hfails⟩ := hfails
    exact hdiff (hlaw t ⟨_, q, .ENFILE, rfl, hq, hfails⟩)
  · refine iff_of_true ?_ hone
    rintro t ⟨p, q, e, rfl, rfl, h⟩
    simp only [PairSys.sysSocketPair, hrx, htx] at h
    cases h

end CreateCall

/-- **Failing calls.** What is open stays what it was; `sys_pipe2` and `sys_socket_pair` leave the first of
their two descriptors open exactly if there was room for one. Other threads may run while an `accept`
waits: no turn of it that does not return `Ok` opens or closes anything. -/
theorem create_fails_iff (s : FdState) (call : CreateCall) :
    ((∀ t, call.Fails s t → s.SameOpen t) ↔ (call.isTwo = true → ¬ s.OneFree))
      ∧ ∀ (r u : FdRun) (event : FdEvent) (out : FdOut), event.isAccept = true →
        r.exec event = some (out, u) → (∀ d, out.res ≠ some (.ok d)) → r.fds.SameOpen u.fds := by
  refine ⟨?_, fun r u event out haccept hexec hres => FdRun.sameOpen_step haccept hexec hres⟩
  cases call with
  | openat file =>
    exact iff_of_true (fun t h => CreateCall.sameOpen_openat h) (fun h => nomatch h)
  | dup fd => exact iff_of_true (fun t h => CreateCall.sameOpen_dup h) (fun h => nomatch h)
  | pipe2 rx tx => exact (CreateCall.pipe2_law_iff rx tx).trans ⟨fun h _ => h, fun h => h rfl⟩
  | socketPair socket rx tx =>
    exact (CreateCall.socketPair_law_iff socket rx tx).trans ⟨fun h _ => h, fun h => h rfl⟩
  | accept kind socketFd isSocket attempt stop turns =>
    refine iff_of_true ?_ (fun h => nomatch h)
    rintro t ⟨r, u, tid, e, rfl, rfl, h⟩
    exact FdRun.sameOpen_sysAccept h

/-- With the limit at the three descriptors that are open, `sys_pipe2` fails and nothing has changed. -/
theorem create_fails_iff_full :
    (⟨[some 7, some 7, some 7], 3⟩ : FdState).sysPipe2 8 9
        = some (.error .ENFILE, [], ⟨[some 7, some 7, some 7], 3⟩)
      ∧ (⟨[some 7, some 7, some 7], 3⟩ : FdState).SameOpen ⟨[some 7, some 7, some 7], 3⟩ := by
  have hfails : (⟨[some 7, some 7, some 7], 3⟩ : FdState).sysPipe2 8 9
      = some (.error .ENFILE, [], ⟨[some 7, some 7, some 7], 3⟩) := by decide
  refine ⟨hfails, (create_fails_iff _ (.pipe2 8 9)).1.mpr (fun _ => ?_) _ ⟨_, _, hfails⟩⟩
  rintro ⟨i, ⟨hi, hfree⟩, -⟩
  have hi : i < 3 := hi
  interval_cases i
  · exact hfree 7 rfl
  · exact hfree 7 rfl
  · exact hfree 7 rfl

/-- With the limit lowered to 4 and three descriptors open, `sys_pipe2` and `sys_socket_pair` return
`ENFILE`, and their first file is open at descriptor 3. -/
theorem create_fails_leaks :
    (∃ t stored, (⟨[some 7, some 7, some 7, none], 4⟩ : FdState).sysPipe2 8 9
        = some (.error .ENFILE, stored, t) ∧ t.getFd 3 = some (some 8))
      ∧ ∃ t : PairSys, PairSys.sysSocketPair
          ⟨⟨[some 7, some 7, some 7, none], 4⟩, fun _ => 0, fun _ => []⟩ 1 8 9
        = some (.error .ENFILE, t) ∧ t.fds.getFd 3 = some (some 8) :=
  ⟨⟨_, _, rfl, rfl⟩, ⟨_, rfl, rfl⟩⟩

end MonkeyOS
