import MonkeyOS.Task.FdTable

/-!
# MonkeyOS — threads that share a descriptor table (`kernel/src/syscall/{fd,socket}.rs`)

Threads of a process are interleaved at their yield points. Most system calls that make a
descriptor find an index and fill it without a yield in between. `sys_accept` and `sys_accept4`
do not: they find the index first and then yield until a connection comes, while the index
stays free in the table and every other call may find it too.

* `FdState.Full` — a table as long as its limit: `alloc_fd` changes nothing, and `set_fd` at an
  index it has found stores the file;
* `FdState.Moved` — what a call does to the descriptors of a full table: some are given out, some
  end, the others stay (`FdState.Full.moved`);
* `FdEvent.kept_iff` — a step keeps every thread's descriptors exactly when it does not complete
  an `accept` whose index was given out meanwhile;
* `fdRun_kept_iff` — the same for every interleaving.

`live` is a history variable: the descriptors that were returned to some thread and not closed
or made the target of a `dup3` since, with the file that was installed for each.
-/

namespace MonkeyOS

open Lib

/-! ## Full tables

The table starts with `FILE_MAX` entries and the limit at `FILE_MAX`. -/

namespace FdState

structure Full (s : FdState) : Prop where
  limit : s.limit = fileMax
  length : s.table.length = fileMax

variable {s t : FdState} {i d f : Nat}

theorem Full.allocFd (hs : s.Full) {index : Option Nat} (h : s.allocFd = (index, t)) :
    t = s ∧ ∀ d, index = some d → d < fileMax ∧ s.Free d := by
  cases index with
  | none => exact ⟨allocFd_none h, fun d hd => nomatch hd⟩
  | some d =>
    have hfree := (allocFd_slot h).2.2.2
    obtain ⟨hlimit, -, ⟨-, rfl⟩ | ⟨rfl, -⟩⟩ := allocFd_some h
    · refine ⟨rfl, fun d' hd => ?_⟩
      cases hd
      exact ⟨hs.limit ▸ hlimit, hfree⟩
    · -- there is no room between the table and the limit
      rw [hs.limit, hs.length] at hlimit
      exact absurd hlimit (Nat.lt_irrefl _)

theorem Full.setFd (hs : s.Full) (h : s.setFd i f = some t) :
    t.Full ∧ (i < fileMax → t.getFd i = some (some f)) ∧ ∀ j, j ≠ i → t.getFd j = s.getFd j := by
  rcases Nat.lt_or_ge i s.limit with hlimit | hlimit
  · have hlen : i < s.table.length := by
      rw [hs.length, ← hs.limit]
      exact hlimit
    rw [setFd_eq hlimit hlen] at h
    cases h
    refine ⟨⟨hs.limit, ?_⟩, fun _ => getFd_set hlimit hlen, fun j hj => getFd_set_of_ne hj⟩
    exact List.length_set.trans hs.length
  · unfold FdState.setFd at h
    rw [if_pos hlimit] at h
    cases h
    refine ⟨hs, fun hi => ?_, fun j _ => rfl⟩
    rw [hs.limit] at hlimit
    exact absurd hi (Nat.not_lt_of_le hlimit)

theorem Full.clearFd (hs : s.Full) :
    (s.clearFd i).Full ∧ ∀ j, j ≠ i → (s.clearFd i).getFd j = s.getFd j := by
  unfold FdState.clearFd
  split
  · exact ⟨hs, fun j _ => rfl⟩
  refine ⟨⟨hs.limit, List.length_set.trans hs.length⟩, fun j hj => ?_⟩
  unfold getFd
  rw [List.getElem?_set_ne (Ne.symm hj)]

/-- An index found and filled without a yield was free. -/
theorem Full.install (hs : s.Full) {e : Errno} {res : Except Errno Nat}
    (h : s.install e f = some (res, t)) :
    t.Full ∧ ((res = .error e ∧ t = s) ∨ ∃ d, res = .ok d ∧ d < fileMax ∧ s.Free d
      ∧ t.getFd d = some (some f) ∧ ∀ j, j ≠ d → t.getFd j = s.getFd j) := by
  unfold FdState.install at h
  cases halloc : s.allocFd with
  | mk index u =>
    obtain ⟨rfl, hfound⟩ := hs.allocFd halloc
    rw [halloc] at h
    cases index with
    | none =>
      cases h
      exact ⟨hs, .inl ⟨rfl, rfl⟩⟩
    | some d =>
      obtain ⟨hd, hfree⟩ := hfound d rfl
      obtain ⟨v, hset, hpair⟩ := Option.map_eq_some_iff.mp h
      cases hpair
      obtain ⟨ht, hget, hrest⟩ := hs.setFd hset
      exact ⟨ht, .inr ⟨d, rfl, hd, hfree, hget hd, hrest⟩⟩

end FdState

/-! ## The threads -/

inductive AcceptKind where
  | accept
  | accept4
  deriving DecidableEq

/-- What ends the wait without a connection: a pending signal for `sys_accept`, `O_NONBLOCK` for
`sys_accept4`. -/
def AcceptKind.stopped : AcceptKind → Errno
  | .accept => .EINTR
  | .accept4 => .EAGAIN

inductive FdEvent where
  /-- `sys_openat`, `sys_dup`, `sys_pipe2`, `sys_dup3`, `sys_close` -/
  | call (tid : Nat) (call : FdCall)
  /-- with the new socket, if the type is known -/
  | socket (tid : Nat) (file : Option Nat)
  | epollCreate1 (tid : Nat) (file : Nat)
  /-- `sys_accept` or `sys_accept4` up to its first yield or its end: whether the descriptor is a
  socket, the connection the first attempt finds, and whether the wait is to end without one -/
  | accept (tid : Nat) (kind : AcceptKind) (socketFd : Nat) (isSocket : Bool)
      (attempt : Option Nat) (stop : Bool)
  /-- its next turn after a yield -/
  | resume (tid : Nat) (attempt : Option Nat) (stop : Bool)
  /-- the thread goes away while it waits -/
  | abort (tid : Nat)

/-- The result of a call (`none` while it waits), and the descriptors it gives to its thread with
their files. -/
structure FdOut where
  res : Option (Except Errno Nat)
  given : List (Nat × Nat)

structure FdRun where
  fds : FdState
  /-- the index each waiting `accept` has found -/
  accepts : Nat → Option (Nat × AcceptKind)
  live : Nat → Option Nat

/-- The descriptors a call gives out. -/
def FdCall.given (s : FdState) (res : Except Errno Nat) (stored : List Nat) :
    FdCall → List (Nat × Nat)
  | .openat (.ok file) =>
    match res with
    | .ok d => [(d, file)]
    | .error _ => []
  | .dup fd =>
    match res, s.getFd fd with
    | .ok d, some (some file) => [(d, file)]
    | _, _ => []
  | .pipe2 rx tx =>
    match res with
    | .ok _ => stored.zip [rx, tx]
    | .error _ => []
  | _ => []

/-- The descriptors a call takes from whoever holds them. -/
def FdCall.ended (res : Except Errno Nat) : FdCall → List Nat
  | .close fd => [fd]
  | .dup3 _ fdDst =>
    match res with
    | .ok _ => [fdDst]
    | .error _ => []
  | _ => []

/-- `sys_prlimit64` is not among the calls of these runs. -/
def FdCall.listed : FdCall → Bool
  | .prlimit64 _ _ => false
  | _ => true

namespace FdRun

/-- A process whose table has any entries, before its threads make a call. -/
def start (entries : Nat → Option Nat) : FdRun where
  fds := ⟨(List.range FdState.fileMax).map entries, FdState.fileMax⟩
  accepts := fun _ => none
  live := fun _ => none

variable (r : FdRun)

/-- The table after a step, and who holds what. -/
def settle (fds : FdState) (given : List (Nat × Nat)) (ended : List Nat) : FdRun where
  fds := fds
  accepts := r.accepts
  live := fun d => if d ∈ ended then none else (given.lookup d).or (r.live d)

def setAccept (tid : Nat) (accept : Option (Nat × AcceptKind)) : FdRun :=
  { r with accepts := Function.update r.accepts tid accept }

/-- One turn of the loop of `sys_accept` and `sys_accept4`, with the index found before it. -/
def acceptPoll (tid fd : Nat) (kind : AcceptKind) (attempt : Option Nat) (stop : Bool) :
    Option (FdOut × FdRun) :=
  match attempt with
  | some file =>
    (r.fds.setFd fd file).map (fun fds =>
      (⟨some (.ok fd), [(fd, file)]⟩, (r.settle fds [(fd, file)] []).setAccept tid none))
  | none =>
    if stop then some (⟨some (.error kind.stopped), []⟩, r.setAccept tid none)
    else some (⟨none, []⟩, r.setAccept tid (some (fd, kind)))

/-- One step; `none` is a panic, or a call of a thread that waits in another. -/
def exec : FdEvent → Option (FdOut × FdRun)
  | .call tid call =>
    if (r.accepts tid).isSome ∨ !call.listed then none
    else (r.fds.exec call).map (fun (res, stored, fds) =>
      (⟨some res, call.given r.fds res stored⟩,
        r.settle fds (call.given r.fds res stored) (call.ended res)))
  | .socket tid file =>
    if (r.accepts tid).isSome then none
    else
      match r.fds.allocFd with
      | (none, fds) => some (⟨some (.error .EMFILE), []⟩, r.settle fds [] [])
      | (some fd, fds) =>
        match file with
        | none => some (⟨some (.error .EINVAL), []⟩, r.settle fds [] [])
        | some file =>
          (fds.setFd fd file).map (fun fds =>
            (⟨some (.ok fd), [(fd, file)]⟩, r.settle fds [(fd, file)] []))
  | .epollCreate1 tid file =>
    if (r.accepts tid).isSome then none
    else (r.fds.install .EMFILE file).map (fun (res, fds) =>
      match res with
      | .ok fd => (⟨some (.ok fd), [(fd, file)]⟩, r.settle fds [(fd, file)] [])
      | .error e => (⟨some (.error e), []⟩, r.settle fds [] []))
  | .accept tid kind socketFd isSocket attempt stop =>
    if (r.accepts tid).isSome then none
    else
      match r.fds.getFd socketFd with
      | none => none
      | some none => some (⟨some (.error .EINVAL), []⟩, r)
      | some (some _) =>
        if !isSocket then some (⟨some (.error .EINVAL), []⟩, r)
        else
          match r.fds.allocFd with
          | (none, fds) => some (⟨some (.error .EMFILE), []⟩, r.settle fds [] [])
          | (some fd, fds) => (r.settle fds [] []).acceptPoll tid fd kind attempt stop
  | .resume tid attempt stop =>
    match r.accepts tid with
    | none => none
    | some (fd, kind) => r.acceptPoll tid fd kind attempt stop
  | .abort tid => some (⟨none, []⟩, r.setAccept tid none)

end FdRun

def FdRunStep (r : FdRun) (event : FdEvent) (u : FdRun) : Prop :=
  ∃ out, r.exec event = some (out, u)

/-- The step keeps what threads hold: every held descriptor is its file afterwards, and what the
step gives out nobody held. -/
def FdEvent.Kept (r : FdRun) (event : FdEvent) : Prop :=
  ∀ out u, r.exec event = some (out, u) →
    (∀ d f, u.live d = some f → u.fds.getFd d = some (some f))
      ∧ ∀ x ∈ out.given, r.live x.1 = none

/-- An `accept` that completes after a yield: nobody holds the index it had found. -/
def FdEvent.Unclaimed (r : FdRun) : FdEvent → Prop
  | .resume tid (some _) _ => ∀ fd kind, r.accepts tid = some (fd, kind) → r.live fd = none
  | _ => True

/-! ## What a step does to the table -/

/-- From `s` to `t` the descriptors `given` were made, at free indices, and all others kept but
those `ended`. -/
structure FdState.Moved (s t : FdState) (given : List (Nat × Nat)) (ended : List Nat) : Prop where
  full : t.Full
  keeps : ∀ i f, i ∉ ended → (∀ x ∈ given, x.1 ≠ i) → s.getFd i = some (some f) →
    t.getFd i = some (some f)
  fresh : ∀ x ∈ given, ∀ f, s.getFd x.1 ≠ some (some f)
  holds : ∀ x ∈ given, t.getFd x.1 = some (some x.2)

namespace FdState

variable {s t u : FdState} {d f : Nat}

theorem Moved.refl (hs : s.Full) : s.Moved s [] [] :=
  ⟨hs, fun _ _ _ _ h => h, fun _ hx => (nomatch hx), fun _ hx => (nomatch hx)⟩

theorem Moved.one (ht : t.Full) (hfree : s.Free d) (hget : t.getFd d = some (some f))
    (hrest : ∀ j, j ≠ d → t.getFd j = s.getFd j) : s.Moved t [(d, f)] [] := by
  refine ⟨ht, fun i f' _ hi h => ?_, fun x hx f' h => ?_, fun x hx => ?_⟩
  · rw [hrest i (Ne.symm (hi (d, f) (List.mem_singleton_self _)))]
    exact h
  · cases List.mem_singleton.mp hx
    exact hfree f' (lt_of_getFd_eq_some h).2
  · cases List.mem_singleton.mp hx
    exact hget

/-- Only descriptor `d` changes, and it is taken from its holder. -/
theorem Moved.ended (ht : t.Full) (hrest : ∀ j, j ≠ d → t.getFd j = s.getFd j) :
    s.Moved t [] [d] := by
  refine ⟨ht, fun i f' hi _ h => ?_, fun _ hx => (nomatch hx), fun _ hx => (nomatch hx)⟩
  rw [hrest i (List.mem_singleton.not.mp hi)]
  exact h

/-- Two moves one after the other give out the descriptors of both. -/
theorem Moved.trans {given given' : List (Nat × Nat)} (h : s.Moved t given [])
    (h' : t.Moved u given' []) : s.Moved u (given ++ given') [] := by
  refine ⟨h'.full, fun i f _ hi hs => ?_, fun x hx f hs => ?_, fun x hx => ?_⟩
  · apply h'.keeps i f List.not_mem_nil (fun x hx => hi x (List.mem_append_right _ hx))
    exact h.keeps i f List.not_mem_nil (fun x hx => hi x (List.mem_append_left _ hx)) hs
  · rcases List.mem_append.mp hx with hx | hx
    · exact h.fresh x hx f hs
    · -- a file that was there before the first move is still there before the second
      apply h'.fresh x hx f
      apply h.keeps _ f List.not_mem_nil _ hs
      intro y hy hkey
      exact h.fresh y hy f (hkey ▸ hs)
  · rcases List.mem_append.mp hx with hx | hx
    · apply h'.keeps _ _ List.not_mem_nil _ (h.holds x hx)
      intro y hy hkey
      exact h'.fresh y hy x.2 (hkey ▸ h.holds x hx)
    · exact h'.holds x hx

variable {fdSrc fdDst : Nat} {res : Except Errno Nat} {stored : List Nat}

theorem sysDup3_cases (h : s.sysDup3 fdSrc fdDst = some (res, t)) :
    (∃ e, res = .error e ∧ t = s)
      ∨ ∃ f, res = .ok fdDst ∧ s.getFd fdSrc = some (some f) ∧ s.setFd fdDst f = some t := by
  unfold FdState.sysDup3 at h
  cases hsrc : s.getFd fdSrc with
  | none =>
    rw [hsrc] at h
    cases h
  | some entry =>
    rw [hsrc] at h
    cases entry with
    | none =>
      cases h
      exact .inl ⟨_, rfl, rfl⟩
    | some f =>
      obtain ⟨v, hset, hpair⟩ := Option.map_eq_some_iff.mp h
      cases hpair
      exact .inr ⟨f, rfl, rfl, hset⟩

/-- `alloc_fd` and `set_fd` without a yield, as a move. -/
theorem Full.moved_install (hs : s.Full) {e : Errno} (h : s.install e f = some (res, t)) :
    (res = .error e ∧ s.Moved t [] []) ∨ ∃ d, res = .ok d ∧ d < fileMax ∧ s.Moved t [(d, f)] [] := by
  obtain ⟨ht, ⟨rfl, rfl⟩ | ⟨d, rfl, hd, hfree, hget, hrest⟩⟩ := hs.install h
  · exact .inl ⟨rfl, .refl hs⟩
  · exact .inr ⟨d, rfl, hd, .one ht hfree hget hrest⟩

theorem Full.moved_openat (hs : s.Full) {file : Except Errno Nat}
    (h : s.exec (.openat file) = some (res, stored, t)) :
    s.Moved t ((FdCall.openat file).given s res stored) [] := by
  obtain ⟨⟨res', t'⟩, hopen, heq⟩ := Option.map_eq_some_iff.mp h
  cases heq
  cases file with
  | error e =>
    cases hopen
    exact .refl hs
  | ok f =>
    rcases hs.moved_install hopen with ⟨rfl, hmoved⟩ | ⟨d, rfl, -, hmoved⟩
    · exact hmoved
    · exact hmoved

theorem Full.moved_dup (hs : s.Full) {fd : Nat} (h : s.exec (.dup fd) = some (res, stored, t)) :
    s.Moved t ((FdCall.dup fd).given s res stored) [] := by
  obtain ⟨⟨res', t'⟩, hdup, heq⟩ := Option.map_eq_some_iff.mp h
  cases heq
  unfold FdState.sysDup at hdup
  cases halloc : s.allocFd with
  | mk index u =>
    obtain ⟨rfl, hfound⟩ := hs.allocFd halloc
    rw [halloc] at hdup
    cases index with
    | none =>
      cases hdup
      exact .refl hs
    | some d =>
      obtain ⟨hd, hfree⟩ := hfound d rfl
      rcases sysDup3_cases hdup with ⟨e, rfl, rfl⟩ | ⟨f, rfl, hsrc, hset⟩
      · exact .refl hs
      · obtain ⟨ht, hget, hrest⟩ := hs.setFd hset
        simp only [FdCall.given, hsrc]
        exact .one ht hfree (hget hd) hrest

theorem Full.moved_dup3 (hs : s.Full) (h : s.exec (.dup3 fdSrc fdDst) = some (res, stored, t)) :
    s.Moved t [] ((FdCall.dup3 fdSrc fdDst).ended res) := by
  obtain ⟨⟨res', t'⟩, hdup, heq⟩ := Option.map_eq_some_iff.mp h
  cases heq
  rcases sysDup3_cases hdup with ⟨e, rfl, rfl⟩ | ⟨f, rfl, -, hset⟩
  · exact .refl hs
  · obtain ⟨ht, -, hrest⟩ := hs.setFd hset
    exact .ended ht hrest

theorem Full.moved_pipe2 (hs : s.Full) {rx tx : Nat}
    (h : s.exec (.pipe2 rx tx) = some (res, stored, t)) :
    s.Moved t ((FdCall.pipe2 rx tx).given s res stored) [] := by
  have hword : fileMax < 2 ^ 32 := by decide
  unfold FdState.exec FdState.sysPipe2 at h
  simp only at h
  split at h
  · cases h
  · rename_i e u hrx
    cases h
    rcases hs.moved_install hrx with ⟨-, hmoved⟩ | ⟨d, hd, -⟩
    · exact hmoved
    · cases hd
  · rename_i a u hrx
    rcases hs.moved_install hrx with ⟨hd, -⟩ | ⟨d, hd, hlt, hmoved⟩
    · cases hd
    cases hd
    split at h
    · cases h
    · rename_i e v htx
      cases h
      -- the receiver's descriptor stays in the table, but no thread is told of it
      rcases hmoved.full.moved_install htx with ⟨-, hmoved'⟩ | ⟨d, hd, -⟩
      · have hboth := hmoved.trans hmoved'
        refine ⟨hboth.full, fun i f hi _ hget => ?_, fun _ hx => (nomatch hx),
          fun _ hx => (nomatch hx)⟩
        apply hboth.keeps i f hi _ hget
        rintro x hx rfl
        exact hboth.fresh x hx f hget
      · cases hd
    · rename_i b v htx
      cases h
      rcases hmoved.full.moved_install htx with ⟨hd, -⟩ | ⟨d, hd, hlt', hmoved'⟩
      · cases hd
      cases hd
      show s.Moved t [(a % 2 ^ 32, rx), (b % 2 ^ 32, tx)] []
      rw [Nat.mod_eq_of_lt (Nat.lt_trans hlt hword), Nat.mod_eq_of_lt (Nat.lt_trans hlt' hword)]
      exact hmoved.trans hmoved'

theorem Full.moved (hs : s.Full) {call : FdCall} (hlisted : call.listed = true)
    (h : s.exec call = some (res, stored, t)) :
    s.Moved t (call.given s res stored) (call.ended res) := by
  cases call with
  | openat file => exact hs.moved_openat h
  | dup fd => exact hs.moved_dup h
  | dup3 fdSrc fdDst => exact hs.moved_dup3 h
  | close fd =>
    cases h
    exact .ended hs.clearFd.1 hs.clearFd.2
  | pipe2 rx tx => exact hs.moved_pipe2 h
  | prlimit64 newMax old => cases hlisted

end FdState

/-! ## What threads hold -/

namespace FdRun

structure Inv (r : FdRun) : Prop where
  full : r.fds.Full
  refers : ∀ d f, r.live d = some f → r.fds.getFd d = some (some f)
  found : ∀ tid fd kind, r.accepts tid = some (fd, kind) → fd < FdState.fileMax

variable {r u : FdRun} {t : FdState} {given : List (Nat × Nat)} {ended : List Nat}

theorem mem_of_lookup {d f : Nat} (h : given.lookup d = some f) :
    ∃ x ∈ given, x.1 = d ∧ x.2 = f := by
  obtain ⟨l, l', rfl, -⟩ := List.lookup_eq_some_iff.mp h
  exact ⟨(d, f), by simp, rfl, rfl⟩

theorem Inv.setAccept (hr : r.Inv) (tid : Nat) {accept : Option (Nat × AcceptKind)}
    (haccept : ∀ fd kind, accept = some (fd, kind) → fd < FdState.fileMax) :
    (r.setAccept tid accept).Inv := by
  refine ⟨hr.full, hr.refers, fun tid' fd kind h => ?_⟩
  by_cases htid : tid' = tid
  · subst htid
    rw [show (r.setAccept tid' accept).accepts tid' = accept from Function.update_self ..] at h
    exact haccept fd kind h
  · rw [show (r.setAccept tid accept).accepts tid' = r.accepts tid' from
      Function.update_of_ne htid ..] at h
    exact hr.found tid' fd kind h

/-- Held descriptors after a step, when the table still has those that were held before and has
those that are given out. -/
theorem Inv.settle (hr : r.Inv) (ht : t.Full)
    (hkeeps : ∀ i f, i ∉ ended → (∀ x ∈ given, x.1 ≠ i) → r.live i = some f →
      t.getFd i = some (some f))
    (hholds : ∀ x ∈ given, t.getFd x.1 = some (some x.2)) : (r.settle t given ended).Inv := by
  refine ⟨ht, fun d f h => ?_, hr.found⟩
  change (if d ∈ ended then none else (given.lookup d).or (r.live d)) = some f at h
  rw [Option.ite_none_left_eq_some] at h
  obtain ⟨hended, h⟩ := h
  rcases Option.or_eq_some_iff.mp h with hgiven | ⟨hnot, hlive⟩
  · obtain ⟨x, hx, hd, rfl⟩ := mem_of_lookup hgiven
    exact hd ▸ hholds x hx
  · apply hkeeps d f hended _ hlive
    rintro x hx rfl
    simpa using List.lookup_eq_none_iff.mp hnot x hx

/-- A move of the table: what it gives out nobody held. -/
theorem Inv.moved (hr : r.Inv) (hm : r.fds.Moved t given ended) :
    (r.settle t given ended).Inv ∧ ∀ x ∈ given, r.live x.1 = none := by
  refine ⟨hr.settle hm.full (fun i f hi hx h => hm.keeps i f hi hx (hr.refers i f h)) hm.holds, ?_⟩
  intro x hx
  cases hlive : r.live x.1 with
  | none => rfl
  | some f => exact absurd (hr.refers _ _ hlive) (hm.fresh x hx f)

theorem Inv.live_of_free (hr : r.Inv) {d : Nat} (hfree : r.fds.Free d) : r.live d = none := by
  cases hlive : r.live d with
  | none => rfl
  | some f => exact absurd (FdState.lt_of_getFd_eq_some (hr.refers _ _ hlive)).2 (hfree f)

variable {out : FdOut} {tid fd : Nat} {kind : AcceptKind} {attempt : Option Nat} {stop : Bool}

/-- One turn of an `accept`, on an index nobody holds if it is to be filled. -/
theorem Inv.acceptPoll (hr : r.Inv) (hfd : fd < FdState.fileMax)
    (hheld : attempt ≠ none → r.live fd = none)
    (h : r.acceptPoll tid fd kind attempt stop = some (out, u)) :
    u.Inv ∧ ∀ x ∈ out.given, r.live x.1 = none := by
  cases attempt with
  | none =>
    unfold FdRun.acceptPoll at h
    simp only at h
    split at h
    · cases h
      exact ⟨hr.setAccept tid (fun _ _ h => (nomatch h)), fun _ hx => (nomatch hx)⟩
    cases h
    refine ⟨hr.setAccept tid (fun fd' kind' h => ?_), fun _ hx => (nomatch hx)⟩
    cases h
    exact hfd
  | some file =>
    obtain ⟨t, hset, hpair⟩ := Option.map_eq_some_iff.mp h
    cases hpair
    obtain ⟨ht, hget, hrest⟩ := hr.full.setFd hset
    constructor
    · refine Inv.setAccept (hr.settle ht (fun i f _ hi hlive => ?_) (fun x hx => ?_)) tid
        (fun _ _ h => (nomatch h))
      · rw [hrest i (Ne.symm (hi (fd, file) (List.mem_singleton_self _)))]
        exact hr.refers i f hlive
      · cases List.mem_singleton.mp hx
        exact hget hfd
    · intro x hx
      cases List.mem_singleton.mp hx
      exact hheld (by simp)

/-- `sys_socket` fills the index it has found, or gives it up. -/
theorem Inv.socket (hr : r.Inv) {file : Option Nat}
    (h : r.exec (.socket tid file) = some (out, u)) :
    u.Inv ∧ ∀ x ∈ out.given, r.live x.1 = none := by
  simp only [FdRun.exec, Option.ite_none_left_eq_some] at h
  obtain ⟨-, h⟩ := h
  cases halloc : r.fds.allocFd with
  | mk index t =>
    obtain ⟨rfl, hfound⟩ := hr.full.allocFd halloc
    rw [halloc] at h
    cases index with
    | none =>
      cases h
      exact hr.moved (.refl hr.full)
    | some d =>
      obtain ⟨hd, hfree⟩ := hfound d rfl
      cases file with
      | none =>
        cases h
        exact hr.moved (.refl hr.full)
      | some file =>
        obtain ⟨t, hset, hpair⟩ := Option.map_eq_some_iff.mp h
        cases hpair
        obtain ⟨ht, hget, hrest⟩ := hr.full.setFd hset
        exact hr.moved (.one ht hfree (hget hd) hrest)

/-- The first turn of an `accept` is on an index it has just found. -/
theorem Inv.accept (hr : r.Inv) {socketFd : Nat} {isSocket : Bool}
    (h : r.exec (.accept tid kind socketFd isSocket attempt stop) = some (out, u)) :
    u.Inv ∧ ∀ x ∈ out.given, r.live x.1 = none := by
  simp only [FdRun.exec, Option.ite_none_left_eq_some] at h
  obtain ⟨-, h⟩ := h
  have hrefused : ∀ e, (⟨some (.error e), []⟩, r) = (out, u) →
      u.Inv ∧ ∀ x ∈ out.given, r.live x.1 = none := by
    intro e hpair
    cases hpair
    exact ⟨hr, fun _ hx => (nomatch hx)⟩
  split at h
  · cases h
  · exact hrefused .EINVAL (Option.some.inj h)
  split at h
  · exact hrefused .EINVAL (Option.some.inj h)
  cases halloc : r.fds.allocFd with
  | mk index t =>
    obtain ⟨rfl, hfound⟩ := hr.full.allocFd halloc
    rw [halloc] at h
    cases index with
    | none => exact hrefused .EMFILE (Option.some.inj h)
    | some d =>
      obtain ⟨hd, hfree⟩ := hfound d rfl
      -- no yield since `alloc_fd`: the index is still free
      exact hr.acceptPoll hd (fun _ => hr.live_of_free hfree) h

/-- **One step.** Under the invariant every step but an `accept` that completes on a held index
keeps the invariant, and gives out what nobody held. -/
theorem Inv.exec (hr : r.Inv) {event : FdEvent} (hclaim : event.Unclaimed r)
    (h : r.exec event = some (out, u)) : u.Inv ∧ ∀ x ∈ out.given, r.live x.1 = none := by
  cases event with
  | call tid call =>
    simp only [FdRun.exec, Option.ite_none_left_eq_some, not_or] at h
    obtain ⟨⟨-, hlisted⟩, h⟩ := h
    obtain ⟨⟨res, stored, t⟩, hexec, hpair⟩ := Option.map_eq_some_iff.mp h
    cases hpair
    exact hr.moved (hr.full.moved (by simpa using hlisted) hexec)
  | socket tid file => exact hr.socket h
  | epollCreate1 tid file =>
    simp only [FdRun.exec, Option.ite_none_left_eq_some] at h
    obtain ⟨-, h⟩ := h
    obtain ⟨⟨res, t⟩, hinstall, hpair⟩ := Option.map_eq_some_iff.mp h
    rcases hr.full.moved_install hinstall with ⟨rfl, hmoved⟩ | ⟨d, rfl, -, hmoved⟩
    · cases hpair
      exact hr.moved hmoved
    · cases hpair
      exact hr.moved hmoved
  | accept tid kind socketFd isSocket attempt stop => exact hr.accept h
  | resume tid attempt stop =>
    unfold FdRun.exec at h
    cases haccept : r.accepts tid with
    | none =>
      simp only [haccept] at h
      cases h
    | some waiting =>
      simp only [haccept] at h
      apply hr.acceptPoll (hr.found _ _ _ haccept) _ h
      -- the index was found before the yield; only the condition says that it is nobody's
      intro hattempt
      cases attempt with
      | none => exact absurd rfl hattempt
      | some file => exact hclaim _ _ haccept
  | abort tid =>
    cases h
    exact ⟨hr.setAccept tid (fun _ _ h => (nomatch h)), fun _ hx => (nomatch hx)⟩

end FdRun

/-- The condition is also needed: an `accept` that completes gives out its index. -/
theorem FdEvent.kept_iff {r : FdRun} (hr : r.Inv) (event : FdEvent) :
    event.Kept r ↔ event.Unclaimed r := by
  constructor
  · intro hkept
    cases event with
    | resume tid attempt stop =>
      cases attempt with
      | none => exact trivial
      | some file =>
        intro fd kind haccept
        have hfd := hr.found tid fd kind haccept
        have hset := FdState.setFd_eq (f := file) (hr.full.limit ▸ hfd) (hr.full.length ▸ hfd)
        have hexec : r.exec (.resume tid (some file) stop) = some (⟨some (.ok fd), [(fd, file)]⟩,
            (r.settle { r.fds with table := r.fds.table.set fd (some file) } [(fd, file)] []).setAccept
              tid none) := by
          simp only [FdRun.exec, haccept, FdRun.acceptPoll, hset, Option.map_some]
        exact (hkept _ _ hexec).2 (fd, file) (List.mem_singleton_self _)
    | _ => exact trivial
  · intro hclaim out u hexec
    obtain ⟨hu, hgiven⟩ := hr.exec hclaim hexec
    exact ⟨hu.refers, hgiven⟩

theorem FdRun.inv_start (entries : Nat → Option Nat) : (FdRun.start entries).Inv where
  full := ⟨rfl, by simp [FdRun.start]⟩
  refers := fun _ _ h => nomatch h
  found := fun _ _ _ h => nomatch h

/-- **Threads and their descriptors.** Over every interleaving of the calls of a process's threads,
from any entries of a table of 255 slots under the default limit: every step keeps what threads
hold exactly when no `accept` completes, after a yield, on an index that a thread holds by then. -/
theorem fdRun_kept_iff (entries : Nat → Option Nat) (events : List FdEvent) :
    Throughout FdRunStep (fun r event => event.Kept r) (FdRun.start entries) events
      ↔ Throughout FdRunStep (fun r event => event.Unclaimed r) (FdRun.start entries) events :=
  throughout_iff (I := FdRun.Inv) (fun _ event hr => FdEvent.kept_iff hr event)
    (fun _ _ _ hr hclaim ⟨_, hexec⟩ => (hr.exec hclaim hexec).1) (FdRun.inv_start entries) events

/-- Descriptors 0 to 3 are open, 3 being a listening socket. -/
def listening : FdRun := .start (fun d => if d < 4 then some d else none)

set_option maxRecDepth 4096 in
/-- Thread 1 waits in `accept` with index 4; thread 2 opens file 50 and is given 4 as well; the
connection of thread 1 then replaces it. -/
theorem fdRun_accept_overwrites :
    ∃ r₁ r₂ r₃ : FdRun,
      listening.exec (.accept 1 .accept 3 true none false) = some (⟨none, []⟩, r₁)
      ∧ r₁.exec (.call 2 (.openat (.ok 50))) = some (⟨some (.ok 4), [(4, 50)]⟩, r₂)
      ∧ r₂.exec (.resume 1 (some 60) false) = some (⟨some (.ok 4), [(4, 60)]⟩, r₃)
      ∧ r₂.live 4 = some 50 ∧ r₃.fds.getFd 4 = some (some 60) :=
  ⟨_, _, _, rfl, rfl, rfl, rfl, rfl⟩

end MonkeyOS
