import MonkeyOS.Basic
import MonkeyOS.Lib.First
import MonkeyOS.Lib.Run
import Mathlib.Logic.Function.Basic

/-!
# MonkeyOS — futexes (`sys_futex`, `WaitFutex`, `futex_wake`, `futex_requeue`)

The futex table of a process maps an address to the queue of task ids that wait there. A WAIT
puts its task into a queue and is then polled until the task is out of every queue again
(`WaitFutex::poll`), until a signal is pending, or until its timeout. The entry goes in three
ways: `futex_wake` and `futex_requeue` drain the front of a queue, and the poll that sees a
signal removes it. The poll that sees the timeout leaves it there.

What a table holds is `FutexTable.ids`, the ids of all queues; one permutation lemma says what
each operation does to it.

The kernel runs on one hart (`MultiCore::boot_all` is commented out), so a poll is atomic. A
task inside a WAIT runs no handler: `future::or` polls the WAIT first, and a pending signal ends
it there.
-/

namespace MonkeyOS

open Lib

/-- `BTreeMap<usize, Vec<usize>>`, in the order of its keys. -/
abbrev FutexTable := List (Nat × List Nat)

namespace FutexTable

def get (table : FutexTable) (uaddr : Nat) : Option (List Nat) :=
  (table.find? (·.1 == uaddr)).map Prod.snd

def insert (uaddr : Nat) (que : List Nat) : FutexTable → FutexTable
  | [] => [(uaddr, que)]
  | e :: table =>
    if uaddr < e.1 then (uaddr, que) :: e :: table
    else if uaddr = e.1 then (uaddr, que) :: table
    else e :: insert uaddr que table

/-- `get_mut(&uaddr).map(|x| f(x))`; `none` when there is no such queue. -/
def modify (table : FutexTable) (uaddr : Nat) (f : List Nat → List Nat) : Option FutexTable :=
  updateFirst (·.1 == uaddr) (fun e => (e.1, f e.2)) table

/-- The entry of a WAIT. -/
def push (table : FutexTable) (uaddr tid : Nat) : FutexTable :=
  (table.modify uaddr (· ++ [tid])).getD (table.insert uaddr [tid])

/-- `get_mut(&uaddr).map(|x| x.drain(..n))`: the rest and what was drained, or the panic of
`drain` when the queue is shorter. -/
def drain (table : FutexTable) (uaddr n : Nat) : Option (FutexTable × Option (List Nat)) :=
  match table.get uaddr with
  | none => some (table, none)
  | some que =>
    if n ≤ que.length then some ((table.modify uaddr (·.drop n)).getD table, some (que.take n))
    else none

/-- `get_mut(&uaddr).unwrap().extend(reque)`, with an empty queue put in first if need be. -/
def extend (table : FutexTable) (uaddr : Nat) (reque : List Nat) : FutexTable :=
  let table := if (table.get uaddr).isSome then table else table.insert uaddr []
  (table.modify uaddr (· ++ reque)).getD table

/-- `values_mut().find(|x| x.contains(&tid)).map(|x| x.retain(|x| *x != tid))` -/
def retain (table : FutexTable) (tid : Nat) : FutexTable :=
  (updateFirst (·.2.contains tid) (fun e => (e.1, e.2.filter (· != tid))) table).getD table

/-- The ids in all queues. -/
def ids (table : FutexTable) : List Nat := table.flatMap Prod.snd

end FutexTable

def inFutex (table : FutexTable) (tid : Nat) : Bool :=
  (table.find? (·.2.contains tid)).isSome

def futexWake (table : FutexTable) (uaddr wakeCount : Nat) : FutexTable × Nat :=
  let queSize := ((table.get uaddr).map List.length).getD 0
  if queSize = 0 then (table, 0)
  else
    let (table, que) := (table.drain uaddr (min wakeCount queSize)).getD (table, none)
    (table, (que.map List.length).getD 0)

/-- `futex_requeue`; `none` when `drain` panics. -/
def futexRequeue (table : FutexTable) (uaddr wakeCount uaddr2 requeCount : Nat) :
    Option (FutexTable × Nat) := do
  let (table, woken) ← table.drain uaddr wakeCount
  let (table, reque) ← table.drain uaddr requeCount
  let wakedSize := (woken.map List.length).getD 0
  match reque with
  | some reque => some (table.extend uaddr2 reque, wakedSize)
  | none => some (table, wakedSize)

/-! ## The system call -/

inductive FutexFlags where
  | wait
  | wake
  | requeue
  deriving DecidableEq

/-- The operation, without the private flag; unknown small ones count as WAKE. -/
def FutexFlags.ofOp (op : Nat) : Option FutexFlags :=
  match if op ≥ 0x80 then op - 0x80 else op with
  | 0 => some .wait
  | 1 => some .wake
  | 3 => some .requeue
  | op => if op ≤ 10 then some .wake else none

structure FutexArgs where
  uaddr : Nat
  op : Nat
  value : Nat
  value2 : Nat
  uaddr2 : Nat

/-- What the call reads: the word at `uaddr`, `to_nsec()` of the `TimeSpec` at `value2`, the
clock. -/
structure FutexEnv where
  word : UInt32
  timeout : Nat
  now : Nat

inductive FutexResult where
  | returned (res : Except Errno Nat)
  /-- the call awaits its `WaitFutex`, up to the deadline if there is one -/
  | waiting (deadline : Option Nat)

/-- `sys_futex`, up to its return or its first poll; `none` when it panics. -/
def sysFutex (table : FutexTable) (tid : Nat) (args : FutexArgs) (env : FutexEnv) :
    Option (FutexTable × FutexResult) :=
  if args.uaddr = 0 then some (table, .returned (.error .EFAULT))
  else
    match FutexFlags.ofOp args.op with
    | none => some (table, .returned (.error .ENOSYS))
    | some .wait =>
      if env.word.toNat = args.value % 2 ^ 32 then
        some (table.push args.uaddr tid, .waiting
          (if args.value2 = 0 then none else some ((env.now + env.timeout) % 2 ^ 64)))
      else some (table, .returned (.error .EAGAIN))
    | some .wake =>
      let (table, count) := futexWake table args.uaddr args.value
      some (table, .returned (.ok count))
    | some .requeue =>
      (futexRequeue table args.uaddr args.value args.uaddr2 args.value2).map
        (fun (table, count) => (table, .returned (.ok count)))

/-- `WaitFutex::poll`; `none` is `Poll::Pending`. -/
def waitFutexPoll (table : FutexTable) (tid : Nat) (hasSignal : Bool) :
    FutexTable × Option (Except Errno Nat) :=
  if inFutex table tid then
    if hasSignal then (table.retain tid, some (.error .EINTR)) else (table, none)
  else (table, some (.ok 0))

/-- The poll of a WAIT: `WaitFutex` alone, or `select` of it and `WaitUntilsec`. -/
def waitPoll (table : FutexTable) (tid : Nat) (deadline : Option Nat) (hasSignal : Bool)
    (now : Nat) : FutexTable × Option (Except Errno Nat) :=
  match waitFutexPoll table tid hasSignal, deadline with
  | (table, none), some deadline =>
    (table, if now > deadline then some (.error .ETIMEDOUT) else none)
  | polled, _ => polled

/-! ## What the operations do to the ids -/

section Ids

variable {table table' : FutexTable} {uaddr tid n : Nat}

namespace FutexTable

theorem get_of_append {pre post : FutexTable} {e : Nat × List Nat}
    (h : (pre ++ e :: post).find? (·.1 == uaddr) = some e) :
    get (pre ++ e :: post) uaddr = some e.2 := by
  unfold get
  rw [h]
  rfl

/-- The queue of an address, and the ids around it. -/
theorem modify_eq_some {f : List Nat → List Nat} (h : table.modify uaddr f = some table') :
    ∃ que, table.get uaddr = some que ∧ ∃ before after : List Nat,
      table.ids = before ++ (que ++ after) ∧ table'.ids = before ++ (f que ++ after) := by
  obtain ⟨pre, e, post, rfl, -, hfind, rfl⟩ := updateFirst_eq_some h
  refine ⟨e.2, get_of_append hfind, ids pre, ids post, ?_, ?_⟩
  · simp [ids]
  · simp [ids]

theorem modify_ne_none (h : table.get uaddr ≠ none) (f : List Nat → List Nat) :
    ∃ table', table.modify uaddr f = some table' := by
  apply Option.ne_none_iff_exists'.mp
  unfold get at h
  cases hfind : table.find? (·.1 == uaddr) with
  | none =>
    rw [hfind] at h
    exact absurd rfl h
  | some e =>
    exact updateFirst_ne_none (List.mem_of_find?_eq_some hfind)
      (List.find?_some (p := fun e : Nat × List Nat => e.1 == uaddr) hfind)

theorem modify_eq_none {f : List Nat → List Nat} (h : table.modify uaddr f = none) :
    table.get uaddr = none := by
  by_contra hget
  obtain ⟨table', hmodify⟩ := modify_ne_none hget f
  rw [h] at hmodify
  cases hmodify

theorem get_cons_eq_none {e : Nat × List Nat} (h : get (e :: table) uaddr = none) :
    e.1 ≠ uaddr ∧ table.get uaddr = none := by
  unfold get at h ⊢
  rw [Option.map_eq_none_iff, List.find?_eq_none] at h ⊢
  exact ⟨by simpa using h e List.mem_cons_self, fun x hx => h x (List.mem_cons_of_mem _ hx)⟩

/-- A new queue brings its ids, wherever its key stands. -/
theorem ids_insert (h : table.get uaddr = none) (que : List Nat) :
    (table.insert uaddr que).ids.Perm (que ++ table.ids) := by
  induction table with
  | nil => exact List.Perm.refl _
  | cons e table ih =>
    obtain ⟨hne, hrest⟩ := get_cons_eq_none h
    unfold insert
    by_cases hlt : uaddr < e.1
    · rw [if_pos hlt]
      exact List.Perm.refl _
    rw [if_neg hlt, if_neg (Ne.symm hne)]
    show (e.2 ++ ids (insert uaddr que table)).Perm (que ++ (e.2 ++ ids table))
    exact ((ih hrest).append_left e.2).trans (List.perm_append_comm_assoc _ _ _)

theorem ids_append {reque : List Nat} (h : table.modify uaddr (· ++ reque) = some table') :
    table'.ids.Perm (reque ++ table.ids) := by
  obtain ⟨que, -, before, after, hold, hnew⟩ := modify_eq_some h
  rw [hold, hnew, List.append_assoc]
  exact ((List.perm_append_comm_assoc que reque after).append_left before).trans
    (List.perm_append_comm_assoc _ _ _)

/-- A WAIT adds its task. -/
theorem ids_push (table : FutexTable) (uaddr tid : Nat) :
    (table.push uaddr tid).ids.Perm (tid :: table.ids) := by
  unfold push
  cases hmodify : table.modify uaddr (· ++ [tid]) with
  | none => exact ids_insert (modify_eq_none hmodify) [tid]
  | some table' => exact ids_append hmodify

/-- `drain` splits the ids. -/
theorem ids_drain {que : Option (List Nat)} (h : table.drain uaddr n = some (table', que)) :
    table.ids.Perm (que.getD [] ++ table'.ids) := by
  unfold drain at h
  cases hget : table.get uaddr with
  | none =>
    rw [hget] at h
    cases h
    exact List.Perm.refl _
  | some old =>
    simp only [hget, Option.ite_none_right_eq_some, Option.some.injEq, Prod.mk.injEq] at h
    obtain ⟨-, rfl, rfl⟩ := h
    obtain ⟨table'', hmodify⟩ := modify_ne_none (by rw [hget]; simp) (·.drop n)
    obtain ⟨que, hque, before, after, hold, hnew⟩ := modify_eq_some hmodify
    rw [hget] at hque
    cases hque
    rw [hmodify, Option.getD_some, Option.getD_some, hold, hnew]
    rw [show old ++ after = old.take n ++ (old.drop n ++ after) from by
      rw [← List.append_assoc, List.take_append_drop]]
    exact List.perm_append_comm_assoc _ _ _

theorem get_insert (h : table.get uaddr = none) (que : List Nat) :
    (table.insert uaddr que).get uaddr = some que := by
  induction table with
  | nil => simp [insert, get]
  | cons e table ih =>
    obtain ⟨hne, hrest⟩ := get_cons_eq_none h
    unfold insert
    by_cases hlt : uaddr < e.1
    · simp [get, hlt]
    rw [if_neg hlt, if_neg (Ne.symm hne)]
    unfold get
    rw [List.find?_cons_of_neg (by simpa using hne)]
    exact ih hrest

/-- The requeued tasks come back. -/
theorem ids_extend (table : FutexTable) (uaddr : Nat) (reque : List Nat) :
    (table.extend uaddr reque).ids.Perm (reque ++ table.ids) := by
  unfold extend
  cases hget : table.get uaddr with
  | some que =>
    obtain ⟨table', hmodify⟩ := modify_ne_none (by rw [hget]; simp) (fun que => que ++ reque)
    simp only [Option.isSome_some, if_true, hmodify, Option.getD_some]
    exact ids_append hmodify
  | none =>
    obtain ⟨table', hmodify⟩ :=
      modify_ne_none (by rw [get_insert hget []]; simp) (fun que => que ++ reque)
    simp only [Option.isSome_none, Bool.false_eq_true, if_false, hmodify, Option.getD_some]
    exact (ids_append hmodify).trans ((ids_insert hget []).append_left reque)

/-- The signal path takes the task out of the first queue that has it. -/
theorem ids_retain (hnodup : table.ids.Nodup) (tid : Nat) :
    tid ∉ (table.retain tid).ids ∧ (table.retain tid).ids.Sublist table.ids := by
  unfold retain
  cases hup : updateFirst (·.2.contains tid)
      (fun e => (e.1, e.2.filter (· != tid))) table with
  | none =>
    refine ⟨fun htid => ?_, List.Sublist.refl _⟩
    obtain ⟨e, he, hmem⟩ := List.mem_flatMap.mp htid
    exact updateFirst_ne_none he (by simpa using hmem) hup
  | some table' =>
    obtain ⟨pre, e, post, rfl, he, -, rfl⟩ := updateFirst_eq_some hup
    have hids : ids (pre ++ e :: post) = ids pre ++ (e.2 ++ ids post) := by simp [ids]
    rw [hids] at hnodup ⊢
    have hids' : ids (pre ++ (e.1, e.2.filter (· != tid)) :: post)
        = ids pre ++ (e.2.filter (· != tid) ++ ids post) := by simp [ids]
    rw [Option.getD_some, hids']
    refine ⟨?_, (List.filter_sublist.append_right _).append_left _⟩
    -- it is in `e.2`, so in no other queue
    have hmem : tid ∈ e.2 := by simpa using he
    rw [List.nodup_append, List.nodup_append] at hnodup
    obtain ⟨-, ⟨-, -, hafter⟩, hbefore⟩ := hnodup
    simp only [List.mem_append, List.mem_filter, not_or]
    refine ⟨fun hin => ?_, by simp, fun hin => hafter tid hmem tid hin rfl⟩
    exact hbefore tid hin tid (List.mem_append_left _ hmem) rfl

end FutexTable

theorem inFutex_iff : inFutex table tid = true ↔ tid ∈ table.ids := by
  unfold inFutex FutexTable.ids
  rw [List.find?_isSome, List.mem_flatMap]
  simp

/-- Every unit `futex_wake` counts is an id it takes out of the table. -/
theorem futexWake_ids (table : FutexTable) (uaddr wakeCount : Nat) :
    ∃ woken : List Nat, (futexWake table uaddr wakeCount).2 = woken.length
      ∧ table.ids.Perm (woken ++ (futexWake table uaddr wakeCount).1.ids) := by
  unfold futexWake
  by_cases hsize : ((table.get uaddr).map List.length).getD 0 = 0
  · rw [if_pos hsize]
    exact ⟨[], rfl, List.Perm.refl _⟩
  rw [if_neg hsize]
  cases hdrain : table.drain uaddr
      (min wakeCount (((table.get uaddr).map List.length).getD 0)) with
  | none => exact ⟨[], rfl, List.Perm.refl _⟩
  | some rest =>
    refine ⟨rest.2.getD [], ?_, FutexTable.ids_drain hdrain⟩
    show (rest.2.map List.length).getD 0 = _
    cases rest.2 <;> rfl

theorem futexRequeue_ids {wakeCount uaddr2 requeCount count : Nat}
    (h : futexRequeue table uaddr wakeCount uaddr2 requeCount = some (table', count)) :
    ∃ woken : List Nat, table.ids.Perm (woken ++ table'.ids) := by
  unfold futexRequeue at h
  obtain ⟨⟨table₁, woken⟩, hwoken, h⟩ := Option.bind_eq_some_iff.mp h
  obtain ⟨⟨table₂, reque⟩, hreque, h⟩ := Option.bind_eq_some_iff.mp h
  refine ⟨woken.getD [], (FutexTable.ids_drain hwoken).trans (List.Perm.append_left _ ?_)⟩
  refine (FutexTable.ids_drain hreque).trans ?_
  cases reque with
  | none =>
    cases h
    exact List.Perm.refl _
  | some reque =>
    cases h
    exact (FutexTable.ids_extend table₂ uaddr2 reque).symm

end Ids

end MonkeyOS
