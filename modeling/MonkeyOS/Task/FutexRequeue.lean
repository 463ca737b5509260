import MonkeyOS.Task.FutexFifo

/-!
# MonkeyOS — `futex_wake` and `futex_requeue` move waiters

`futex_wake` caps its count at the length of the queue before it drains. `futex_requeue` drains
twice without a cap, and `Vec::drain(..n)` panics when the queue is shorter than `n`.

* `FutexTable.queue_extend`, `FutexTable.queue_drained` — what the two halves of a requeue do to the
  queue of each address;
* `futexRequeue_of_le` — a requeue whose counts are covered by the queue;
* `futexRequeue_panics` — and one whose counts are not;
* `futex_conserves_iff` — both calls against their law.
-/

namespace MonkeyOS

/-- `futex_wake(uaddr, n)` takes the first `min(n, len)` waiters of its queue and nothing else, and
returns their number. -/
structure WakeLaw (table : FutexTable) (uaddr n : Nat) : Prop where
  count : (futexWake table uaddr n).2 = min n (table.queue uaddr).length
  queues : ∀ a, (futexWake table uaddr n).1.queue a
    = if a = uaddr then (table.queue a).drop (min n (table.queue uaddr).length) else table.queue a
  conserves : table.ids.Perm
    ((table.queue uaddr).take (min n (table.queue uaddr).length) ++ (futexWake table uaddr n).1.ids)

/-- The number of waiters a requeue releases, and the number it moves. -/
def FutexTable.released (table : FutexTable) (uaddr w : Nat) : Nat :=
  min w (table.queue uaddr).length

def FutexTable.moved (table : FutexTable) (uaddr w r : Nat) : Nat :=
  min r ((table.queue uaddr).length - table.released uaddr w)

/-- `futex_requeue(uaddr, w, uaddr2, r)` does not panic. It releases the first waiters of its queue
and returns their number, and the next ones go to the end of the queue of `uaddr2`. -/
def RequeueLaw (table : FutexTable) (uaddr w uaddr2 r : Nat) : Prop :=
  ∃ table', futexRequeue table uaddr w uaddr2 r = some (table', table.released uaddr w)
    ∧ (∀ a, table'.queue a
      = (if a = uaddr then (table.queue a).drop (table.released uaddr w + table.moved uaddr w r)
          else table.queue a)
        ++ if a = uaddr2 then
            ((table.queue uaddr).drop (table.released uaddr w)).take (table.moved uaddr w r)
          else [])
    ∧ table.ids.Perm ((table.queue uaddr).take (table.released uaddr w) ++ table'.ids)

namespace FutexTable

variable {table table' : FutexTable} {uaddr n : Nat}

theorem queue_of_get {que : List Nat} (h : table.get uaddr = some que) : table.queue uaddr = que := by
  unfold queue
  rw [h]
  rfl

theorem queue_of_get_none (h : table.get uaddr = none) : table.queue uaddr = [] := by
  unfold queue
  rw [h]
  rfl

/-- The requeued tasks go to the end of their new queue. -/
theorem queue_extend (table : FutexTable) (uaddr : Nat) (reque : List Nat) (a : Nat) :
    (table.extend uaddr reque).queue a = table.queue a ++ if a = uaddr then reque else [] := by
  -- the table with the queue put in has the same queues
  have hput : ∃ base : FutexTable, base.get uaddr ≠ none ∧ (∀ b, base.queue b = table.queue b)
      ∧ table.extend uaddr reque = (base.modify uaddr (· ++ reque)).getD base := by
    cases hget : table.get uaddr with
    | some que =>
      refine ⟨table, by rw [hget]; simp, fun b => rfl, ?_⟩
      unfold extend
      rw [hget]
      rfl
    | none =>
      refine ⟨table.insert uaddr [], by rw [get_insert hget]; simp, fun b => ?_, ?_⟩
      · by_cases hb : b = uaddr
        · rw [hb, queue_of_get (get_insert hget []), queue_of_get_none hget]
        · unfold queue
          rw [get_insert_of_ne hb]
      · unfold extend
        rw [hget]
        rfl
  obtain ⟨base, hbase, hsame, hextend⟩ := hput
  obtain ⟨table', hmodify⟩ := modify_ne_none hbase (· ++ reque)
  rw [hextend, hmodify, Option.getD_some, ← hsame]
  obtain ⟨que, hque, -⟩ := modify_eq_some hmodify
  by_cases ha : a = uaddr
  · rw [if_pos ha, ha, queue_of_get hque]
    apply queue_of_get
    rw [get_modify_self hmodify, hque]
    rfl
  · rw [if_neg ha, List.append_nil]
    unfold queue
    rw [get_modify_of_ne ha hmodify]

/-- What a drain leaves in each queue. -/
theorem queue_drained {que : List Nat} (hget : table.get uaddr = some que)
    (hmodify : table.modify uaddr (·.drop n) = some table') :
    table'.get uaddr = some (que.drop n) ∧ ∀ a, a ≠ uaddr → table'.queue a = table.queue a := by
  constructor
  · rw [get_modify_self hmodify, hget]
    rfl
  · intro a ha
    unfold queue
    rw [get_modify_of_ne ha hmodify]

theorem drain_of_lt {que : List Nat} (hget : table.get uaddr = some que) (hlt : que.length < n) :
    table.drain uaddr n = none := by
  unfold drain
  rw [hget]
  show (if n ≤ que.length then _ else none) = none
  rw [if_neg (by omega)]

theorem drain_of_get_none (hget : table.get uaddr = none) (n : Nat) :
    table.drain uaddr n = some (table, none) := by
  unfold drain
  rw [hget]

end FutexTable

/-! ## Wake -/

/-- The ids that a wake takes out. -/
theorem futexWake_taken (table : FutexTable) (uaddr n : Nat) :
    table.ids.Perm ((table.queue uaddr).take (min n (table.queue uaddr).length)
      ++ (futexWake table uaddr n).1.ids) := by
  unfold futexWake
  cases hget : table.get uaddr with
  | none =>
    rw [FutexTable.queue_of_get_none hget, List.take_nil]
    exact List.Perm.refl _
  | some que =>
    rw [FutexTable.queue_of_get hget]
    simp only [Option.map_some, Option.getD_some]
    by_cases hsize : que.length = 0
    · rw [if_pos hsize, List.eq_nil_of_length_eq_zero hsize, List.take_nil]
      exact List.Perm.refl _
    obtain ⟨table', -, hdrain⟩ :=
      FutexTable.drain_of_le hget (Nat.min_le_right n que.length)
    rw [if_neg hsize, hdrain]
    exact FutexTable.ids_drain hdrain

theorem wakeLaw (table : FutexTable) (uaddr n : Nat) : WakeLaw table uaddr n := by
  obtain ⟨hcount, hqueues, -⟩ := futexWake_queue table uaddr n
  refine ⟨hcount, fun a => ?_, futexWake_taken table uaddr n⟩
  rw [hqueues, hcount]
  by_cases ha : a = uaddr
  · rw [if_pos ha, if_pos ha]
  · rw [if_neg ha, if_neg ha, List.drop_zero]

/-! ## Requeue -/

variable {table : FutexTable} {uaddr w uaddr2 r : Nat}

/-- The two counts together do not exceed the queue, where there is one. -/
def FutexTable.Suffices (table : FutexTable) (uaddr w r : Nat) : Prop :=
  ∀ que, table.get uaddr = some que → w + r ≤ que.length

theorem requeueLaw_of_get_none (hget : table.get uaddr = none) :
    RequeueLaw table uaddr w uaddr2 r := by
  have hqueue := FutexTable.queue_of_get_none hget
  have hreleased : table.released uaddr w = 0 := by
    unfold FutexTable.released
    rw [hqueue]
    exact Nat.min_zero w
  refine ⟨table, ?_, fun a => ?_, ?_⟩
  · unfold futexRequeue
    rw [FutexTable.drain_of_get_none hget]
    show (table.drain uaddr r).bind _ = _
    rw [FutexTable.drain_of_get_none hget, hreleased]
    rfl
  · rw [hqueue, List.drop_nil, List.take_nil, ite_self, List.append_nil]
    by_cases ha : a = uaddr
    · rw [if_pos ha, ha, hqueue, List.drop_nil]
    · rw [if_neg ha]
  · rw [hqueue, List.take_nil]
    exact List.Perm.refl _

variable (uaddr2) in
/-- A requeue whose counts are covered: both drains take what they ask for. -/
theorem futexRequeue_of_le {que : List Nat} (hget : table.get uaddr = some que)
    (hle : w + r ≤ que.length) :
    ∃ rest : FutexTable, futexRequeue table uaddr w uaddr2 r
        = some (rest.extend uaddr2 ((que.drop w).take r), w)
      ∧ (∀ a, rest.queue a = if a = uaddr then que.drop (w + r) else table.queue a)
      ∧ table.ids.Perm (que.take w ++ ((que.drop w).take r ++ rest.ids)) := by
  obtain ⟨woken, hmodify, hdrain⟩ := FutexTable.drain_of_le hget (n := w) (by omega)
  obtain ⟨hwoken, hothers⟩ := FutexTable.queue_drained hget hmodify
  have hroom : r ≤ (que.drop w).length := by
    rw [List.length_drop]
    omega
  obtain ⟨rest, hmodify', hdrain'⟩ := FutexTable.drain_of_le hwoken hroom
  obtain ⟨hrest, hothers'⟩ := FutexTable.queue_drained hwoken hmodify'
  refine ⟨rest, ?_, fun a => ?_, ?_⟩
  · unfold futexRequeue
    rw [hdrain]
    show (woken.drain uaddr r).bind _ = _
    rw [hdrain']
    show some (_, (que.take w).length) = _
    rw [List.length_take, Nat.min_eq_left (by omega)]
  · by_cases ha : a = uaddr
    · rw [if_pos ha, ha, FutexTable.queue_of_get hrest, List.drop_drop]
    · rw [if_neg ha, hothers' a ha, hothers a ha]
  · exact (FutexTable.ids_drain hdrain).trans ((FutexTable.ids_drain hdrain').append_left _)

theorem requeueLaw_of_le {que : List Nat} (hget : table.get uaddr = some que)
    (hle : w + r ≤ que.length) : RequeueLaw table uaddr w uaddr2 r := by
  obtain ⟨rest, hrequeue, hqueues, hperm⟩ := futexRequeue_of_le uaddr2 hget hle
  have hqueue := FutexTable.queue_of_get hget
  have hreleased : table.released uaddr w = w := by
    unfold FutexTable.released
    rw [hqueue]
    omega
  have hmoved : table.moved uaddr w r = r := by
    unfold FutexTable.moved
    rw [hqueue, hreleased]
    omega
  refine ⟨_, by rw [hrequeue, hreleased], fun a => ?_, ?_⟩
  · rw [FutexTable.queue_extend, hqueues, hreleased, hmoved, hqueue]
    by_cases ha : a = uaddr
    · rw [if_pos ha, if_pos ha, ha, hqueue]
    · rw [if_neg ha, if_neg ha]
  · rw [hreleased, hqueue]
    exact hperm.trans ((FutexTable.ids_extend rest uaddr2 _).symm.append_left _)

/-- One drain or the other asks for more than the queue has. -/
theorem futexRequeue_panics {que : List Nat} (hget : table.get uaddr = some que)
    (hlt : que.length < w + r) : futexRequeue table uaddr w uaddr2 r = none := by
  unfold futexRequeue
  by_cases hw : w ≤ que.length
  · obtain ⟨woken, hmodify, hdrain⟩ := FutexTable.drain_of_le hget hw
    obtain ⟨hwoken, -⟩ := FutexTable.queue_drained hget hmodify
    have hshort : (que.drop w).length < r := by
      rw [List.length_drop]
      omega
    rw [hdrain]
    show (woken.drain uaddr r).bind _ = none
    rw [FutexTable.drain_of_lt hwoken hshort]
    rfl
  · rw [FutexTable.drain_of_lt hget (Nat.lt_of_not_le hw)]
    rfl

theorem requeueLaw_iff : RequeueLaw table uaddr w uaddr2 r ↔ table.Suffices uaddr w r := by
  cases hget : table.get uaddr with
  | none =>
    refine iff_of_true (requeueLaw_of_get_none hget) (fun que hque => ?_)
    rw [hget] at hque
    cases hque
  | some que =>
    constructor
    · intro hlaw other hother
      rw [hget] at hother
      cases hother
      obtain ⟨table', hrequeue, -⟩ := hlaw
      by_contra hshort
      rw [futexRequeue_panics hget (Nat.lt_of_not_le hshort)] at hrequeue
      cases hrequeue
    · intro hsuffices
      exact requeueLaw_of_le hget (hsuffices que hget)

/-- **Waiters are conserved.** For every table, a wake does as it should; and so does a requeue, for
every two addresses, exactly if its counts together do not exceed the queue (or there is none). -/
theorem futex_conserves_iff (table : FutexTable) (uaddr n w uaddr2 r : Nat) :
    WakeLaw table uaddr n
      ∧ (RequeueLaw table uaddr w uaddr2 r ↔ table.Suffices uaddr w r) :=
  ⟨wakeLaw table uaddr n, requeueLaw_iff⟩

/-- One waiter, and the usual call: wake one, requeue all the others. The second drain panics. -/
theorem futex_requeue_panics :
    futexRequeue [(0x1000, [7])] 0x1000 1 0x2000 0x7fffffff = none
      ∧ futexRequeue [(0x1000, [7])] 0x1000 2 0x2000 0 = none
      ∧ ¬ RequeueLaw [(0x1000, [7])] 0x1000 1 0x2000 0x7fffffff := by
  refine ⟨by decide, by decide, fun hlaw => ?_⟩
  have hsuffices := requeueLaw_iff.mp hlaw [7] rfl
  exact absurd hsuffices (by decide)

end MonkeyOS
