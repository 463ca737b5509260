import MonkeyOS.Fs.Poll

/-!
# MonkeyOS — writes to a pipe that have to wait (`filesystem/fs/src/pipe.rs`)

A write goes into the queue whole or not at all. Up to 16 bytes always fit; more fit if the queue does
not grow over `PIPE_BUFFER_SIZE`, so more than that never fit, not even into an empty queue. `poll` does
not know how much is to be written, and promises room up to and including a full queue.

* `PipeSys.drains` — reads empty the queue and leave the futures alone;
* `PipeSys.stays_run` — a future that writes too much is there until it is cancelled;
* `pipe_write_iff` — for which buffers a write gets through once the pipe has been read, and for which
  `poll` can be trusted.
-/

namespace MonkeyOS

open Lib

namespace Pipe

/-- `PipeSender::poll`. -/
def senderPoll (queue : List UInt8) (events : PollEvent) : PollEvent :=
  { pollin := false
    pollout := events.pollout && decide (queue.length ≤ bufferSize)
    pollerr := false }

/-- `writeat` takes at least one byte. -/
def Accepts (queue buffer : List UInt8) : Prop :=
  ∃ n after, writeat queue buffer = (.ok n, after) ∧ 0 < n

section Accepts

variable {queue buffer : List UInt8}

theorem accepts_iff (hne : buffer ≠ []) :
    Accepts queue buffer ↔ buffer.length ≤ 16 ∨ queue.length + buffer.length ≤ bufferSize := by
  have hpos := List.length_pos_iff.mpr hne
  unfold Accepts
  rw [writeat_eq]
  split
  · rename_i hfull
    refine iff_of_false ?_ (by omega)
    rintro ⟨n, after, h, -⟩
    cases h
  · rename_i hfits
    exact iff_of_true ⟨_, _, rfl, hpos⟩ (by omega)

theorem le_bufferSize_of_accepts (hne : buffer ≠ []) (h : Accepts queue buffer) :
    buffer.length ≤ bufferSize := by
  rw [accepts_iff hne] at h
  unfold bufferSize at h ⊢
  omega

theorem accepts_nil (hne : buffer ≠ []) (hlen : buffer.length ≤ bufferSize) : Accepts [] buffer :=
  (accepts_iff hne).mpr (.inr (by rwa [List.length_nil, Nat.zero_add]))

theorem waitBlockingWrite_of_accepts (h : Accepts queue buffer) :
    waitBlockingWrite queue buffer = (some (.ok buffer.length), queue ++ buffer) := by
  obtain ⟨n, after, hwrite, -⟩ := h
  rcases waitBlockingWrite_cases queue buffer with hready | hpending
  · exact hready
  · unfold waitBlockingWrite at hpending
    rw [hwrite] at hpending
    cases hpending

/-- More than the pipe holds is refused in every state. -/
theorem waitBlockingWrite_of_long (hlen : bufferSize < buffer.length) (queue : List UInt8) :
    waitBlockingWrite queue buffer = (none, queue) := by
  unfold waitBlockingWrite
  rw [writeat_eq, if_pos]
  unfold bufferSize at hlen ⊢
  omega

end Accepts

end Pipe

namespace PipeSys

def Reachable (s : PipeSys) : Prop := ∃ events, Run PipeStep .new events s

/-- A read, and nothing else. -/
def ReadStep (s : PipeSys) (event : PipeEvent) (t : PipeSys) : Prop :=
  ∃ buffer, s.exec (.read buffer) = some (event, t)

/-- Anything but the end of task `tid`. -/
def OtherStep (tid : Nat) (s : PipeSys) (event : PipeEvent) (t : PipeSys) : Prop :=
  ∃ call, (∀ tid', call = .cancel tid' → tid' ≠ tid) ∧ s.exec call = some (event, t)

/-! ## Reads -/

/-- One read into a buffer that is large enough empties the queue. -/
theorem drains (s : PipeSys) : ∃ events, Run ReadStep s events { s with queue := [] } := by
  by_cases hqueue : s.queue = []
  · refine ⟨[], ?_⟩
    rw [← hqueue]
    exact .nil s
  · have hpos := List.length_pos_iff.mpr hqueue
    have hread : Pipe.readat s.queue s.strongCount s.queue = (.ok s.queue.length, s.queue, []) := by
      unfold Pipe.readat
      rw [if_neg (by simpa using hqueue), if_pos hpos]
      simp only [Nat.min_self, List.take_length, List.drop_length, List.append_nil]
    refine ⟨[.read s.queue s.queue (.ok s.queue.length)], .cons ⟨s.queue, ?_⟩ (.nil _)⟩
    simp only [exec, hread]

theorem otherStep_of_readStep {s t : PipeSys} {event : PipeEvent} (tid : Nat)
    (h : ReadStep s event t) : OtherStep tid s event t := by
  obtain ⟨buffer, hexec⟩ := h
  exact ⟨.read buffer, fun _ hcancel => (nomatch hcancel), hexec⟩

/-! ## Every queue is reachable -/

theorem fills (queue more : List UInt8) :
    ∃ events, Run PipeStep ⟨queue, 1, []⟩ events ⟨queue ++ more, 1, []⟩ := by
  induction more generalizing queue with
  | nil =>
    rw [List.append_nil]
    exact ⟨[], .nil _⟩
  | cons x more ih =>
    obtain ⟨events, hrest⟩ := ih (queue ++ [x])
    rw [List.append_assoc] at hrest
    -- a single byte is written whatever is in the queue
    exact ⟨_, .cons ⟨.write true [x], rfl⟩ hrest⟩

theorem reachable_queue (queue : List UInt8) : Reachable ⟨queue, 1, []⟩ := fills [] queue

/-! ## Futures that stay -/

section Lookup

variable {α : Type*} {tid tid' : Nat} (h : tid' ≠ tid) (futures : List (Nat × α))
include h

theorem lookup_filter_ne :
    (futures.filter (·.1 ≠ tid')).lookup tid = futures.lookup tid := by
  induction futures with
  | nil => rfl
  | cons x futures ih =>
    obtain ⟨k, future⟩ := x
    by_cases hk : k = tid'
    · subst hk
      rw [List.filter_cons_of_neg (by simp), ih, List.lookup_cons, beq_false_of_ne h.symm]
    · rw [List.filter_cons_of_pos (by simpa using hk), List.lookup_cons, List.lookup_cons, ih]

theorem lookup_map_ne (future : α) :
    (futures.map (fun x => if x.1 = tid' then (tid', future) else x)).lookup tid
      = futures.lookup tid := by
  induction futures with
  | nil => rfl
  | cons x futures ih =>
    obtain ⟨k, old⟩ := x
    rw [List.map_cons, List.lookup_cons]
    by_cases hk : k = tid'
    · subst hk
      rw [if_pos rfl, List.lookup_cons, beq_false_of_ne h.symm]
      exact ih
    · rw [if_neg hk, List.lookup_cons, ih]

end Lookup

section Stays

variable {s t : PipeSys} {tid : Nat} {future : PipeFuture} {event : PipeEvent}

theorem lookup_poll_ne {tid' : Nat} (h : tid' ≠ tid) (future : PipeFuture) :
    (s.poll tid' future).2.futures.lookup tid = s.futures.lookup tid := by
  cases future with
  | read buffer =>
    rcases Pipe.waitBlockingRead_cases s.queue s.strongCount buffer with ⟨n, after, hpoll, -⟩ | hpoll
    · simp only [poll, hpoll]
      exact lookup_filter_ne h _
    · simp only [poll, hpoll]
      exact lookup_map_ne h _ _
  | write buffer =>
    rcases Pipe.waitBlockingWrite_cases s.queue buffer with hpoll | hpoll
    · simp only [poll, hpoll]
      exact lookup_filter_ne h _
    · simp only [poll, hpoll]

/-- Who has a future under way does not start another one. -/
theorem lookup_cons_other {tid' : Nat} (hs : s.futures.lookup tid = some future)
    (hfree : ¬ (s.futures.lookup tid').isSome) (new : PipeFuture) :
    ((tid', new) :: s.futures).lookup tid = some future := by
  have hne : tid ≠ tid' := by
    rintro rfl
    rw [hs] at hfree
    exact hfree rfl
  rw [List.lookup_cons, beq_false_of_ne hne]
  exact hs

/-- A future that a poll leaves as it is stays, whatever else is done. -/
theorem stays_step (hpoll : ∀ s : PipeSys, s.poll tid future = (.quiet, s))
    (hs : s.futures.lookup tid = some future) (hstep : OtherStep tid s event t) :
    t.futures.lookup tid = some future := by
  obtain ⟨call, hother, hexec⟩ := hstep
  cases call with
  | read buffer =>
    cases hexec
    exact hs
  | write writeable buffer =>
    simp only [exec, Option.ite_none_left_eq_some] at hexec
    obtain ⟨-, hexec⟩ := hexec
    split at hexec
    · cases hexec
      exact hs
    split at hexec
    · cases hexec
      exact hs
    · cases hexec
      exact hs
  | asyncRead tid' buffer =>
    simp only [exec, Option.ite_none_left_eq_some] at hexec
    obtain ⟨hfree, hexec⟩ := hexec
    cases hexec
    exact lookup_cons_other hs hfree _
  | asyncWrite tid' buffer =>
    simp only [exec, Option.ite_none_left_eq_some] at hexec
    obtain ⟨hfree, hexec⟩ := hexec
    split at hexec
    · cases hexec
      exact hs
    · cases hexec
      exact lookup_cons_other hs (fun hsome => hfree (.inr hsome)) _
  | poll tid' =>
    obtain ⟨future', hlookup, hpolled⟩ := Option.map_eq_some_iff.mp hexec
    by_cases hne : tid' = tid
    · subst hne
      obtain rfl : future = future' := Option.some.inj (hs.symm.trans hlookup)
      rw [hpoll] at hpolled
      cases hpolled
      exact hs
    · have hkept := lookup_poll_ne (s := s) hne future'
      rw [hpolled] at hkept
      exact hkept.trans hs
  | cancel tid' =>
    cases hexec
    exact (lookup_filter_ne (hother tid' rfl) _).trans hs
  | cloneSender =>
    simp only [exec, Option.ite_none_left_eq_some] at hexec
    obtain ⟨-, hexec⟩ := hexec
    cases hexec
    exact hs
  | dropSender =>
    simp only [exec, Option.ite_none_left_eq_some] at hexec
    obtain ⟨-, hexec⟩ := hexec
    cases hexec
    exact hs

variable {buffer : List UInt8} {events : List PipeEvent}

theorem poll_of_long (hlen : Pipe.bufferSize < buffer.length) (s : PipeSys) :
    s.poll tid (.write buffer) = (.quiet, s) := by
  simp only [poll, Pipe.waitBlockingWrite_of_long hlen]

theorem exec_poll_of_long (hlen : Pipe.bufferSize < buffer.length)
    (hs : s.futures.lookup tid = some (.write buffer)) : s.exec (.poll tid) = some (.quiet, s) := by
  simp only [exec, hs, Option.map_some, poll_of_long hlen]

/-- A write of more than the pipe holds is under way until its task ends. -/
theorem stays_run (hlen : Pipe.bufferSize < buffer.length)
    (hs : s.futures.lookup tid = some (.write buffer)) (hrun : Run (OtherStep tid) s events t) :
    t.futures.lookup tid = some (.write buffer) :=
  hrun.invariant (I := fun s => s.futures.lookup tid = some (.write buffer))
    (fun _ _ _ hs hstep => stays_step (poll_of_long hlen) hs hstep) hs

end Stays

end PipeSys

/-! ## Which writes get through -/

section Through

variable (buffer : List UInt8)

open PipeSys

/-- From every state of the pipe, reads lead to one where `writeat` takes something. -/
def Writable : Prop :=
  ∀ s : PipeSys, s.Reachable → ∃ events t, Run ReadStep s events t ∧ Pipe.Accepts t.queue buffer

/-- A blocking write is ready at its next poll, once the pipe has been read. -/
def Completes : Prop :=
  ∀ (s : PipeSys) (tid : Nat), s.Reachable → s.futures.lookup tid = some (.write buffer) →
    ∃ events t, Run ReadStep s events t
      ∧ ∃ n u, t.exec (.poll tid) = some (.wrote buffer (.ok n), u) ∧ 0 < n

/-- `POLLOUT` promises that something can be written. -/
def PollsTrue : Prop :=
  ∀ (s : PipeSys) (events : PollEvent), s.Reachable → (Pipe.senderPoll s.queue events).pollout = true →
    Pipe.Accepts s.queue buffer

variable {buffer} (hne : buffer ≠ [])
include hne

theorem writable_iff : Writable buffer ↔ buffer.length ≤ Pipe.bufferSize := by
  constructor
  · intro h
    obtain ⟨events, t, -, haccepts⟩ := h .new ⟨[], .nil _⟩
    exact Pipe.le_bufferSize_of_accepts hne haccepts
  · intro hlen s _
    obtain ⟨events, hrun⟩ := s.drains
    exact ⟨events, _, hrun, Pipe.accepts_nil hne hlen⟩

theorem completes_iff : Completes buffer ↔ buffer.length ≤ Pipe.bufferSize := by
  constructor
  · intro h
    by_contra hlong
    have hpos : buffer.length ≠ 0 := by
      intro hzero
      exact hne (List.eq_nil_of_length_eq_zero hzero)
    have hstart : PipeSys.new.exec (.asyncWrite 0 buffer)
        = some (.quiet, ⟨[], 1, [(0, .write buffer)]⟩) := by
      simp only [exec]
      rw [if_neg (by decide), if_neg hpos]
      rfl
    obtain ⟨events, t, hrun, n, u, hpoll, -⟩ :=
      h _ 0 ⟨_, .cons ⟨_, hstart⟩ (.nil _)⟩ rfl
    have hothers : Run (OtherStep 0) _ events t :=
      hrun.mono (fun _ _ _ hstep => otherStep_of_readStep 0 hstep)
    have hstays := stays_run (Nat.lt_of_not_le hlong) rfl hothers
    rw [exec_poll_of_long (Nat.lt_of_not_le hlong) hstays] at hpoll
    cases hpoll
  · intro hlen s tid _ hs
    obtain ⟨events, hrun⟩ := s.drains
    have hready := Pipe.waitBlockingWrite_of_accepts (Pipe.accepts_nil hne hlen)
    refine ⟨events, _, hrun, buffer.length, { s with queue := buffer, futures := s.dropFuture tid }, ?_,
      List.length_pos_iff.mpr hne⟩
    simp only [exec, hs, Option.map_some, poll, hready]
    rfl

theorem pollsTrue_iff : PollsTrue buffer ↔ buffer.length ≤ 16 := by
  have hpos := List.length_pos_iff.mpr hne
  constructor
  · intro h
    -- a queue that is just full
    have hfull := h _ .POLLOUT (reachable_queue (.replicate Pipe.bufferSize 0)) (by
      simp [Pipe.senderPoll, PollEvent.POLLOUT])
    rw [Pipe.accepts_iff hne, List.length_replicate] at hfull
    omega
  · intro hlen s events _ _
    exact (Pipe.accepts_iff hne).mpr (.inl hlen)

end Through

/-- A write gets through, once the pipe has been read, exactly if it is of at most `PIPE_BUFFER_SIZE`
bytes, and a longer one waits for ever; `POLLOUT` can be trusted exactly by writers of at most 16
bytes. -/
theorem pipe_write_iff (buffer : List UInt8) (hne : buffer ≠ []) :
    (Writable buffer ↔ buffer.length ≤ Pipe.bufferSize)
      ∧ (Completes buffer ↔ buffer.length ≤ Pipe.bufferSize)
      ∧ (PollsTrue buffer ↔ buffer.length ≤ 16)
      ∧ (Pipe.bufferSize < buffer.length →
        ∀ (s t : PipeSys) (tid : Nat) (events : List PipeEvent),
          s.futures.lookup tid = some (.write buffer) → Run (PipeSys.OtherStep tid) s events t →
            t.futures.lookup tid = some (.write buffer) ∧ t.exec (.poll tid) = some (.quiet, t)) := by
  refine ⟨writable_iff hne, completes_iff hne, pollsTrue_iff hne, ?_⟩
  intro hlen s t tid events hs hrun
  have hstays := PipeSys.stays_run hlen hs hrun
  exact ⟨hstays, PipeSys.exec_poll_of_long hlen hstays⟩

theorem pipe_write_iff_byte : Writable [7] ∧ Completes [7] ∧ PollsTrue [7] := by
  obtain ⟨hwritable, hcompletes, hpolls, -⟩ := pipe_write_iff [7] (by decide)
  exact ⟨hwritable.mpr (by decide), hcompletes.mpr (by decide), hpolls.mpr (by decide)⟩

/-- One byte more than the pipe holds is refused by every queue, and 17 bytes by a queue for which
`poll` says that there is room. -/
theorem pipe_write_stuck :
    (∀ queue, Pipe.waitBlockingWrite queue (List.replicate (Pipe.bufferSize + 1) 0) = (none, queue))
      ∧ ∃ queue, (Pipe.senderPoll queue .POLLOUT).pollout = true
        ∧ ¬ Pipe.Accepts queue (List.replicate 17 0) := by
  constructor
  · apply Pipe.waitBlockingWrite_of_long
    rw [List.length_replicate]
    exact Nat.lt_succ_self _
  · refine ⟨List.replicate Pipe.bufferSize 0, ?_, ?_⟩
    · simp [Pipe.senderPoll, PollEvent.POLLOUT]
    · rw [Pipe.accepts_iff (by decide), List.length_replicate, List.length_replicate]
      omega

end MonkeyOS
