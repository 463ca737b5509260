import Mathlib.Data.List.Basic
import MonkeyOS.Basic
import MonkeyOS.Lib.Run

/-!
# MonkeyOS — pipes (`filesystem/fs/src/pipe.rs`)

The two ends of a pipe share one byte queue. A blocking call is a `WaitBlockingRead` or
`WaitBlockingWrite` future (`filesystem/fs/src/lib.rs`) that repeats the whole operation at every
poll until it answers something else than `EWOULDBLOCK`; `File::async_read` and
`File::async_write` (`filesystem/fs/src/file.rs`) make them. Several readers and writers may be
under way at once, and the sender may be cloned and dropped meanwhile.

* `writeat_cases`, `readat_cases` — one operation on the queue, done in full or not at all;
* `PipeSys.exec_sound` — the same for one step of the system, polls included;
* `pipe_byte_stream` — over whole runs: the bytes read and the bytes queued are the bytes
  written, in order, and a read answers end-of-file only when all is read and no sender is left.

The receiver holds the sender weakly: `strongCount` counts the sender's owners, which are the
open files and the write futures under way.
-/

namespace MonkeyOS

open Lib

/-! ## The two ends -/

namespace Pipe

/-- `PIPE_BUFFER_SIZE`. -/
def bufferSize : Nat := 0x10000

/-- `PipeSender::writeat`: the answer and the queue. -/
def writeat (queue buffer : List UInt8) : Except Errno Nat × List UInt8 :=
  if buffer.isEmpty then (.ok 0, queue)
  -- small writes ignore the size of the queue
  else if buffer.length ≤ 16 then (.ok buffer.length, queue ++ buffer)
  else if queue.length + buffer.length ≤ bufferSize then (.ok buffer.length, queue ++ buffer)
  else (.error .EWOULDBLOCK, queue)

/-- `PipeReceiver::readat`: the answer, the caller's buffer and the queue. -/
def readat (queue : List UInt8) (strongCount : Nat) (buffer : List UInt8) :
    Except Errno Nat × List UInt8 × List UInt8 :=
  if buffer.isEmpty then (.ok 0, buffer, queue)
  else if queue.length > 0 then
    let rlen := min queue.length buffer.length
    (.ok rlen, queue.take rlen ++ buffer.drop rlen, queue.drop rlen)
  else if strongCount > 0 then (.error .EWOULDBLOCK, buffer, queue)
  else (.ok 0, buffer, queue)

/-- `WaitBlockingWrite::poll`; `none` is `Poll::Pending`. -/
def waitBlockingWrite (queue buffer : List UInt8) : Option (Except Errno Nat) × List UInt8 :=
  match writeat queue buffer with
  | (.error .EWOULDBLOCK, queue) => (none, queue)
  | (res, queue) => (some res, queue)

/-- `WaitBlockingRead::poll`. -/
def waitBlockingRead (queue : List UInt8) (strongCount : Nat) (buffer : List UInt8) :
    Option (Except Errno Nat) × List UInt8 × List UInt8 :=
  match readat queue strongCount buffer with
  | (.error .EWOULDBLOCK, buffer, queue) => (none, buffer, queue)
  | (res, buffer, queue) => (some res, buffer, queue)

/-- A write is accepted whole or leaves the queue alone. -/
theorem writeat_cases (queue buffer : List UInt8) :
    writeat queue buffer = (.ok buffer.length, queue ++ buffer)
      ∨ writeat queue buffer = (.error .EWOULDBLOCK, queue) := by
  unfold writeat
  split
  · rename_i hempty
    rw [List.isEmpty_iff.mp hempty, List.append_nil]
    exact .inl rfl
  · split
    · exact .inl rfl
    · split
      · exact .inl rfl
      · exact .inr rfl

theorem writeat_eq (queue buffer : List UInt8) :
    writeat queue buffer =
      if 16 < buffer.length ∧ bufferSize < queue.length + buffer.length
      then (.error .EWOULDBLOCK, queue) else (.ok buffer.length, queue ++ buffer) := by
  unfold writeat
  split
  · rename_i hempty
    rw [List.isEmpty_iff.mp hempty, if_neg (by simp), List.append_nil]
    rfl
  · split
    · rw [if_neg (by omega)]
    · split
      · rw [if_neg (by omega)]
      · rw [if_pos (by omega)]

/-- A read moves the front of the queue into the buffer, or changes neither; with room in the
buffer it moves nothing only at end-of-file. -/
theorem readat_cases (queue : List UInt8) (strongCount : Nat) (buffer : List UInt8) :
    (∃ n after, readat queue strongCount buffer = (.ok n, after, queue.drop n)
      ∧ after.take n = queue.take n
      ∧ (n = 0 → buffer ≠ [] → queue = [] ∧ strongCount = 0))
    ∨ readat queue strongCount buffer = (.error .EWOULDBLOCK, buffer, queue) := by
  unfold readat
  split
  · rename_i hempty
    refine .inl ⟨0, buffer, rfl, rfl, fun _ hne => ?_⟩
    exact absurd (List.isEmpty_iff.mp hempty) hne
  · rename_i hempty
    split
    · rename_i hqueue
      refine .inl ⟨_, _, rfl, ?_, fun hzero _ => ?_⟩
      · apply List.take_left'
        rw [List.length_take]
        omega
      · -- both the queue and the buffer have a byte
        have hbuffer : 0 < buffer.length :=
          List.length_pos_iff.mpr (fun h => hempty (List.isEmpty_iff.mpr h))
        omega
    · rename_i hqueue
      split
      · exact .inr rfl
      rename_i hsender
      refine .inl ⟨0, buffer, rfl, rfl, fun _ _ => ⟨?_, by omega⟩⟩
      exact List.eq_nil_of_length_eq_zero (by omega)

/-- A poll of a write future: it is ready with the whole write done, or pending with nothing
done. -/
theorem waitBlockingWrite_cases (queue buffer : List UInt8) :
    waitBlockingWrite queue buffer = (some (.ok buffer.length), queue ++ buffer)
      ∨ waitBlockingWrite queue buffer = (none, queue) := by
  unfold waitBlockingWrite
  rcases writeat_cases queue buffer with h | h
  · rw [h]
    exact .inl rfl
  · rw [h]
    exact .inr rfl

theorem waitBlockingRead_cases (queue : List UInt8) (strongCount : Nat) (buffer : List UInt8) :
    (∃ n after, waitBlockingRead queue strongCount buffer = (some (.ok n), after, queue.drop n)
      ∧ after.take n = queue.take n
      ∧ (n = 0 → buffer ≠ [] → queue = [] ∧ strongCount = 0))
    ∨ waitBlockingRead queue strongCount buffer = (none, buffer, queue) := by
  unfold waitBlockingRead
  rcases readat_cases queue strongCount buffer with ⟨n, after, h, hrest⟩ | h
  · rw [h]
    exact .inl ⟨n, after, rfl, hrest⟩
  · rw [h]
    exact .inr rfl

end Pipe

/-! ## A pipe in use -/

/-- A blocking call under way. -/
inductive PipeFuture where
  | read (buffer : List UInt8)
  | write (buffer : List UInt8)
  deriving DecidableEq

def PipeFuture.isWrite : PipeFuture → Bool
  | .write _ => true
  | .read _ => false

structure PipeSys where
  queue : List UInt8
  /-- the owners of the sender among the open files -/
  handles : Nat
  /-- the blocking calls under way, by their task -/
  futures : List (Nat × PipeFuture)
  deriving DecidableEq

inductive PipeCall where
  /-- `File::read`, and `File::async_read` with `O_NONBLOCK` -/
  | read (buffer : List UInt8)
  /-- `File::write`; the flag is `check_writeable` -/
  | write (writeable : Bool) (buffer : List UInt8)
  /-- `File::async_read` without `O_NONBLOCK` -/
  | asyncRead (tid : Nat) (buffer : List UInt8)
  | asyncWrite (tid : Nat) (buffer : List UInt8)
  | poll (tid : Nat)
  /-- the task goes away with its future -/
  | cancel (tid : Nat)
  | cloneSender
  | dropSender

/-- What a step completes, with the buffers as the caller sees them. -/
inductive PipeEvent where
  | wrote (buffer : List UInt8) (res : Except Errno Nat)
  | read (before after : List UInt8) (res : Except Errno Nat)
  | quiet

namespace PipeSys

/-- `create_pipe`. -/
def new : PipeSys := ⟨[], 1, []⟩

variable (s : PipeSys)

def strongCount : Nat := s.handles + s.futures.countP (·.2.isWrite)

def setFuture (tid : Nat) (future : PipeFuture) : List (Nat × PipeFuture) :=
  s.futures.map (fun x => if x.1 = tid then (tid, future) else x)

def dropFuture (tid : Nat) : List (Nat × PipeFuture) := s.futures.filter (·.1 ≠ tid)

/-- One poll of the future of task `tid`. -/
def poll (tid : Nat) : PipeFuture → PipeEvent × PipeSys
  | .read buffer =>
    match Pipe.waitBlockingRead s.queue s.strongCount buffer with
    | (none, buffer, queue) =>
      (.quiet, { s with queue := queue, futures := s.setFuture tid (.read buffer) })
    | (some res, after, queue) =>
      (.read buffer after res, { s with queue := queue, futures := s.dropFuture tid })
  | .write buffer =>
    match Pipe.waitBlockingWrite s.queue buffer with
    | (none, queue) => (.quiet, { s with queue := queue })
    | (some res, queue) => (.wrote buffer res, { s with queue := queue, futures := s.dropFuture tid })

/-- One step; `none` when there is nobody to take it. -/
def exec : PipeCall → Option (PipeEvent × PipeSys)
  | .read buffer =>
    let (res, after, queue) := Pipe.readat s.queue s.strongCount buffer
    some (.read buffer after res, { s with queue := queue })
  | .write writeable buffer =>
    if s.handles = 0 then none
    else if !writeable then some (.wrote buffer (.error .EPERM), s)
    else if buffer.length = 0 then some (.wrote buffer (.ok 0), s)
    else
      let (res, queue) := Pipe.writeat s.queue buffer
      some (.wrote buffer res, { s with queue := queue })
  | .asyncRead tid buffer =>
    if (s.futures.lookup tid).isSome then none
    else some (.quiet, { s with futures := (tid, .read buffer) :: s.futures })
  | .asyncWrite tid buffer =>
    if s.handles = 0 ∨ (s.futures.lookup tid).isSome then none
    else if buffer.length = 0 then some (.wrote buffer (.ok 0), s)
    else some (.quiet, { s with futures := (tid, .write buffer) :: s.futures })
  | .poll tid => (s.futures.lookup tid).map (s.poll tid)
  | .cancel tid => some (.quiet, { s with futures := s.dropFuture tid })
  | .cloneSender => if s.handles = 0 then none else some (.quiet, { s with handles := s.handles + 1 })
  | .dropSender => if s.handles = 0 then none else some (.quiet, { s with handles := s.handles - 1 })

end PipeSys

/-- What a step may do to the queue, by what it completes. -/
def PipeEvent.Sound (s t : PipeSys) : PipeEvent → Prop
  | .wrote buffer res =>
    (res = .ok buffer.length ∧ t.queue = s.queue ++ buffer)
      ∨ (∃ e, res = .error e) ∧ t.queue = s.queue
  | .read before after res =>
    (∃ n, res = .ok n ∧ s.queue = after.take n ++ t.queue
      ∧ (n = 0 → before ≠ [] → s.queue = [] ∧ s.strongCount = 0))
      ∨ (∃ e, res = .error e) ∧ t.queue = s.queue
  | .quiet => t.queue = s.queue

section Sound

variable {s t : PipeSys} {before after buffer : List UInt8} {n : Nat}

/-- A read that has taken the front of the queue. -/
theorem PipeEvent.sound_read (htake : after.take n = s.queue.take n)
    (hdrop : t.queue = s.queue.drop n)
    (heof : n = 0 → before ≠ [] → s.queue = [] ∧ s.strongCount = 0) :
    (PipeEvent.read before after (.ok n)).Sound s t := by
  refine .inl ⟨n, rfl, ?_, heof⟩
  rw [htake, hdrop]
  exact (List.take_append_drop n s.queue).symm

/-- A write of nothing. -/
theorem PipeEvent.sound_wrote_nil (hzero : buffer.length = 0) :
    (PipeEvent.wrote buffer (.ok 0)).Sound s s := by
  rw [List.eq_nil_of_length_eq_zero hzero]
  exact .inl ⟨rfl, (List.append_nil _).symm⟩

end Sound

namespace PipeSys

variable {s t : PipeSys} {call : PipeCall} {event : PipeEvent}

theorem poll_sound (s : PipeSys) (tid : Nat) (future : PipeFuture) :
    (s.poll tid future).1.Sound s (s.poll tid future).2 := by
  cases future with
  | read buffer =>
    rcases Pipe.waitBlockingRead_cases s.queue s.strongCount buffer with
      ⟨n, after, h, htake, heof⟩ | h
    · simp only [poll, h]
      exact PipeEvent.sound_read htake rfl heof
    · simp only [poll, h, PipeEvent.Sound]
  | write buffer =>
    rcases Pipe.waitBlockingWrite_cases s.queue buffer with h | h
    · simp only [poll, h]
      exact .inl ⟨rfl, rfl⟩
    · simp only [poll, h, PipeEvent.Sound]

theorem write_sound {writeable : Bool} {buffer : List UInt8}
    (h : s.exec (.write writeable buffer) = some (event, t)) : event.Sound s t := by
  simp only [exec, Option.ite_none_left_eq_some] at h
  obtain ⟨-, h⟩ := h
  split at h
  · cases h
    exact .inr ⟨⟨_, rfl⟩, rfl⟩
  split at h
  · rename_i hzero
    cases h
    exact PipeEvent.sound_wrote_nil hzero
  · rcases Pipe.writeat_cases s.queue buffer with hwrite | hwrite
    · rw [hwrite] at h
      cases h
      exact .inl ⟨rfl, rfl⟩
    · rw [hwrite] at h
      cases h
      exact .inr ⟨⟨_, rfl⟩, rfl⟩

theorem exec_sound (h : s.exec call = some (event, t)) : event.Sound s t := by
  cases call with
  | read buffer =>
    unfold exec at h
    rcases Pipe.readat_cases s.queue s.strongCount buffer with ⟨n, after, hread, htake, heof⟩ | hread
    · simp only [hread] at h
      cases h
      exact PipeEvent.sound_read htake rfl heof
    · simp only [hread] at h
      cases h
      exact .inr ⟨⟨_, rfl⟩, rfl⟩
  | write writeable buffer => exact write_sound h
  | asyncRead tid buffer =>
    simp only [exec, Option.ite_none_left_eq_some] at h
    obtain ⟨-, h⟩ := h
    cases h
    rfl
  | asyncWrite tid buffer =>
    simp only [exec, Option.ite_none_left_eq_some] at h
    obtain ⟨-, h⟩ := h
    split at h
    · rename_i hzero
      cases h
      exact PipeEvent.sound_wrote_nil hzero
    · cases h
      rfl
  | poll tid =>
    obtain ⟨future, -, hpoll⟩ := Option.map_eq_some_iff.mp h
    have hsound := s.poll_sound tid future
    rw [hpoll] at hsound
    exact hsound
  | cancel tid =>
    -- a future that is dropped has moved no bytes
    cases h
    rfl
  | cloneSender =>
    simp only [exec, Option.ite_none_left_eq_some] at h
    obtain ⟨-, h⟩ := h
    cases h
    rfl
  | dropSender =>
    simp only [exec, Option.ite_none_left_eq_some] at h
    obtain ⟨-, h⟩ := h
    cases h
    rfl

end PipeSys

/-! ## The byte stream -/

def PipeStep (s : PipeSys) (event : PipeEvent) (t : PipeSys) : Prop :=
  ∃ call, s.exec call = some (event, t)

/-- The bytes a completed write has put into the pipe. -/
def PipeEvent.accepted : PipeEvent → List UInt8
  | .wrote buffer (.ok _) => buffer
  | _ => []

/-- The bytes a completed read has given out. -/
def PipeEvent.returned : PipeEvent → List UInt8
  | .read _ after (.ok n) => after.take n
  | _ => []

theorem PipeEvent.Sound.flow {s t : PipeSys} {event : PipeEvent} (h : event.Sound s t) :
    s.queue ++ event.accepted = event.returned ++ t.queue := by
  cases event with
  | wrote buffer res =>
    rcases h with ⟨rfl, hqueue⟩ | ⟨⟨e, rfl⟩, hqueue⟩
    · exact hqueue.symm
    · exact (List.append_nil _).trans hqueue.symm
  | read before after res =>
    rcases h with ⟨n, rfl, hqueue, -⟩ | ⟨⟨e, rfl⟩, hqueue⟩
    · exact (List.append_nil _).trans hqueue
    · exact (List.append_nil _).trans hqueue.symm
  | quiet => exact (List.append_nil _).trans (Eq.symm h)

/-- **The byte stream of a pipe.** After any run, what the completed reads returned followed by
the queue is what the completed writes carried, in order of completion. Of the next step: a write
is done whole or not at all, a step that completes nothing leaves the queue alone, and a read
into a non-empty buffer answers 0 only when every accepted byte has been read and no sender is
left. -/
theorem pipe_byte_stream {events : List PipeEvent} {s : PipeSys}
    (hrun : Run PipeStep PipeSys.new events s) :
    events.flatMap PipeEvent.returned ++ s.queue = events.flatMap PipeEvent.accepted
    ∧ ∀ event t, PipeStep s event t →
      (∀ buffer res, event = .wrote buffer res →
        (res = .ok buffer.length ∧ t.queue = s.queue ++ buffer)
          ∨ (∃ e, res = .error e) ∧ t.queue = s.queue)
      ∧ (event = .quiet → t.queue = s.queue)
      ∧ ∀ before after, event = .read before after (.ok 0) → before ≠ [] →
        events.flatMap PipeEvent.returned = events.flatMap PipeEvent.accepted
          ∧ s.strongCount = 0 := by
  have hflow := hrun.flow PipeSys.queue
    (fun _ _ _ ⟨_, hexec⟩ => (PipeSys.exec_sound hexec).flow)
  rw [show PipeSys.new.queue = [] from rfl, List.nil_append] at hflow
  refine ⟨hflow.symm, fun event t ⟨call, hexec⟩ => ?_⟩
  have hsound := PipeSys.exec_sound hexec
  refine ⟨?_, ?_, ?_⟩
  · rintro buffer res rfl
    exact hsound
  · rintro rfl
    exact hsound
  · rintro before after rfl hbefore
    rcases hsound with ⟨n, hn, -, heof⟩ | ⟨⟨e, he⟩, -⟩
    · cases hn
      obtain ⟨hqueue, hcount⟩ := heof rfl hbefore
      rw [hqueue, List.append_nil] at hflow
      exact ⟨hflow.symm, hcount⟩
    · cases he

/-- A read that waits, a write that completes first, and the read's next poll. -/
theorem pipe_byte_stream_reader_waits :
    ∃ (events : List PipeEvent) (s : PipeSys),
      events = [.quiet, .quiet, .quiet, .wrote [1, 2, 3] (.ok 3), .read [0, 0] [1, 2] (.ok 2)]
      ∧ s.queue = [3]
      ∧ Run PipeStep PipeSys.new events s
      ∧ events.flatMap PipeEvent.returned ++ s.queue = events.flatMap PipeEvent.accepted := by
  have hrun : Run PipeStep PipeSys.new
      [.quiet, .quiet, .quiet, .wrote [1, 2, 3] (.ok 3), .read [0, 0] [1, 2] (.ok 2)]
      ⟨[3], 1, []⟩ :=
    .cons ⟨.asyncRead 7 [0, 0], rfl⟩ (.cons ⟨.poll 7, rfl⟩ (.cons ⟨.asyncWrite 3 [1, 2, 3], rfl⟩
      (.cons ⟨.poll 3, rfl⟩ (.cons ⟨.poll 7, rfl⟩ (.nil _)))))
  exact ⟨_, _, rfl, rfl, hrun, (pipe_byte_stream hrun).1⟩

end MonkeyOS
