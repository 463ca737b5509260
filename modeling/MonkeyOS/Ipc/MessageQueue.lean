import MonkeyOS.Lib.First
import MonkeyOS.Lib.Run
import MonkeyOS.Basic

/-!
# MonkeyOS — System V message queues (`MessageQueue` of `kernel/src/syscall/shm.rs`)

A queue keeps its messages in the order they were sent, and beside them a count of their bytes. Which
message a receiver gets is decided by three rules of different shape: the front of the queue, the
first match of a type, and the first of the least type up to a bound.

* `Message.Wanted` — the three rules as one predicate: a receiver gets the first wanted message
  (`Takes`);
* `position_spec`, `position_none` — that is what the three searches of the code find;
* `receiveMessage_cases` — everything a receive can do;
* `SysV.Step` — the reference queue: a list of messages, without a count;
* `messageQueue_refines` — every run of the code's queue is a run of the reference, and the count is
  right throughout.
-/

namespace MonkeyOS

open Lib

structure Message where
  mtype : Int64
  mtext : List UInt8
  deriving DecidableEq

structure MessageQueue where
  key : Nat
  messages : List Message
  maxBytes : Nat
  currentBytes : Nat
  maxMessages : Nat
  deriving DecidableEq

namespace MessageQueue

def new (key : Nat) : MessageQueue :=
  { key := key
    messages := []
    maxBytes := 16384 -- `MSGMNB`
    currentBytes := 0
    maxMessages := 40 }

/-- The sum does not wrap: a `Vec` is shorter than `2 ^ 63`. -/
def canSend (q : MessageQueue) (msgSize : Nat) : Bool :=
  decide (q.messages.length < q.maxMessages) && decide (q.currentBytes + msgSize ≤ q.maxBytes)

def sendMessage (q : MessageQueue) (mtype : Int64) (data : List UInt8) : Bool × MessageQueue :=
  if q.canSend data.length then
    (true, { q with
      currentBytes := q.currentBytes + data.length
      messages := q.messages ++ [⟨mtype, data⟩] })
  else (false, q)

/-- The place of the message that `receive_message` takes. -/
def position (q : MessageQueue) (mtype : Int64) (except : Bool) : Option Nat :=
  if mtype = 0 then
    if q.messages.isEmpty then none else some 0
  else if 0 < mtype then
    q.messages.findIdx? (fun msg => if except then msg.mtype != mtype else msg.mtype == mtype)
  else
    -- negation wraps at `i64::MIN`
    let absType := -mtype
    (@List.argmin _ _ Int.instLinearOrder.toPreorder Int.instLinearOrder.toDecidableLT
      (fun x : Message × Nat => x.1.mtype.toInt)
      (q.messages.zipIdx.filter (fun x => decide (x.1.mtype ≤ absType)))).map Prod.snd

def receiveMessage (q : MessageQueue) (mtype : Int64) (except : Bool) :
    Option Message × MessageQueue :=
  match q.position mtype except with
  | some index =>
    match q.messages[index]? with
    | some msg =>
      (some msg, { q with
        messages := q.messages.eraseIdx index
        currentBytes := q.currentBytes - msg.mtext.length })
    -- `Vec::remove` past the end: the place found is never there (`position_spec`)
    | none => (none, q)
  | none => (none, q)

end MessageQueue

/-! ## Which message a receiver gets -/

namespace Message

/-- The message is of a type that a receiver of `mtype` accepts; `bound` is the greatest type
accepted by a receiver of a negative one. -/
def Qualifies (bound : Int) (mtype : Int64) (except : Bool) (msg : Message) : Prop :=
  if mtype = 0 then True
  else if 0 < mtype then if except then msg.mtype ≠ mtype else msg.mtype = mtype
  else msg.mtype.toInt ≤ bound

/-- It is one the receiver may get: for a negative type, no other message of the queue that
qualifies has a smaller type. -/
def Wanted (bound : Int) (mtype : Int64) (except : Bool) (msgs : List Message) (msg : Message) :
    Prop :=
  msg.Qualifies bound mtype except
    ∧ (mtype < 0 → ∀ other ∈ msgs, other.Qualifies bound mtype except →
        msg.mtype.toInt ≤ other.mtype.toInt)

end Message

/-- The receiver gets the oldest wanted message, and the others keep their order. -/
def Takes (bound : Int) (mtype : Int64) (except : Bool) (msgs : List Message) (msg : Message)
    (rest : List Message) : Prop :=
  ∃ pre post, msgs = pre ++ msg :: post ∧ rest = pre ++ post
    ∧ msg.Wanted bound mtype except msgs ∧ ∀ m ∈ pre, ¬ m.Wanted bound mtype except msgs

section Selection

variable {q : MessageQueue} {mtype : Int64} {except : Bool}

variable {msg : Message} {bound : Int}

theorem Message.wanted_of_nonneg {msgs : List Message} (h : ¬ mtype < 0) :
    msg.Wanted bound mtype except msgs ↔ msg.Qualifies bound mtype except :=
  ⟨fun hw => hw.1, fun hq => ⟨hq, fun hneg => absurd hneg h⟩⟩

theorem Message.qualifies_of_pos (h0 : mtype ≠ 0) (h : 0 < mtype) :
    msg.Qualifies bound mtype except
      ↔ (if except then msg.mtype != mtype else msg.mtype == mtype) = true := by
  unfold Message.Qualifies
  rw [if_neg h0, if_pos h]
  cases except <;> simp

theorem Message.qualifies_of_neg (h0 : mtype ≠ 0) (h : ¬ 0 < mtype) :
    msg.Qualifies bound mtype except ↔ msg.mtype.toInt ≤ bound := by
  unfold Message.Qualifies
  rw [if_neg h0, if_neg h]

theorem neg_of_not_pos (h0 : mtype ≠ 0) (h : ¬ 0 < mtype) : mtype < 0 := by
  have hne : mtype.toInt ≠ 0 := fun heq => h0 (Int64.toInt_inj.mp heq)
  rw [Int64.lt_iff_toInt_lt] at h ⊢
  have hzero : (0 : Int64).toInt = 0 := rfl
  omega

/-- What the code searches for is the first wanted message, up to the machine's `-mtype`. -/
theorem position_spec {i : Nat} (h : q.position mtype except = some i) :
    ∃ msg, FirstAt (fun m => m.Wanted (-mtype).toInt mtype except q.messages) q.messages i msg := by
  unfold MessageQueue.position at h
  split at h
  · rename_i h0
    split at h
    · cases h
    cases h
    cases hq : q.messages with
    | nil => simp [hq] at *
    | cons msg rest =>
      have hnot : ¬ mtype < 0 := by rw [h0]; decide
      refine ⟨msg, [], rest, rfl, rfl, (Message.wanted_of_nonneg hnot).mpr ?_, by simp⟩
      rw [Message.Qualifies, if_pos h0]
      trivial
  · rename_i h0
    split at h
    · rename_i hpos
      have hnot : ¬ mtype < 0 := by
        rw [Int64.lt_iff_toInt_lt] at hpos ⊢
        omega
      obtain ⟨msg, hfirst⟩ := firstAt_of_findIdx? h
      refine ⟨msg, ?_⟩
      simpa only [Message.wanted_of_nonneg hnot, Message.qualifies_of_pos h0 hpos] using hfirst
    · rename_i hpos
      obtain ⟨⟨msg, j⟩, hmin, rfl⟩ := Option.map_eq_some_iff.mp h
      have hneg := neg_of_not_pos h0 hpos
      refine ⟨msg, ?_⟩
      have hfirst := @firstAt_of_argmin _ _ _ _ Int.instLinearOrder
        (fun m : Message => m.mtype.toInt) (fun m => decide (m.mtype ≤ -mtype)) _ hmin
      simpa only [Message.Wanted, Message.qualifies_of_neg h0 hpos, hneg, true_imp_iff,
        decide_eq_true_eq, Int64.le_iff_toInt_le] using hfirst

/-- When the search finds nothing, no message qualifies. -/
theorem position_none (h : q.position mtype except = none) :
    ∀ m ∈ q.messages, ¬ m.Qualifies (-mtype).toInt mtype except := by
  intro m hm
  unfold MessageQueue.position at h
  split at h
  · split at h
    · rename_i hempty
      rw [List.isEmpty_iff.mp hempty] at hm
      cases hm
    · cases h
  · rename_i h0
    split at h
    · rename_i hpos
      rw [Message.qualifies_of_pos h0 hpos]
      rw [List.findIdx?_eq_none_iff] at h
      rw [h m hm]
      exact Bool.false_ne_true
    · rename_i hpos
      rw [Message.qualifies_of_neg h0 hpos, ← Int64.le_iff_toInt_le]
      rw [Option.map_eq_none_iff, List.argmin_eq_none, List.filter_eq_nil_iff] at h
      obtain ⟨j, hj⟩ := List.mem_iff_getElem?.mp hm
      have := h (m, j) (List.mem_zipIdx_iff_getElem?.mpr hj)
      simpa using this

/-- **Everything a receive can do**: it takes the oldest wanted message, or finds none that
qualifies. -/
theorem receiveMessage_cases (q : MessageQueue) (mtype : Int64) (except : Bool) :
    (∃ msg rest, Takes (-mtype).toInt mtype except q.messages msg rest
        ∧ q.receiveMessage mtype except
          = (some msg, { q with
              messages := rest
              currentBytes := q.currentBytes - msg.mtext.length }))
      ∨ ((∀ m ∈ q.messages, ¬ m.Qualifies (-mtype).toInt mtype except)
        ∧ q.receiveMessage mtype except = (none, q)) := by
  unfold MessageQueue.receiveMessage
  cases hpos : q.position mtype except with
  | none => exact .inr ⟨position_none hpos, rfl⟩
  | some i =>
    obtain ⟨msg, pre, post, hmsgs, hlen, hwanted, hfront⟩ := position_spec hpos
    refine .inl ⟨msg, pre ++ post, ⟨pre, post, hmsgs, rfl, hwanted, hfront⟩, ?_⟩
    have hget : q.messages[i]? = some msg := by
      rw [hmsgs, ← hlen]
      simp
    have herase : q.messages.eraseIdx i = pre ++ post := by
      rw [hmsgs, ← hlen, List.eraseIdx_append_of_length_le (Nat.le_refl _), Nat.sub_self]
      rfl
    simp only [hget, herase]

end Selection

/-! ## The reference queue -/

/-- A call on a queue, with its answer. -/
inductive QueueCall where
  | send (mtype : Int64) (data : List UInt8) (accepted : Bool)
  | receive (mtype : Int64) (except : Bool) (taken : Option Message)

def bytesOf (msgs : List Message) : Nat := (msgs.map (·.mtext.length)).sum

theorem bytesOf_append (msgs more : List Message) :
    bytesOf (msgs ++ more) = bytesOf msgs + bytesOf more := by
  unfold bytesOf
  rw [List.map_append, List.sum_append]

theorem bytesOf_cons (msg : Message) (msgs : List Message) :
    bytesOf (msg :: msgs) = msg.mtext.length + bytesOf msgs := by
  unfold bytesOf
  rw [List.map_cons, List.sum_cons]

/-- The messages are within both limits. -/
def WithinLimits (maxMessages maxBytes : Nat) (msgs : List Message) : Prop :=
  msgs.length ≤ maxMessages ∧ bytesOf msgs ≤ maxBytes

/-- The reference queue is the list of its messages, oldest first. A receiver of a negative type
accepts the types up to its absolute value. -/
inductive SysV.Step (maxMessages maxBytes : Nat) :
    List Message → QueueCall → List Message → Prop where
  | accept {msgs : List Message} {mtype : Int64} {data : List UInt8}
      (hroom : WithinLimits maxMessages maxBytes (msgs ++ [⟨mtype, data⟩])) :
      SysV.Step maxMessages maxBytes msgs (.send mtype data true) (msgs ++ [⟨mtype, data⟩])
  | refuse {msgs : List Message} {mtype : Int64} {data : List UInt8}
      (hfull : ¬ WithinLimits maxMessages maxBytes (msgs ++ [⟨mtype, data⟩])) :
      SysV.Step maxMessages maxBytes msgs (.send mtype data false) msgs
  | take {msgs rest : List Message} {mtype : Int64} {except : Bool} {msg : Message}
      (htakes : Takes mtype.toInt.natAbs mtype except msgs msg rest) :
      SysV.Step maxMessages maxBytes msgs (.receive mtype except (some msg)) rest
  | nothing {msgs : List Message} {mtype : Int64} {except : Bool}
      (hnone : ∀ m ∈ msgs, ¬ m.Qualifies mtype.toInt.natAbs mtype except) :
      SysV.Step maxMessages maxBytes msgs (.receive mtype except none) msgs

/-! ## The code refines it -/

namespace MessageQueue

/-- One call on the code's queue. -/
def Step (q : MessageQueue) (call : QueueCall) (q' : MessageQueue) : Prop :=
  match call with
  | .send mtype data accepted => q.sendMessage mtype data = (accepted, q')
  | .receive mtype except taken => q.receiveMessage mtype except = (taken, q')

/-- The count of bytes is right, and both limits are kept. -/
structure Consistent (q : MessageQueue) : Prop where
  currentBytes : q.currentBytes = bytesOf q.messages
  within : WithinLimits q.maxMessages q.maxBytes q.messages

end MessageQueue

/-- A receive from any type but the least `i64`, whose absolute value is no `i64`. -/
def QueueCall.Ordinary : QueueCall → Prop
  | .send _ _ _ => True
  | .receive mtype _ _ => Int64.minValue < mtype

theorem toInt_neg_of_minValue_lt {t : Int64} (h : Int64.minValue < t) (hneg : t < 0) :
    (-t).toInt = t.toInt.natAbs := by
  rw [Int64.lt_iff_toInt_lt] at h hneg
  have hmin : Int64.minValue.toInt = -2 ^ 63 := by decide
  have hzero : (0 : Int64).toInt = 0 := rfl
  have hmod : (-t.toInt).bmod (2 ^ 64) = -t.toInt := by
    apply Int.bmod_eq_of_le <;> omega
  rw [Int64.toInt_neg, hmod]
  omega

variable {q : MessageQueue} {msgs rest : List Message} {except : Bool} {mtype : Int64}
  {msg : Message} {bound bound' : Int}

/-- The bound only matters for a negative type. -/
theorem Message.qualifies_congr (except : Bool) (msg : Message) (h : mtype < 0 → bound = bound') :
    msg.Qualifies bound mtype except ↔ msg.Qualifies bound' mtype except := by
  by_cases h0 : mtype = 0
  · simp only [Message.Qualifies, if_pos h0]
  by_cases hpos : 0 < mtype
  · simp only [Message.Qualifies, if_neg h0, if_pos hpos]
  · rw [h (neg_of_not_pos h0 hpos)]

theorem Takes.congr (h : mtype < 0 → bound = bound')
    (htakes : Takes bound mtype except msgs msg rest) :
    Takes bound' mtype except msgs msg rest := by
  simpa only [Takes, Message.Wanted, Message.qualifies_congr except _ h] using htakes

theorem Takes.perm (h : Takes bound mtype except msgs msg rest) : msgs.Perm (msg :: rest) := by
  obtain ⟨pre, post, rfl, rfl, -⟩ := h
  exact List.perm_middle

theorem Takes.length (h : Takes bound mtype except msgs msg rest) :
    msgs.length = rest.length + 1 :=
  h.perm.length_eq

theorem Takes.bytesOf (h : Takes bound mtype except msgs msg rest) :
    bytesOf msgs = msg.mtext.length + bytesOf rest := by
  rw [← bytesOf_cons]
  exact (h.perm.map _).sum_nat

/-- Both limits allow one more message exactly when `can_send` says so. -/
theorem canSend_iff (hq : q.Consistent) (mtype : Int64) (data : List UInt8) :
    q.canSend data.length = true
      ↔ WithinLimits q.maxMessages q.maxBytes (q.messages ++ [⟨mtype, data⟩]) := by
  have hbytes : bytesOf [⟨mtype, data⟩] = data.length := by simp [bytesOf]
  unfold MessageQueue.canSend WithinLimits
  rw [bytesOf_append, hbytes, hq.currentBytes, List.length_append, List.length_singleton]
  simp only [Bool.and_eq_true, decide_eq_true_eq]
  omega

/-- One call keeps the count right and is a call on the reference. -/
theorem messageQueue_step {q' : MessageQueue} {call : QueueCall} (hq : q.Consistent)
    (hcall : call.Ordinary) (h : q.Step call q') :
    q'.Consistent ∧ q'.maxMessages = q.maxMessages ∧ q'.maxBytes = q.maxBytes
      ∧ SysV.Step q.maxMessages q.maxBytes q.messages call q'.messages := by
  cases call with
  | send mtype data accepted =>
    have hroom := canSend_iff hq mtype data
    replace h : q.sendMessage mtype data = (accepted, q') := h
    unfold MessageQueue.sendMessage at h
    split at h
    · rename_i hcan
      cases h
      refine ⟨⟨?_, hroom.mp hcan⟩, rfl, rfl, .accept (hroom.mp hcan)⟩
      show q.currentBytes + data.length = bytesOf (q.messages ++ [⟨mtype, data⟩])
      rw [bytesOf_append, hq.currentBytes]
      simp [bytesOf]
    · rename_i hcan
      cases h
      exact ⟨hq, rfl, rfl, .refuse (fun hw => hcan (hroom.mpr hw))⟩
  | receive mtype except taken =>
    have hbound : mtype < 0 → (-mtype).toInt = mtype.toInt.natAbs :=
      toInt_neg_of_minValue_lt hcall
    replace h : q.receiveMessage mtype except = (taken, q') := h
    rcases receiveMessage_cases q mtype except with ⟨msg, rest, htakes, heq⟩ | ⟨hnone, heq⟩
    · rw [heq] at h
      cases h
      have hbytes := htakes.bytesOf
      have hlength := htakes.length
      refine ⟨⟨?_, ?_, ?_⟩, rfl, rfl, .take (htakes.congr hbound)⟩
      · show q.currentBytes - msg.mtext.length = MonkeyOS.bytesOf rest
        rw [hq.currentBytes, hbytes, Nat.add_sub_cancel_left]
      · show rest.length ≤ q.maxMessages
        have := hq.within.1
        omega
      · show MonkeyOS.bytesOf rest ≤ q.maxBytes
        have := hq.within.2
        omega
    · rw [heq] at h
      cases h
      refine ⟨hq, rfl, rfl, .nothing fun m hm => ?_⟩
      rw [← Message.qualifies_congr except m hbound]
      exact hnone m hm

theorem new_consistent (key : Nat) : (MessageQueue.new key).Consistent :=
  ⟨rfl, Nat.zero_le _, Nat.zero_le _⟩

/-- **The queue is the reference queue.** Any calls on a new queue leave its count of bytes right
and both limits kept, and they are calls on the reference with the same answers. -/
theorem messageQueue_refines {key : Nat} {calls : List QueueCall} {q : MessageQueue}
    (hcalls : ∀ call ∈ calls, call.Ordinary)
    (h : Run MessageQueue.Step (MessageQueue.new key) calls q) :
    q.Consistent ∧ q.maxMessages = 40 ∧ q.maxBytes = 16384
      ∧ Run (SysV.Step 40 16384) [] calls q.messages := by
  have hrefines : ∃ msgs, Run (SysV.Step 40 16384) [] calls msgs
      ∧ (q.Consistent ∧ q.maxMessages = 40 ∧ q.maxBytes = 16384 ∧ q.messages = msgs) := by
    apply (h.restrict hcalls).refines
      (R := fun s msgs => s.Consistent ∧ s.maxMessages = 40 ∧ s.maxBytes = 16384 ∧ s.messages = msgs)
    · exact ⟨new_consistent key, rfl, rfl, rfl⟩
    rintro s call s' msgs ⟨hs, hmax, hbytes, rfl⟩ ⟨hcall, hstep⟩
    obtain ⟨hs', hmax', hbytes', href⟩ := messageQueue_step hs hcall hstep
    rw [hmax, hbytes] at href
    exact ⟨s'.messages, href, hs', hmax'.trans hmax, hbytes'.trans hbytes, rfl⟩
  obtain ⟨msgs, hrun, hq, hmax, hbytes, rfl⟩ := hrefines
  exact ⟨hq, hmax, hbytes, hrun⟩

/-- Two messages of the least type: the older is taken first, although a third is older still. -/
theorem messageQueue_refines_tie :
    ∃ q, Run MessageQueue.Step (MessageQueue.new 7)
        [.send 3 [1, 2] true, .send 2 [3] true, .send 2 [4, 5, 6] true,
          .receive (-3) false (some ⟨2, [3]⟩), .receive 9 false none,
          .receive 2 true (some ⟨3, [1, 2]⟩)] q
      ∧ q.Consistent ∧ q.messages = [⟨2, [4, 5, 6]⟩] := by
  have hrun : Run MessageQueue.Step (MessageQueue.new 7)
      [.send 3 [1, 2] true, .send 2 [3] true, .send 2 [4, 5, 6] true,
        .receive (-3) false (some ⟨2, [3]⟩), .receive 9 false none,
        .receive 2 true (some ⟨3, [1, 2]⟩)] ⟨7, [⟨2, [4, 5, 6]⟩], 16384, 3, 40⟩ :=
    .cons rfl (.cons rfl (.cons rfl (.cons rfl (.cons rfl (.cons rfl (.nil _))))))
  refine ⟨_, hrun, (messageQueue_refines ?_ hrun).1, rfl⟩
  simp [QueueCall.Ordinary]
  decide

end MonkeyOS
