import MonkeyOS.Ipc.MessageQueue
import MonkeyOS.Lib.Bytes
import Mathlib.Logic.Function.Basic

/-!
# MonkeyOS — `sys_msgrcv` (`kernel/src/syscall/shm.rs`)

The call takes the message out of the queue first and looks at the pointer and at the size
afterwards. Both checks answer an error and neither puts the message back, so it is lost.

* `sysMsgrcv_cases` — everything the call can do;
* `MsgrcvLaw` — an error leaves the queues alone, and a success delivers the message it removes;
* `sysMsgrcv_law_iff` — the law holds exactly when no check fails for the message in question.
-/

namespace MonkeyOS

open Lib

/-- `MESSAGE_QUEUES` and the memory of the caller. -/
structure MsgState where
  queues : Nat → Option MessageQueue
  mem : ByteMem

structure MsgrcvArgs where
  msqid : Nat
  msgp : Nat
  msgsz : Nat
  msgtyp : Int64
  msgflg : Nat

/-- `MSG_EXCEPT`. -/
def MsgrcvArgs.except (a : MsgrcvArgs) : Bool := a.msgflg &&& 0o20000 != 0

/-- `MSG_NOERROR`. -/
def MsgrcvArgs.noerror (a : MsgrcvArgs) : Bool := a.msgflg &&& 0o10000 != 0

/-- What is written at `msgp`: the type, and as much of the text as there is room for. -/
def deliver (mem : ByteMem) (a : MsgrcvArgs) (message : Message) : ByteMem :=
  let mem := store mem a.msgp (leBytes 8 message.mtype.toUInt64.toNat)
  let dataLen := min message.mtext.length a.msgsz
  if dataLen > 0 then store mem ((a.msgp + 8) % 2 ^ 64) (message.mtext.take dataLen) else mem

def sysMsgrcv (s : MsgState) (a : MsgrcvArgs) : Except Errno Nat × MsgState :=
  match s.queues a.msqid with
  | none => (.error .EINVAL, s)
  | some queue =>
    match queue.receiveMessage a.msgtyp a.except with
    -- with `IPC_NOWAIT` and without
    | (none, queue) =>
      (.error .ENOMSG, { s with queues := Function.update s.queues a.msqid (some queue) })
    | (some message, queue) =>
      let s := { s with queues := Function.update s.queues a.msqid (some queue) }
      -- `msgp_ref.is_valid()`
      if a.msgp = 0 then (.error .EFAULT, s)
      else
        let s := { s with mem := deliver s.mem a message }
        if message.mtext.length > a.msgsz ∧ a.noerror = false then (.error .E2BIG, s)
        else (.ok (min message.mtext.length a.msgsz), s)

/-! ## What the call can do -/

/-- The queue and the message that the call is about: the oldest one wanted by the caller. -/
def MsgrcvArgs.Meets (a : MsgrcvArgs) (s : MsgState) (queue : MessageQueue) (message : Message)
    (rest : List Message) : Prop :=
  s.queues a.msqid = some queue
    ∧ Takes (-a.msgtyp).toInt a.msgtyp a.except queue.messages message rest

/-- The pointer is not null, and the message fits or may be cut. -/
def MsgrcvArgs.Accepts (a : MsgrcvArgs) (message : Message) : Prop :=
  a.msgp ≠ 0 ∧ (message.mtext.length ≤ a.msgsz ∨ a.noerror = true)

/-- The queues without the message. -/
def MsgState.taken (s : MsgState) (a : MsgrcvArgs) (queue : MessageQueue) (message : Message)
    (rest : List Message) : Nat → Option MessageQueue :=
  Function.update s.queues a.msqid (some { queue with
    messages := rest
    currentBytes := queue.currentBytes - message.mtext.length })

theorem sysMsgrcv_cases (s : MsgState) (a : MsgrcvArgs) :
    ((∀ queue message rest, ¬ a.Meets s queue message rest)
        ∧ ∃ e, sysMsgrcv s a = (.error e, s))
      ∨ ∃ queue message rest, a.Meets s queue message rest
        ∧ ((a.Accepts message ∧ sysMsgrcv s a
              = (.ok (min message.mtext.length a.msgsz),
                ⟨s.taken a queue message rest, deliver s.mem a message⟩))
          ∨ (¬ a.Accepts message ∧ ∃ e mem, sysMsgrcv s a
              = (.error e, ⟨s.taken a queue message rest, mem⟩))) := by
  unfold sysMsgrcv
  cases hqueue : s.queues a.msqid with
  | none =>
    refine .inl ⟨fun queue message rest hmeets => ?_, .EINVAL, rfl⟩
    rw [hmeets.1] at hqueue
    cases hqueue
  | some queue =>
    rcases receiveMessage_cases queue a.msgtyp a.except with
      ⟨message, rest, htakes, heq⟩ | ⟨hnone, heq⟩
    · refine .inr ⟨queue, message, rest, ⟨hqueue, htakes⟩, ?_⟩
      simp only [heq]
      by_cases hp : a.msgp = 0
      · rw [if_pos hp]
        exact .inr ⟨fun hacc => hacc.1 hp, .EFAULT, s.mem, rfl⟩
      rw [if_neg hp]
      by_cases hbig : message.mtext.length > a.msgsz ∧ a.noerror = false
      · rw [if_pos hbig]
        refine .inr ⟨fun hacc => ?_, .E2BIG, deliver s.mem a message, rfl⟩
        rcases hacc.2 with hfits | hflag
        · exact absurd hbig.1 (Nat.not_lt.mpr hfits)
        · rw [hbig.2] at hflag
          cases hflag
      · rw [if_neg hbig]
        refine .inl ⟨⟨hp, ?_⟩, rfl⟩
        by_cases hfits : message.mtext.length ≤ a.msgsz
        · exact .inl hfits
        · exact .inr (by simpa [Nat.lt_of_not_le hfits] using hbig)
    · refine .inl ⟨fun other message rest hmeets => ?_, .ENOMSG, ?_⟩
      · obtain ⟨hother, pre, post, hmsgs, -, hwanted, -⟩ := hmeets
        rw [hqueue] at hother
        cases hother
        exact hnone message (by rw [hmsgs]; simp) hwanted.1
      · simp only [heq]
        rw [← hqueue, Function.update_eq_self]

/-- The oldest wanted message is one message. -/
theorem Takes.unique {bound : Int} {mtype : Int64} {except : Bool} {msgs rest rest' : List Message}
    {msg msg' : Message} (h : Takes bound mtype except msgs msg rest)
    (h' : Takes bound mtype except msgs msg' rest') : msg = msg' := by
  classical
  have hfind : ∀ {m r}, Takes bound mtype except msgs m r →
      msgs.find? (fun x => decide (x.Wanted bound mtype except msgs)) = some m := by
    rintro m r ⟨pre, post, hmsgs, -, hwanted, hfront⟩
    refine List.find?_eq_some_iff_append.mpr ⟨by simpa using hwanted, pre, post, hmsgs, ?_⟩
    intro x hx
    simpa using hfront x hx
  exact Option.some.inj ((hfind h).symm.trans (hfind h'))

/-! ## The law -/

/-- An error leaves every queue as it was. A success removes one message and stores its type and its
first `n` bytes, all of them unless the caller allows a cut. -/
def MsgrcvLaw (s : MsgState) (a : MsgrcvArgs) : Except Errno Nat × MsgState → Prop
  | (.error _, t) => t.queues = s.queues
  | (.ok n, t) => ∃ queue queue' pre message post,
      s.queues a.msqid = some queue ∧ t.queues = Function.update s.queues a.msqid (some queue')
        ∧ queue.messages = pre ++ message :: post ∧ queue'.messages = pre ++ post
        ∧ Holds t.mem a.msgp (leBytes 8 message.mtype.toUInt64.toNat)
        ∧ Holds t.mem ((a.msgp + 8) % 2 ^ 64) (message.mtext.take n)
        ∧ n = if a.noerror then min message.mtext.length a.msgsz else message.mtext.length

/-- The text does not reach the type again, even where the addresses wrap. -/
theorem deliver_holds (mem : ByteMem) {a : MsgrcvArgs} {message : Message} (hp : a.msgp < 2 ^ 64)
    (hvec : message.mtext.length < 2 ^ 63) :
    Holds (deliver mem a message) a.msgp (leBytes 8 message.mtype.toUInt64.toNat)
      ∧ Holds (deliver mem a message) ((a.msgp + 8) % 2 ^ 64)
          (message.mtext.take (min message.mtext.length a.msgsz)) := by
  have hstored : ∀ (mem : ByteMem) addr bytes, Holds (store mem addr bytes) addr bytes := by
    intro mem addr bytes i b hb
    rw [store_at, hb]
    rfl
  dsimp only [deliver]
  split
  · refine ⟨fun i b hb => ?_, hstored _ _ _⟩
    have hi := (List.getElem?_eq_some_iff.mp hb).1
    rw [length_leBytes] at hi
    have hlen := List.length_take_le (min message.mtext.length a.msgsz) message.mtext
    rw [store_outside (by omega)]
    exact hstored mem _ _ i b hb
  · rename_i hzero
    refine ⟨hstored _ _ _, fun i b hb => ?_⟩
    rw [Nat.eq_zero_of_not_pos hzero] at hb
    simp at hb

/-- **No message is lost exactly when no check fails**: for every queue and call, the law holds if and
only if the message in question, if there is one, is accepted. -/
theorem sysMsgrcv_law_iff {s : MsgState} {a : MsgrcvArgs} (hp : a.msgp < 2 ^ 64)
    (hvec : ∀ queue, s.queues a.msqid = some queue →
      ∀ message ∈ queue.messages, message.mtext.length < 2 ^ 63) :
    MsgrcvLaw s a (sysMsgrcv s a)
      ↔ ∀ queue message rest, a.Meets s queue message rest → a.Accepts message := by
  rcases sysMsgrcv_cases s a with ⟨hnone, e, heq⟩ | ⟨queue, message, rest, hmeets, hcase⟩
  · rw [heq]
    refine ⟨fun _ queue message rest hmeets => absurd hmeets (hnone queue message rest), fun _ => ?_⟩
    show s.queues = s.queues
    rfl
  · have hone : (∀ queue message rest, a.Meets s queue message rest → a.Accepts message)
        ↔ a.Accepts message := by
      refine ⟨fun h => h queue message rest hmeets, fun hacc queue' message' rest' hmeets' => ?_⟩
      obtain ⟨hqueue', htakes'⟩ := hmeets'
      rw [hmeets.1] at hqueue'
      cases hqueue'
      rwa [← hmeets.2.unique htakes']
    rw [hone]
    obtain ⟨hqueue, pre, post, hmsgs, hrest, -⟩ := id hmeets
    rcases hcase with ⟨hacc, heq⟩ | ⟨hacc, e, mem, heq⟩
    · rw [heq]
      refine ⟨fun _ => hacc, fun _ => ?_⟩
      have hmem : message ∈ queue.messages := by rw [hmsgs]; simp
      obtain ⟨htype, htext⟩ := deliver_holds s.mem hp (hvec queue hqueue message hmem)
      refine ⟨queue, _, pre, message, post, hqueue, rfl, hmsgs, hrest, htype, htext, ?_⟩
      cases hflag : a.noerror with
      | true => rfl
      | false =>
        have hfits : message.mtext.length ≤ a.msgsz := by simpa [hflag] using hacc.2
        exact Nat.min_eq_left hfits
    · rw [heq]
      refine ⟨fun hlaw => ?_, fun h => absurd h hacc⟩
      -- the queue is shorter than it was
      replace hlaw : s.taken a queue message rest = s.queues := hlaw
      have hsame := congrFun hlaw a.msqid
      rw [MsgState.taken, Function.update_self, hqueue, Option.some.injEq] at hsame
      have hlen := hmeets.2.length
      rw [← hsame] at hlen
      simp at hlen

/-- One queue with one message of five bytes. -/
def oneMessage : MsgState :=
  ⟨fun id => if id = 1001 then some ⟨1001, [⟨4, [1, 2, 3, 4, 5]⟩], 16384, 5, 40⟩ else none, fun _ => 0⟩

/-- With a buffer of five bytes the message is delivered. -/
theorem sysMsgrcv_law_iff_fits :
    MsgrcvLaw oneMessage ⟨1001, 0x10000, 5, 0, 0⟩ (sysMsgrcv oneMessage ⟨1001, 0x10000, 5, 0, 0⟩) := by
  refine (sysMsgrcv_law_iff (by decide) ?_).mpr ?_
  · intro queue hqueue message hmem
    cases hqueue
    cases List.mem_singleton.mp hmem
    decide
  · rintro queue message rest ⟨hqueue, pre, post, hmsgs, -⟩
    cases hqueue
    replace hmsgs : [⟨4, [1, 2, 3, 4, 5]⟩] = pre ++ message :: post := hmsgs
    have hmem : message ∈ [⟨4, [1, 2, 3, 4, 5]⟩] := by rw [hmsgs]; simp
    cases List.mem_singleton.mp hmem
    exact ⟨by decide, .inl (by decide)⟩

/-- With a buffer of four the call fails and the message is gone. -/
theorem sysMsgrcv_loses_message :
    (sysMsgrcv oneMessage ⟨1001, 0x10000, 4, 0, 0⟩).1 = .error .E2BIG
      ∧ ((sysMsgrcv oneMessage ⟨1001, 0x10000, 4, 0, 0⟩).2.queues 1001).map (fun q => q.messages)
          = some []
      ∧ ¬ MsgrcvLaw oneMessage ⟨1001, 0x10000, 4, 0, 0⟩
          (sysMsgrcv oneMessage ⟨1001, 0x10000, 4, 0, 0⟩) := by
  refine ⟨rfl, rfl, fun hlaw => ?_⟩
  have hsame := congrFun hlaw 1001
  cases hsame

end MonkeyOS
