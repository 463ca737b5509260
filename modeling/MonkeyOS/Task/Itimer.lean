import Mathlib.Tactic.Common
import MonkeyOS.Basic

/-!
# MonkeyOS — the interval timer (`kernel/src/syscall/time.rs`, `kernel/src/user/entry.rs`)

`sys_setitimer` stores when the timer is due, as seconds and microseconds, and `check_timer` compares
that with the clock. `next` is compared with `last` to tell an armed timer from one that has fired.

* `Alarm` — the abstract timer: a deadline in microseconds, which goes away when it is reached;
* `Follows` — the two states, along a run; `follows_step`, one event keeps them together if both give
  the same answer, and they do unless the check comes too early;
* `itimer_between` — a run of the timer is a run of the alarm exactly if no check comes in the gap
  between a full second and a deadline behind it.

The sum of the microseconds carries at 10^9 instead of 10^6. A deadline with more than a million
microseconds is then reached with the next full second.
-/

namespace MonkeyOS

structure TimeVal where
  sec : Nat
  usec : Nat
  deriving DecidableEq

namespace TimeVal

/-- `Add for TimeVal`, on machine words. -/
def add (self rhs : TimeVal) : TimeVal :=
  let nsec := (self.usec + rhs.usec) % 2 ^ 64
  ⟨(self.sec + rhs.sec + nsec / 1000000000) % 2 ^ 64, nsec % 1000000000⟩

/-- `partial_cmp`. -/
def partialCmp (self other : TimeVal) : Ordering :=
  if self.sec > other.sec then .gt
  else if self.sec < other.sec then .lt
  else if self.usec > other.usec then .gt
  else if self.usec < other.usec then .lt
  else .eq

def gt (self other : TimeVal) : Bool := self.partialCmp other == .gt

def ge (self other : TimeVal) : Bool := self.partialCmp other != .lt

def default : TimeVal := ⟨0, 0⟩

def micros (t : TimeVal) : Nat := t.sec * 1000000 + t.usec

end TimeVal

structure ITimerVal where
  interval : TimeVal
  value : TimeVal
  deriving DecidableEq

structure ProcessTimer where
  timer : ITimerVal
  next : TimeVal
  last : TimeVal
  deriving DecidableEq

namespace ProcessTimer

def default : ProcessTimer := ⟨⟨.default, .default⟩, .default, .default⟩

end ProcessTimer

/-- `current_timeval`, when the clock is at `ns`. -/
def currentTimeval (ns : Nat) : TimeVal := ⟨ns / 1000000000, ns % 1000000000 / 1000⟩

/-- `sys_setitimer`, with what `times_ptr` points to after the store to `old_timer_ptr`; the answer, what
that store is, and the timer. -/
def sysSetitimer (timer : ProcessTimer) (which : Nat) (new : Option ITimerVal) (ns : Nat) :
    Except Errno Nat × Option ITimerVal × ProcessTimer :=
  if which = 0 then
    match new with
    | none => (.ok 0, some timer.timer, timer)
    | some new =>
      if new.value.sec = 0 ∧ new.value.usec = 0 then
        (.ok 0, some timer.timer, ⟨new, .default, .default⟩)
      else (.ok 0, some timer.timer, ⟨new, (currentTimeval ns).add new.value, timer.last⟩)
  else (.error .EPERM, none, timer)

/-- `check_timer`: whether `SIGALRM` is added, and the timer. -/
def checkTimer (timer : ProcessTimer) (ns : Nat) : Bool × ProcessTimer :=
  if timer.next.gt timer.last && (currentTimeval ns).ge timer.next then
    (true, { timer with last := timer.next })
  else (false, timer)

/-! ## Runs, and what they should be -/

inductive TimerEvent where
  | setitimer (which : Nat) (new : Option ITimerVal) (ns : Nat)
  | check (ns : Nat)
  deriving DecidableEq

namespace TimerEvent

def ns : TimerEvent → Nat
  | setitimer _ _ ns => ns
  | check ns => ns

/-- A setting of the timer: when, and by how much. -/
def setting : TimerEvent → Option (TimeVal × TimeVal)
  | setitimer 0 (some new) ns => some (currentTimeval ns, new.value)
  | _ => none

end TimerEvent

def ProcessTimer.step (timer : ProcessTimer) : TimerEvent → Bool × ProcessTimer
  | .setitimer which new ns => (false, (sysSetitimer timer which new ns).2.2)
  | .check ns => checkTimer timer ns

/-- At which events `SIGALRM` is added. -/
def ProcessTimer.run (timer : ProcessTimer) : List TimerEvent → List Bool
  | [] => []
  | e :: es => (timer.step e).1 :: (timer.step e).2.run es

/-- The deadline of a timer that is set, in microseconds. -/
abbrev Alarm := Option Nat

def Alarm.step (alarm : Alarm) (e : TimerEvent) : Bool × Alarm :=
  match e with
  | .check ns =>
    match alarm with
    | none => (false, none)
    | some deadline =>
      if deadline ≤ (currentTimeval ns).micros then (true, none) else (false, some deadline)
  | e =>
    match e.setting with
    | none => (false, alarm)
    | some (t, value) => (false, if value = .default then none else some (t.micros + value.micros))

def Alarm.run (alarm : Alarm) : List TimerEvent → List Bool
  | [] => []
  | e :: es => (alarm.step e).1 :: Alarm.run (alarm.step e).2 es

/-- The times do not go back. -/
def Ordered : Nat → List TimerEvent → Prop
  | _, [] => True
  | now, e :: es => now ≤ e.ns ∧ Ordered e.ns es

/-- What is assumed of a setting. -/
def Microseconds (events : List TimerEvent) : Prop :=
  ∀ e ∈ events, ∀ t value, e.setting = some (t, value) → value.usec < 1000000

/-! ## Checks that come too early -/

/-- The seconds do not wrap. -/
def Plain (set : TimeVal × TimeVal) : Prop := set.1.sec + set.2.sec < 2 ^ 64

/-- The clock has come to the second behind the sum of the seconds, and not to the deadline. -/
def Early (set : TimeVal × TimeVal) (now : TimeVal) : Prop :=
  now.sec = set.1.sec + set.2.sec + 1 ∧ now.micros < set.1.micros + set.2.micros

/-- The event is not a check that is too early for the setting in force. -/
def NoEarlyAt (set : Option (TimeVal × TimeVal)) (e : TimerEvent) : Prop :=
  ∀ ns x, e = .check ns → set = some x → x.2 ≠ .default → Plain x → ¬ Early x (currentTimeval ns)

def NoEarly : Option (TimeVal × TimeVal) → List TimerEvent → Prop
  | _, [] => True
  | set, e :: es => NoEarlyAt set e ∧ NoEarly (e.setting <|> set) es

/-! ## Times -/

namespace TimeVal

variable {a b c : TimeVal}

theorem gt_iff : a.gt b ↔ b.sec < a.sec ∨ a.sec = b.sec ∧ b.usec < a.usec := by
  unfold gt partialCmp
  split
  · simp
    omega
  split
  · simp
    omega
  split
  · simp
    omega
  split
  · simp
    omega
  · simp
    omega

theorem ge_iff : a.ge b ↔ b.sec < a.sec ∨ a.sec = b.sec ∧ b.usec ≤ a.usec := by
  unfold ge partialCmp
  split
  · simp
    omega
  split
  · simp
    omega
  split
  · simp
    omega
  split
  · simp
    omega
  · simp
    omega

/-- The sum is not carried. -/
theorem add_eq (ha : a.usec < 1000000) (hb : b.usec < 1000000) (hsec : a.sec + b.sec < 2 ^ 64) :
    a.add b = ⟨a.sec + b.sec, a.usec + b.usec⟩ := by
  unfold add
  have hnsec : (a.usec + b.usec) % 2 ^ 64 = a.usec + b.usec := Nat.mod_eq_of_lt (by omega)
  simp only [hnsec]
  rw [Nat.div_eq_of_lt (by omega), Nat.add_zero, Nat.mod_eq_of_lt hsec, Nat.mod_eq_of_lt (by omega)]

end TimeVal

theorem usec_currentTimeval (ns : Nat) : (currentTimeval ns).usec < 1000000 := by
  show ns % 1000000000 / 1000 < 1000000
  omega

theorem currentTimeval_mono {ns ns' : Nat} (h : ns ≤ ns') : (currentTimeval ns').ge (currentTimeval ns) := by
  rw [TimeVal.ge_iff]
  show ns / 1000000000 < ns' / 1000000000 ∨ ns' / 1000000000 = ns / 1000000000
    ∧ ns % 1000000000 / 1000 ≤ ns' % 1000000000 / 1000
  omega

theorem micros_mono {ns ns' : Nat} (h : ns ≤ ns') :
    (currentTimeval ns).micros ≤ (currentTimeval ns').micros := by
  show ns / 1000000000 * 1000000 + ns % 1000000000 / 1000
    ≤ ns' / 1000000000 * 1000000 + ns' % 1000000000 / 1000
  omega

theorem TimeVal.ge_trans {a b c : TimeVal} (hab : a.ge b) (hbc : b.ge c) : a.ge c := by
  rw [ge_iff] at hab hbc ⊢
  omega

/-! ## The timer and the alarm -/

/-- The timer and the alarm after the same events, the last setting being `set`. A timer whose seconds
have wrapped is not described. -/
structure Follows (set : Option (TimeVal × TimeVal)) (timer : ProcessTimer) (alarm : Alarm) (ns : Nat) :
    Prop where
  fired : (currentTimeval ns).ge timer.last
  unset : set = none → alarm = none ∧ ¬ timer.next.gt timer.last
  plain : ∀ t value, set = some (t, value) → Plain (t, value) →
    (alarm = none ∧ ¬ timer.next.gt timer.last
        ∧ (value = .default ∨ t.micros + value.micros ≤ (currentTimeval ns).micros))
      ∨ (alarm = some (t.micros + value.micros) ∧ timer.next.gt timer.last
        ∧ timer.next = ⟨t.sec + value.sec, t.usec + value.usec⟩ ∧ t.usec < 1000000
        ∧ value.usec < 1000000 ∧ value ≠ .default)

variable {set : Option (TimeVal × TimeVal)} {timer : ProcessTimer} {alarm : Alarm} {now : Nat}

theorem checkTimer_of_not_armed (h : ¬ timer.next.gt timer.last) (ns : Nat) :
    checkTimer timer ns = (false, timer) := by
  unfold checkTimer
  rw [if_neg]
  rw [Bool.and_eq_true]
  exact fun hboth => h hboth.1

theorem checkTimer_of_armed (h : timer.next.gt timer.last) (ns : Nat) :
    checkTimer timer ns = if (currentTimeval ns).ge timer.next
      then (true, { timer with last := timer.next }) else (false, timer) := by
  unfold checkTimer
  rw [h, Bool.true_and]

/-- The timer is due with the deadline, or at the full second in front of it. -/
theorem ge_next_iff {t value c : TimeVal} (ht : t.usec < 1000000) (hvalue : value.usec < 1000000)
    (hc : c.usec < 1000000) :
    c.ge ⟨t.sec + value.sec, t.usec + value.usec⟩
      ↔ t.micros + value.micros ≤ c.micros ∨ Early (t, value) c := by
  rw [TimeVal.ge_iff]
  unfold Early TimeVal.micros
  dsimp only
  omega

theorem Alarm.step_check (deadline ns : Nat) :
    Alarm.step (some deadline) (.check ns) = if deadline ≤ (currentTimeval ns).micros
      then (true, none) else (false, some deadline) := rfl

section Check

variable {ns : Nat}

/-- The deadline that was last seen to pass is not in the future. -/
theorem fired_check (h : Follows set timer alarm now) (hns : now ≤ ns) :
    (currentTimeval ns).ge (checkTimer timer ns).2.last := by
  have hlater : (currentTimeval ns).ge timer.last :=
    TimeVal.ge_trans (currentTimeval_mono hns) h.fired
  by_cases harmed : timer.next.gt timer.last
  · rw [checkTimer_of_armed harmed]
    split
    · rename_i hdue
      exact hdue
    · exact hlater
  · rw [checkTimer_of_not_armed harmed]
    exact hlater

/-- A check to which both give the same answer keeps them together. -/
theorem follows_check (h : Follows set timer alarm now) (hns : now ≤ ns)
    (hagree : (checkTimer timer ns).1 = (alarm.step (.check ns)).1) :
    Follows set (checkTimer timer ns).2 (alarm.step (.check ns)).2 ns := by
  have hidle : alarm = none ∧ ¬ timer.next.gt timer.last →
      (alarm.step (.check ns)).2 = none
        ∧ ¬ (checkTimer timer ns).2.next.gt (checkTimer timer ns).2.last := by
    rintro ⟨rfl, hdisarmed⟩
    rw [checkTimer_of_not_armed hdisarmed]
    exact ⟨rfl, hdisarmed⟩
  refine ⟨fired_check h hns, fun hnone => hidle (h.unset hnone), fun t value hset hplain => ?_⟩
  rcases h.plain t value hset hplain with ⟨hoff, hdisarmed, hpast⟩ | ⟨rfl, harmed, hrest⟩
  · obtain ⟨hoff', hdisarmed'⟩ := hidle ⟨hoff, hdisarmed⟩
    exact .inl ⟨hoff', hdisarmed', hpast.imp id (fun hle => Nat.le_trans hle (micros_mono hns))⟩
  -- armed: both fire here, or neither does
  · rw [checkTimer_of_armed harmed, Alarm.step_check] at hagree ⊢
    by_cases hdue : (currentTimeval ns).ge timer.next
    · rw [if_pos hdue] at hagree ⊢
      by_cases hdeadline : t.micros + value.micros ≤ (currentTimeval ns).micros
      · rw [if_pos hdeadline]
        have hself : ¬ timer.next.gt timer.next := by
          rw [TimeVal.gt_iff]
          omega
        exact .inl ⟨rfl, hself, .inr hdeadline⟩
      · rw [if_neg hdeadline] at hagree
        cases hagree
    · rw [if_neg hdue] at hagree ⊢
      by_cases hdeadline : t.micros + value.micros ≤ (currentTimeval ns).micros
      · rw [if_pos hdeadline] at hagree
        cases hagree
      · rw [if_neg hdeadline]
        exact .inr ⟨rfl, harmed, hrest⟩

/-- The two give the same answer unless the check is early. -/
theorem agree_check_iff (h : Follows set timer alarm now) (hns : now ≤ ns)
    (hset : ∀ x, set = some x → Plain x) :
    (checkTimer timer ns).1 = (alarm.step (.check ns)).1 ↔ NoEarlyAt set (.check ns) := by
  cases hcur : set with
  | none =>
    obtain ⟨rfl, hdisarmed⟩ := h.unset hcur
    rw [checkTimer_of_not_armed hdisarmed]
    exact iff_of_true rfl (fun _ _ _ hnone => nomatch hnone)
  | some x =>
    obtain ⟨t, value⟩ := x
    rcases h.plain t value hcur (hset _ hcur) with ⟨rfl, hdisarmed, hpast⟩
      | ⟨rfl, harmed, hnext, ht, hvalue, hne⟩
    · rw [checkTimer_of_not_armed hdisarmed]
      refine iff_of_true rfl ?_
      rintro ns' x ⟨rfl⟩ ⟨rfl⟩ hne - ⟨-, hearly⟩
      have hle := micros_mono hns
      rcases hpast with hzero | hpast
      · exact hne hzero
      · dsimp only at hearly
        omega
    -- due and not past the deadline is what `Early` says
    · have hdue := ge_next_iff ht hvalue (usec_currentTimeval ns)
      have hnoEarly : NoEarlyAt (some (t, value)) (.check ns) ↔ ¬ Early (t, value) (currentTimeval ns) := by
        constructor
        · exact fun hall => hall ns (t, value) rfl rfl hne (hset _ hcur)
        · rintro hnot ns' x ⟨rfl⟩ ⟨rfl⟩ - -
          exact hnot
      rw [checkTimer_of_armed harmed, Alarm.step_check, hnext, hnoEarly]
      by_cases hdeadline : t.micros + value.micros ≤ (currentTimeval ns).micros
      · rw [if_pos hdeadline, if_pos (hdue.mpr (.inl hdeadline))]
        refine iff_of_true rfl (fun hearly => ?_)
        exact absurd hdeadline (Nat.not_le_of_lt hearly.2)
      · rw [if_neg hdeadline]
        by_cases hearly : Early (t, value) (currentTimeval ns)
        · rw [if_pos (hdue.mpr (.inr hearly))]
          exact iff_of_false (fun heq => nomatch heq) (fun hnot => hnot hearly)
        · rw [if_neg (fun hge => (hdue.mp hge).elim hdeadline hearly)]
          exact iff_of_true rfl hearly

end Check

/-! ## Settings -/

section Setting

variable {ns : Nat}

/-- Nothing but the time changes. -/
theorem Follows.later (h : Follows set timer alarm now) (hns : now ≤ ns) :
    Follows set timer alarm ns := by
  refine ⟨TimeVal.ge_trans (currentTimeval_mono hns) h.fired, h.unset, fun t value hset hplain => ?_⟩
  rcases h.plain t value hset hplain with ⟨hoff, hdisarmed, hpast⟩ | harmed
  · exact .inl ⟨hoff, hdisarmed, hpast.imp id (fun hle => Nat.le_trans hle (micros_mono hns))⟩
  · exact .inr harmed

theorem TimeVal.eq_default_iff (t : TimeVal) : t = .default ↔ t.sec = 0 ∧ t.usec = 0 := by
  obtain ⟨sec, usec⟩ := t
  exact TimeVal.mk.injEq .. ▸ Iff.rfl

/-- A timer that is set is due in the future. -/
theorem gt_of_ge_last {t value last : TimeVal} (hlast : t.ge last) (hne : value ≠ .default) :
    TimeVal.gt ⟨t.sec + value.sec, t.usec + value.usec⟩ last := by
  rw [Ne, TimeVal.eq_default_iff] at hne
  rw [TimeVal.ge_iff] at hlast
  rw [TimeVal.gt_iff]
  dsimp only
  omega

/-- A setting arms both, or disarms both. -/
theorem follows_set (h : Follows set timer alarm now) (new : ITimerVal) (hns : now ≤ ns)
    (husec : new.value.usec < 1000000) :
    Follows (some (currentTimeval ns, new.value)) (sysSetitimer timer 0 (some new) ns).2.2
      (alarm.step (.setitimer 0 (some new) ns)).2 ns := by
  have hlast : (currentTimeval ns).ge timer.last := (h.later hns).fired
  have halarm : (alarm.step (.setitimer 0 (some new) ns)).2 = if new.value = .default then none
      else some ((currentTimeval ns).micros + new.value.micros) := rfl
  rw [halarm]
  by_cases hzero : new.value = .default
  · have htimer : (sysSetitimer timer 0 (some new) ns).2.2 = ⟨new, .default, .default⟩ := by
      unfold sysSetitimer
      rw [if_pos rfl]
      dsimp only
      rw [if_pos ((TimeVal.eq_default_iff _).mp hzero)]
    rw [htimer, if_pos hzero]
    refine ⟨?_, (nomatch ·), ?_⟩
    · show (currentTimeval ns).ge .default
      rw [TimeVal.ge_iff]
      show 0 < _ ∨ _ = 0 ∧ 0 ≤ _
      omega
    · rintro t value ⟨⟩ -
      have hdisarmed : ¬ TimeVal.default.gt .default := by decide
      exact .inl ⟨rfl, hdisarmed, .inl hzero⟩
  · have htimer : (sysSetitimer timer 0 (some new) ns).2.2
        = ⟨new, (currentTimeval ns).add new.value, timer.last⟩ := by
      unfold sysSetitimer
      rw [if_pos rfl]
      dsimp only
      rw [if_neg (fun hboth => hzero ((TimeVal.eq_default_iff _).mpr hboth))]
    rw [htimer, if_neg hzero]
    refine ⟨hlast, (nomatch ·), ?_⟩
    rintro t value ⟨⟩ hplain
    have hnext := TimeVal.add_eq (usec_currentTimeval ns) husec hplain
    refine .inr ⟨rfl, ?_, hnext, usec_currentTimeval ns, husec, hzero⟩
    dsimp only
    rw [hnext]
    exact gt_of_ge_last hlast hzero

end Setting

/-! ## Runs -/

variable {e : TimerEvent} {es : List TimerEvent}

/-- One event keeps the two together, if they give the same answer to it. -/
theorem follows_step (h : Follows set timer alarm now) (hns : now ≤ e.ns)
    (husec : ∀ t value, e.setting = some (t, value) → value.usec < 1000000)
    (hagree : (timer.step e).1 = (alarm.step e).1) :
    Follows (e.setting <|> set) (timer.step e).2 (alarm.step e).2 e.ns := by
  match e with
  | .check ns => exact follows_check h hns hagree
  | .setitimer 0 none ns => exact h.later hns
  | .setitimer 0 (some new) ns => exact follows_set h new hns (husec _ _ rfl)
  | .setitimer (which + 1) new ns => exact h.later hns

theorem follows_default : Follows none .default none 0 :=
  ⟨by decide, fun _ => ⟨rfl, by decide⟩, fun _ _ hset => nomatch hset⟩

/-- A run of the two that answers alike has no early check. -/
theorem noEarly_of_run_eq (h : Follows set timer alarm now) (hordered : Ordered now es)
    (husec : Microseconds es) (heq : timer.run es = alarm.run es) : NoEarly set es := by
  induction es generalizing set timer alarm now with
  | nil => trivial
  | cons e es ih =>
    obtain ⟨hagree, hrest⟩ := List.cons.inj heq
    refine ⟨?_, ih (follows_step h hordered.1 (husec e (.head _)) hagree) hordered.2
      (fun e' he' => husec e' (.tail _ he')) hrest⟩
    rintro ns x rfl hset hne hplain
    refine (agree_check_iff h hordered.1 ?_).mp hagree ns x rfl hset hne hplain
    rintro y hy
    rw [Option.some.inj (hset.symm.trans hy)] at hplain
    exact hplain

/-- Without an early check the two answer alike at every event. -/
theorem run_eq_of_noEarly (h : Follows set timer alarm now) (hordered : Ordered now es)
    (husec : Microseconds es) (hset : ∀ x, set = some x → Plain x)
    (hplain : ∀ e ∈ es, ∀ x, e.setting = some x → Plain x) (hnoEarly : NoEarly set es) :
    timer.run es = alarm.run es := by
  induction es generalizing set timer alarm now with
  | nil => rfl
  | cons e es ih =>
    have hagree : (timer.step e).1 = (alarm.step e).1 := by
      match e with
      | .check ns => exact (agree_check_iff h hordered.1 hset).mpr hnoEarly.1
      | .setitimer 0 none ns => rfl
      | .setitimer 0 (some new) ns => rfl
      | .setitimer (which + 1) new ns => rfl
    have hset' : ∀ x, (e.setting <|> set) = some x → Plain x := by
      intro x hx
      cases hcase : e.setting with
      | none =>
        rw [hcase] at hx
        exact hset x hx
      | some y =>
        rw [hcase] at hx
        cases hx
        exact hplain e (.head _) _ hcase
    have hrest := ih (follows_step h hordered.1 (husec e (.head _)) hagree) hordered.2
      (fun e' he' => husec e' (.tail _ he')) hset' (fun e' he' => hplain e' (.tail _ he')) hnoEarly.2
    show (timer.step e).1 :: _ = (alarm.step e).1 :: _
    rw [hagree, hrest]

/-- `SIGALRM` is added where the deadline is first seen to have passed, once for each setting, if no
check falls between the full second and a deadline behind it; a check there adds it too early. -/
theorem itimer_between (events : List TimerEvent) (hordered : Ordered 0 events)
    (husec : Microseconds events) :
    ((∀ e ∈ events, ∀ set, e.setting = some set → Plain set) → NoEarly none events →
        ProcessTimer.default.run events = Alarm.run none events)
      ∧ (ProcessTimer.default.run events = Alarm.run none events → NoEarly none events) :=
  ⟨fun hplain => run_eq_of_noEarly follows_default hordered husec (fun _ hset => nomatch hset) hplain,
    noEarly_of_run_eq follows_default hordered husec⟩

/-- A timer of 1.3 s, set at 0.5 s, with checks in front of the deadline, behind it, and again. -/
def onceEvents : List TimerEvent :=
  [.setitimer 0 (some ⟨.default, ⟨1, 300000⟩⟩) 500000000, .check 1700000000, .check 1900000000,
    .check 2000000000]

theorem itimer_between_once :
    ProcessTimer.default.run onceEvents = [false, false, true, false] := by
  have hsettings : ∀ e ∈ onceEvents, ∀ t value, e.setting = some (t, value) →
      t = ⟨0, 500000⟩ ∧ value = ⟨1, 300000⟩ := by
    intro e he t value hset
    simp only [onceEvents, List.mem_cons, List.not_mem_nil, or_false] at he
    rcases he with rfl | rfl | rfl | rfl
    · cases hset
      exact ⟨rfl, rfl⟩
    all_goals cases hset
  refine (itimer_between onceEvents ⟨by decide, by decide, by decide, by decide, trivial⟩ ?_).1 ?_ ?_
  · intro e he t value hset
    obtain ⟨-, rfl⟩ := hsettings e he t value hset
    decide
  · rintro e he ⟨t, value⟩ hset
    obtain ⟨rfl, rfl⟩ := hsettings e he t value hset
    unfold Plain
    decide
  · refine ⟨fun _ _ he => (nomatch he), ?_, ?_, ?_, trivial⟩
    all_goals
      rintro ns x ⟨⟩ ⟨⟩ - - ⟨hsec, hmicros⟩
      revert hsec hmicros
      decide

/-- A timer of half a second, set at 0.6 s, and a check at 1.0 s. -/
def earlyEvents : List TimerEvent :=
  [.setitimer 0 (some ⟨.default, ⟨0, 500000⟩⟩) 600000000, .check 1000000000]

/-- The deadline is kept as 0 s and 1100000 µs, and 1 s is behind that. -/
theorem itimer_fires_early :
    Ordered 0 earlyEvents ∧ Microseconds earlyEvents
      ∧ ProcessTimer.default.run earlyEvents = [false, true]
      ∧ Alarm.run none earlyEvents = [false, false] := by
  refine ⟨⟨by decide, by decide, trivial⟩, ?_, by decide, by decide⟩
  intro e he t value hset
  simp only [earlyEvents, List.mem_cons, List.not_mem_nil, or_false] at he
  rcases he with rfl | rfl
  · cases hset
    decide
  · cases hset

end MonkeyOS
