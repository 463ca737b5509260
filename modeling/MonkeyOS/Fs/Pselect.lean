import MonkeyOS.Basic
import MonkeyOS.Lib.BitArray

/-!
# MonkeyOS — `sys_pselect` (`kernel/src/syscall/fd.rs`)

The call polls the requested descriptors until one is ready or the deadline has passed. The three result
sets are made once, before the loop, and each round overwrites them bit by bit: the scan for reading
clears the bit of a descriptor that is not requested, the other two skip it. So a bit of an earlier round
survives only where it is not requested, and there none is ever set.

* `scan_spec` — what one scan leaves in the bits it goes over, in the others, and what it counts;
* `Clean` — the invariant of the results: nothing set outside the request;
* `pselectLoop_spec` — the sets that the call returns are what the last round found;
* `pselect_law_iff` — the deadline is a sum of machine words, so the whole holds exactly for the
  timeouts for which that sum does not wrap.

A set is the four words that the code reads and writes.
-/

namespace MonkeyOS

open Lib

/-- An open descriptor in one round: what its file answers to a poll. -/
structure PolledFile where
  poll : PollEvent → Except Errno PollEvent

/-- The descriptor table in one round, with a slot for every descriptor that a scan looks up. -/
structure PollTable where
  slots : List (Option PolledFile)
  enough : 255 ≤ slots.length

/-- Four `usize` words. -/
abbrev FdSet := List (BitVec 64)

/-- `[0usize; 4]`. -/
def FdSet.zero : FdSet := [0#64, 0#64, 0#64, 0#64]

/-! ## The scans -/

/-- What a scan does with a requested descriptor: the results and `num`. -/
def pollBit (event : PollEvent) (table : PollTable) (i : Nat) (s : FdSet × Nat) : FdSet × Nat :=
  match (table.slots[i]?).join with
  | none => (setBit s.1 i false, s.2)
  | some file =>
    match file.poll event with
    | .ok res =>
      if res.contains event then (setBit s.1 i true, s.2 + 1) else (setBit s.1 i false, s.2)
    | .error _ => (setBit s.1 i false, s.2)

/-- One turn of the scan for reading. -/
def readTurn (rfds : FdSet) (table : PollTable) (s : FdSet × Nat) (i : Nat) : FdSet × Nat :=
  if getBit rfds i = false then (setBit s.1 i false, s.2) else pollBit .POLLIN table i s

/-- One turn of the other two scans, which leave a bit alone that is not requested. -/
def skipTurn (event : PollEvent) (fds : FdSet) (table : PollTable) (s : FdSet × Nat) (i : Nat) :
    FdSet × Nat :=
  if getBit fds i = false then s else pollBit event table i s

def writeTurn : FdSet → PollTable → FdSet × Nat → Nat → FdSet × Nat := skipTurn .POLLOUT

def exceptTurn : FdSet → PollTable → FdSet × Nat → Nat → FdSet × Nat := skipTurn .POLLERR

/-- `for i in 0..max_fdp1`, if the pointer is valid. -/
def scan (turn : FdSet → PollTable → FdSet × Nat → Nat → FdSet × Nat) (maxFdp1 : Nat)
    (fds : Option FdSet) (table : PollTable) (s : FdSet × Nat) : FdSet × Nat :=
  match fds with
  | none => s
  | some fds => (List.range maxFdp1).foldl (turn fds table) s

/-! ## The call -/

/-- One value for each of the three sets. -/
structure Three (α : Type) where
  read : α
  write : α
  except : α
  deriving DecidableEq

/-- A round: the table as it is then, and the clock at its end. -/
structure PollRound where
  table : PollTable
  now : UInt64

/-- The results and `num` after the three scans of a round. -/
def scanAll (maxFdp1 : Nat) (fds : Three (Option FdSet)) (table : PollTable) (r : Three FdSet) :
    Three FdSet × Nat :=
  let s := scan readTurn maxFdp1 fds.read table (r.read, 0)
  let w := scan writeTurn maxFdp1 fds.write table (r.write, s.2)
  let e := scan exceptTurn maxFdp1 fds.except table (r.except, w.2)
  (⟨s.1, w.1, e.1⟩, e.2)

/-- `copy_from_slice` into the sets whose pointer is valid. -/
def copyOut (fds : Three (Option FdSet)) (r : Three FdSet) : Three (Option FdSet) :=
  ⟨fds.read.map (fun _ => r.read), fds.write.map (fun _ => r.write),
    fds.except.map (fun _ => r.except)⟩

/-- What the call returns: the round it returns in, `n`, and the sets as the caller finds them. -/
structure Selected where
  last : PollRound
  n : Nat
  sets : Three (Option FdSet)

/-- The loop; `none` when the rounds end before it returns. -/
def pselectLoop (maxFdp1 timeout : Nat) (fds : Three (Option FdSet)) :
    List PollRound → Three FdSet → Option Selected
  | [], _ => none
  | round :: rounds, r =>
    let s := scanAll maxFdp1 fds round.table r
    if s.2 ≠ 0 then some ⟨round, s.2, copyOut fds s.1⟩
    else if round.now.toNat > timeout then some ⟨round, 0, copyOut fds s.1⟩
    else pselectLoop maxFdp1 timeout fds rounds s.1

/-- `to_nsec`. -/
def TimeSpec.toNsec (t : TimeSpec) : Nat := (t.sec * 1000000000 % 2 ^ 64 + t.nsec) % 2 ^ 64

/-- The deadline as the call computes it at time `start`. -/
def selectTimeout (start : UInt64) : Option TimeSpec → Nat
  | some timeout => (start.toNat + timeout.toNsec) % 2 ^ 64
  | none => 2 ^ 64 - 1

def sysPselect (nfds : Nat) (fds : Three (Option FdSet)) (start : UInt64)
    (timeout : Option TimeSpec) (rounds : List PollRound) : Option Selected :=
  pselectLoop (min nfds 255) (selectTimeout start timeout) fds rounds
    ⟨FdSet.zero, FdSet.zero, FdSet.zero⟩

/-! ## What one scan does -/

/-- The descriptor is open and reports the event. -/
def PollTable.ready (table : PollTable) (event : PollEvent) (i : Nat) : Bool :=
  match (table.slots[i]?).join with
  | none => false
  | some file =>
    match file.poll event with
    | .ok res => res.contains event
    | .error _ => false

variable {fds : Three (Option FdSet)} {r : Three FdSet} {timeout maxFdp1 : Nat}
  {rounds : List PollRound} {event : PollEvent}

theorem PollTable.ready_iff {table : PollTable} {i : Nat} :
    table.ready event i = true ↔ ∃ file res, table.slots[i]? = some (some file)
      ∧ file.poll event = .ok res ∧ res.contains event = true := by
  unfold PollTable.ready
  cases hslot : table.slots[i]? with
  | none => simp
  | some slot =>
    cases slot with
    | none => simp
    | some file =>
      cases hpoll : file.poll event with
      | error e => simp [hpoll]
      | ok res => simp [hpoll]

/-- The results: a bit is set only where one is requested, below `maxFdp1`. -/
structure Clean (maxFdp1 : Nat) (fds r : FdSet) : Prop where
  length : r.length = 4
  requested : ∀ i, getBit r i = true → getBit fds i = true ∧ i < maxFdp1

theorem pollBit_eq (event : PollEvent) (table : PollTable) (i : Nat) (s : FdSet × Nat) :
    pollBit event table i s
      = (setBit s.1 i (table.ready event i), s.2 + (table.ready event i).toNat) := by
  unfold pollBit PollTable.ready
  cases (table.slots[i]?).join with
  | none => rfl
  | some file =>
    cases hpoll : file.poll event with
    | error e => simp [hpoll]
    | ok res => cases hres : res.contains event <;> simp [hpoll, hres]

/-- A turn polls a requested descriptor, and else sets nothing. -/
def Turns (turn : FdSet → PollTable → FdSet × Nat → Nat → FdSet × Nat) (event : PollEvent) : Prop :=
  ∀ fds table s i,
    (getBit fds i = true → turn fds table s i = pollBit event table i s)
      ∧ (getBit fds i = false → turn fds table s i = s ∨ turn fds table s i = (setBit s.1 i false, s.2))

theorem readTurn_turns : Turns readTurn .POLLIN := by
  intro fds table s i
  unfold readTurn
  exact ⟨fun h => if_neg (by rw [h]; decide), fun h => .inr (if_pos h)⟩

theorem skipTurn_turns (event : PollEvent) : Turns (skipTurn event) event := by
  intro fds table s i
  unfold skipTurn
  exact ⟨fun h => if_neg (by rw [h]; decide), fun h => .inl (if_pos h)⟩

section Scan

variable {turn : FdSet → PollTable → FdSet × Nat → Nat → FdSet × Nat} {event : PollEvent}
  {maxFdp1 : Nat} {fds : FdSet} (table : PollTable) {s : FdSet × Nat}

/-- The bit of a requested descriptor that is ready. -/
def hit (event : PollEvent) (fds : FdSet) (table : PollTable) (i : Nat) : Bool :=
  getBit fds i && table.ready event i

theorem Clean.setBit {r : FdSet} (h : Clean maxFdp1 fds r) {i : Nat} (hi : i < maxFdp1)
    (hmax : maxFdp1 ≤ 255) {b : Bool} (hb : b = true → getBit fds i = true) :
    Clean maxFdp1 fds (setBit r i b) where
  length := by rw [length_setBit, h.length]
  requested := by
    intro j hj
    rw [getBit_setBit r b (by rw [h.length]; omega)] at hj
    split at hj
    · rename_i hji
      rw [hji]
      exact ⟨hb hj, hi⟩
    · exact h.requested j hj

/-- One turn: the bit of its descriptor says whether it is a hit, the others stay, and a hit is
counted. -/
theorem turn_spec (hturn : Turns turn event) (hclean : Clean maxFdp1 fds s.1) {i : Nat}
    (hi : i < maxFdp1) (hmax : maxFdp1 ≤ 255) :
    Clean maxFdp1 fds (turn fds table s i).1
      ∧ (∀ j, getBit (turn fds table s i).1 j
          = if j = i then hit event fds table i else getBit s.1 j)
      ∧ (turn fds table s i).2 = s.2 + (hit event fds table i).toNat := by
  have hbit : ∀ b j, getBit (setBit s.1 i b) j = if j = i then b else getBit s.1 j :=
    fun b j => getBit_setBit s.1 b (by rw [hclean.length]; omega)
  obtain ⟨hpoll, hskip⟩ := hturn fds table s i
  cases hreq : getBit fds i with
  | true =>
    have hhit : hit event fds table i = table.ready event i := by rw [hit, hreq, Bool.true_and]
    rw [hpoll hreq, pollBit_eq, hhit]
    exact ⟨hclean.setBit hi hmax fun _ => hreq, hbit _, rfl⟩
  | false =>
    have hhit : hit event fds table i = false := by rw [hit, hreq, Bool.false_and]
    rw [hhit]
    rcases hskip hreq with heq | heq
    · rw [heq]
      refine ⟨hclean, fun j => ?_, rfl⟩
      -- the bit that is skipped was never set
      split
      · rename_i hji
        cases hset : getBit s.1 j with
        | false => rfl
        | true =>
          have hmem := (hclean.requested j hset).1
          rw [hji, hreq] at hmem
          exact absurd hmem Bool.false_ne_true
      · rfl
    · rw [heq]
      exact ⟨hclean.setBit hi hmax fun h => absurd h Bool.false_ne_true, hbit _, rfl⟩

/-- A scan over the first `k` descriptors. -/
theorem scan_range (hturn : Turns turn event) (hclean : Clean maxFdp1 fds s.1)
    (hmax : maxFdp1 ≤ 255) {k : Nat} (hk : k ≤ maxFdp1) :
    Clean maxFdp1 fds ((List.range k).foldl (turn fds table) s).1
      ∧ (∀ j < k, getBit ((List.range k).foldl (turn fds table) s).1 j = hit event fds table j)
      ∧ ((List.range k).foldl (turn fds table) s).2
          = s.2 + (List.range k).countP (hit event fds table) := by
  induction k with
  | zero => exact ⟨hclean, fun j hj => absurd hj (Nat.not_lt_zero j), rfl⟩
  | succ k ih =>
    obtain ⟨hcleank, hbits, hnum⟩ := ih (by omega)
    rw [List.range_succ, List.foldl_append, List.countP_append]
    obtain ⟨hclean', hbits', hnum'⟩ := turn_spec table hturn hcleank (i := k) (by omega) hmax
    refine ⟨hclean', fun j hj => ?_, ?_⟩
    · show getBit (turn fds table _ k).1 j = _
      rw [hbits' j]
      split
      · rename_i hjk
        rw [hjk]
      · exact hbits j (by omega)
    · show (turn fds table _ k).2 = _
      rw [hnum', hnum, List.countP_singleton]
      cases hit event fds table k <;> simp [Nat.add_assoc]

/-! ## What a scan returns -/

/-- The number of bits in a set. -/
def bitCount (r : FdSet) : Nat := (List.range 256).countP (getBit r)

theorem countP_range_of_le {f : Nat → Bool} {m n : Nat} (hmn : m ≤ n)
    (hf : ∀ i, m ≤ i → f i = false) : (List.range n).countP f = (List.range m).countP f := by
  induction n, hmn using Nat.le_induction with
  | base => rfl
  | succ n hn ih =>
    rw [List.range_succ, List.countP_append, ih, List.countP_singleton, hf n hn]
    rfl

/-- The results of a scan that ends clean: the bits are the hits, and there are as many. -/
theorem scan_spec (hturn : Turns turn event) (hclean : Clean maxFdp1 fds s.1)
    (hmax : maxFdp1 ≤ 255) :
    Clean maxFdp1 fds (scan turn maxFdp1 (some fds) table s).1
      ∧ (∀ j, getBit (scan turn maxFdp1 (some fds) table s).1 j = true
          ↔ getBit fds j = true ∧ j < maxFdp1 ∧ table.ready event j = true)
      ∧ (scan turn maxFdp1 (some fds) table s).2
          = s.2 + bitCount (scan turn maxFdp1 (some fds) table s).1 := by
  obtain ⟨hclean', hbits, hnum⟩ := scan_range table hturn hclean hmax (Nat.le_refl maxFdp1)
  refine ⟨hclean', fun j => ⟨fun hj => ?_, fun ⟨hreq, hlt, hready⟩ => ?_⟩, ?_⟩
  · obtain ⟨hreq, hlt⟩ := hclean'.requested j hj
    have hhit := (hbits j hlt).symm.trans hj
    rw [hit, hreq, Bool.true_and] at hhit
    exact ⟨hreq, hlt, hhit⟩
  · refine (hbits j hlt).trans ?_
    rw [hit, hreq, hready]
    rfl
  · refine hnum.trans (congrArg (s.2 + ·) ?_)
    rw [bitCount, countP_range_of_le (Nat.le_trans hmax (by decide : 255 ≤ 256))]
    · exact List.countP_congr fun j hj => by rw [← hbits j (List.mem_range.mp hj)]; rfl
    intro j hj
    by_contra hset
    have := (hclean'.requested j (Bool.eq_true_of_not_eq_false hset)).2
    omega

end Scan

/-! ## The loop -/

/-- What a returned set must be: the requested descriptors below the limit that are open and
reported the event. -/
def SetLaw (limit : Nat) (event : PollEvent) (table : PollTable) (fds set : Option FdSet) : Prop :=
  match fds, set with
  | none, none => True
  | some fds, some r =>
    ∀ i, getBit r i = true ↔ getBit fds i = true ∧ i < limit
      ∧ ∃ file res, table.slots[i]? = some (some file) ∧ file.poll event = .ok res
        ∧ res.contains event = true
  | _, _ => False

def setCount : Option FdSet → Nat
  | none => 0
  | some r => bitCount r

/-- The results stay clean for a set that is asked for; the others are not touched. -/
def CleanFor (maxFdp1 : Nat) (fds : Option FdSet) (r : FdSet) : Prop :=
  ∀ q, fds = some q → Clean maxFdp1 q r

/-- A scan for a set that may be absent. -/
theorem scan_returns {turn : FdSet → PollTable → FdSet × Nat → Nat → FdSet × Nat}
    {fds : Option FdSet} (table : PollTable) {s : FdSet × Nat} (hturn : Turns turn event)
    (hclean : CleanFor maxFdp1 fds s.1) (hmax : maxFdp1 ≤ 255) :
    CleanFor maxFdp1 fds (scan turn maxFdp1 fds table s).1
      ∧ SetLaw maxFdp1 event table fds (fds.map (fun _ => (scan turn maxFdp1 fds table s).1))
      ∧ (scan turn maxFdp1 fds table s).2
          = s.2 + setCount (fds.map (fun _ => (scan turn maxFdp1 fds table s).1)) := by
  cases fds with
  | none => exact ⟨hclean, trivial, rfl⟩
  | some fds =>
    obtain ⟨hclean', hbits, hnum⟩ := scan_spec table hturn (hclean fds rfl) hmax
    refine ⟨fun q hq => by cases hq; exact hclean', fun i => ?_, hnum⟩
    rw [hbits i, PollTable.ready_iff]

/-- The sets are what the round found, and `n` is the number of their bits. -/
structure RoundLaw (limit : Nat) (fds : Three (Option FdSet)) (table : PollTable)
    (sets : Three (Option FdSet)) (n : Nat) : Prop where
  read : SetLaw limit .POLLIN table fds.read sets.read
  write : SetLaw limit .POLLOUT table fds.write sets.write
  except : SetLaw limit .POLLERR table fds.except sets.except
  count : n = setCount sets.read + setCount sets.write + setCount sets.except

def CleanAll (maxFdp1 : Nat) (fds : Three (Option FdSet)) (r : Three FdSet) : Prop :=
  CleanFor maxFdp1 fds.read r.read ∧ CleanFor maxFdp1 fds.write r.write
    ∧ CleanFor maxFdp1 fds.except r.except

theorem scanAll_spec (table : PollTable) (hclean : CleanAll maxFdp1 fds r) (hmax : maxFdp1 ≤ 255) :
    CleanAll maxFdp1 fds (scanAll maxFdp1 fds table r).1
      ∧ RoundLaw maxFdp1 fds table (copyOut fds (scanAll maxFdp1 fds table r).1)
          (scanAll maxFdp1 fds table r).2 := by
  obtain ⟨hr, hw, he⟩ := hclean
  obtain ⟨hr', hread, hnum⟩ := scan_returns table readTurn_turns (s := (r.read, 0)) hr hmax
  obtain ⟨hw', hwrite, hnum'⟩ := scan_returns table (skipTurn_turns .POLLOUT)
    (s := (r.write, (scan readTurn maxFdp1 fds.read table (r.read, 0)).2)) hw hmax
  obtain ⟨he', hexcept, hnum''⟩ := scan_returns table (skipTurn_turns .POLLERR)
    (s := (r.except, (scan writeTurn maxFdp1 fds.write table
      (r.write, (scan readTurn maxFdp1 fds.read table (r.read, 0)).2)).2)) he hmax
  refine ⟨⟨hr', hw', he'⟩, hread, hwrite, hexcept, ?_⟩
  -- the counter is handed from scan to scan
  exact hnum''.trans (congrArg (· + _) (hnum'.trans (congrArg (· + _) (hnum.trans (Nat.zero_add _)))))

/-- **The last round decides.** Whatever the earlier rounds found, the call returns what the last one
found; and it returns 0 only behind its deadline. -/
theorem pselectLoop_spec {out : Selected} (hmax : maxFdp1 ≤ 255) (hclean : CleanAll maxFdp1 fds r)
    (h : pselectLoop maxFdp1 timeout fds rounds r = some out) :
    RoundLaw maxFdp1 fds out.last.table out.sets out.n
      ∧ (out.n = 0 → timeout < out.last.now.toNat) := by
  induction rounds generalizing r with
  | nil => cases h
  | cons round rounds ih =>
    obtain ⟨hclean', hlaw⟩ := scanAll_spec round.table hclean hmax
    dsimp only [pselectLoop] at h
    split at h
    · rename_i hnum
      cases h
      exact ⟨hlaw, fun hzero => absurd hzero hnum⟩
    · rename_i hnum
      rw [not_not.mp hnum] at hlaw
      split at h
      · rename_i hlate
        cases h
        exact ⟨hlaw, fun _ => hlate⟩
      · exact ih hclean' h

/-- A first round that finds nothing, behind the deadline. -/
theorem pselectLoop_late {round : PollRound} {r' : Three FdSet}
    (hscan : scanAll maxFdp1 fds round.table r = (r', 0)) (hlate : timeout < round.now.toNat) :
    pselectLoop maxFdp1 timeout fds (round :: rounds) r = some ⟨round, 0, copyOut fds r'⟩ := by
  dsimp only [pselectLoop]
  rw [hscan, if_neg (fun hne => hne rfl), if_pos hlate]

/-! ## The law -/

/-- The moment `timeout` after `start`. -/
def deadline (start : UInt64) (timeout : TimeSpec) : Nat :=
  start.toNat + (timeout.sec * 1000000000 + timeout.nsec)

structure SelectLaw (nfds : Nat) (fds : Three (Option FdSet)) (start : UInt64)
    (timeout : Option TimeSpec) (out : Selected) : Prop where
  round : RoundLaw (min nfds 255) fds out.last.table out.sets out.n
  late : out.n = 0 → ∃ t, timeout = some t ∧ deadline start t < out.last.now.toNat

/-- The deadline is a machine word; or the sum wraps to the greatest one, which no clock passes. -/
def Representable (start : UInt64) (timeout : TimeSpec) : Prop :=
  deadline start timeout < 2 ^ 64 ∨ deadline start timeout % 2 ^ 64 = 2 ^ 64 - 1

theorem selectTimeout_some (start : UInt64) (t : TimeSpec) :
    selectTimeout start (some t) = deadline start t % 2 ^ 64 := by
  show (start.toNat + (t.sec * 1000000000 % 2 ^ 64 + t.nsec) % 2 ^ 64) % 2 ^ 64 = _
  unfold deadline
  omega

theorem cleanFor_zero (maxFdp1 : Nat) (fds : Option FdSet) : CleanFor maxFdp1 fds FdSet.zero := by
  intro q _
  refine ⟨rfl, fun i hi => ?_⟩
  have hword : ∀ k, FdSet.zero.getD k 0#64 = 0#64
    | 0 | 1 | 2 | 3 => rfl
    | _ + 4 => rfl
  rw [getBit, hword, BitVec.getLsbD_zero] at hi
  exact absurd hi Bool.false_ne_true

/-- A table without any open descriptor. -/
def emptyTable : PollTable := ⟨List.replicate 255 none, by rw [List.length_replicate]⟩

/-- **`pselect`.** For every start and timeout, the law holds of every call, whatever the sets, the
descriptors and the answers of the files over any rounds, exactly when the deadline is
representable. -/
theorem pselect_law_iff (start : UInt64) (timeout : Option TimeSpec) :
    (∀ nfds fds rounds out, sysPselect nfds fds start timeout rounds = some out →
        SelectLaw nfds fds start timeout out)
      ↔ ∀ t, timeout = some t → Representable start t := by
  constructor
  · rintro h t rfl
    by_contra hwrap
    obtain ⟨hbig, hmod⟩ := not_or.mp hwrap
    -- nothing is requested and the clock is at its end: the call returns 0 at once
    have hlate : selectTimeout start (some t) < (-1 : UInt64).toNat := by
      rw [selectTimeout_some]
      show _ < 2 ^ 64 - 1
      omega
    have hret : sysPselect 0 ⟨none, none, none⟩ start (some t) [⟨emptyTable, -1⟩]
        = some ⟨⟨emptyTable, -1⟩, 0, ⟨none, none, none⟩⟩ := pselectLoop_late rfl hlate
    obtain ⟨t', ht', hpassed⟩ := (h _ _ _ _ hret).late rfl
    cases ht'
    replace hpassed : deadline start t < 2 ^ 64 - 1 := hpassed
    omega
  · intro hrep nfds fds rounds out hout
    obtain ⟨hround, hlate⟩ := pselectLoop_spec (Nat.min_le_right nfds 255)
      ⟨cleanFor_zero _ _, cleanFor_zero _ _, cleanFor_zero _ _⟩ hout
    refine ⟨hround, fun hzero => ?_⟩
    have hpassed := hlate hzero
    have hclock := out.last.now.toNat_lt
    cases timeout with
    | none =>
      replace hpassed : 2 ^ 64 - 1 < out.last.now.toNat := hpassed
      omega
    | some t =>
      rw [selectTimeout_some] at hpassed
      refine ⟨t, rfl, ?_⟩
      rcases hrep t rfl with hfits | hmax
      · rwa [Nat.mod_eq_of_lt hfits] at hpassed
      · omega

/-- Five seconds after the start of the clock, a timeout of `i64::MAX` seconds: the deadline wraps to
four seconds, and the call returns 0 in its first round. -/
theorem pselect_early_zero :
    ∃ out, sysPselect 1 ⟨some [1#64, 0#64, 0#64, 0#64], none, none⟩ 5000000000
        (some ⟨2 ^ 63 - 1, 0⟩) [⟨emptyTable, 5000000001⟩] = some out
      ∧ out.n = 0 ∧ selectTimeout 5000000000 (some ⟨2 ^ 63 - 1, 0⟩) = 4000000000
      ∧ ¬ SelectLaw 1 ⟨some [1#64, 0#64, 0#64, 0#64], none, none⟩ 5000000000
          (some ⟨2 ^ 63 - 1, 0⟩) out := by
  have hscan : scanAll (min 1 255) ⟨some [1#64, 0#64, 0#64, 0#64], none, none⟩ emptyTable
      ⟨FdSet.zero, FdSet.zero, FdSet.zero⟩ = (⟨FdSet.zero, FdSet.zero, FdSet.zero⟩, 0) := by
    decide +kernel
  refine ⟨_, pselectLoop_late hscan (by decide +kernel), rfl, by decide +kernel, fun hlaw => ?_⟩
  obtain ⟨t, ht, hpassed⟩ := hlaw.late rfl
  cases ht
  revert hpassed
  decide +kernel

end MonkeyOS
