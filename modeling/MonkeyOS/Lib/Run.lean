import Mathlib.Algebra.GroupWithZero.Nat
import Mathlib.Logic.Basic

/-!
# MonkeyOS — runs of a labelled transition relation

Every statement about "any sequence of calls" or "any interleaving" is a statement about the
finite runs of a step relation `step s a t` (state, label, next state). This module owns
the run relation and the induction rules the kernel modules use by name:

* `Run.invariant` — what one step preserves, a whole run preserves;
* `Run.within`, `Run.restrict` — so every step of the run starts in it, and has what holds of
  every label;
* `Run.labels` — what every step says of its label holds of the labels of a run;
* `Run.simulates` — a step-wise simulation by an abstract fold over the labels lifts to runs;
* `Run.refines` — a step-wise simulation by another relation with the same labels lifts to runs;
* `Run.flow` — a queue that every step extends at the back and takes from at the front;
* `Run.conserves` — the same for a collection, up to order;
* `Run.drains` — the same by counting what is taken;
* `Run.balance` — a counter and what the steps put in and take out;
* `Run.marks` — a condition that steps of one kind bring about and none undoes;
* `throughout_iff` — two demands on the calls of a sequence that agree wherever an invariant
  holds are met by the same sequences;
* `Run.invariant_throughout` — the invariant rule for steps that keep it under a demand.

A run *whose steps all meet a condition* is a run of the relation with the condition
conjoined. `Throughout` is for demands on a call that may also fail to step at all, such as
"it does not panic".
-/

namespace MonkeyOS.Lib

variable {σ α τ : Type*} {step : σ → α → σ → Prop}

/-- `Run step s as t`: taking the labelled steps `as` in order leads from `s` to `t`. -/
inductive Run (step : σ → α → σ → Prop) : σ → List α → σ → Prop where
  | nil (s : σ) : Run step s [] s
  | cons {s t u : σ} {a : α} {as : List α}
      (hstep : step s a t) (hrest : Run step t as u) : Run step s (a :: as) u

/-- A run extended by one more step at its end. -/
theorem Run.snoc {s t u : σ} {as : List α} {a : α}
    (h : Run step s as t) (hstep : step t a u) : Run step s (as ++ [a]) u := by
  induction h with
  | nil s => exact .cons hstep (.nil _)
  | cons hfirst _ ih => exact .cons hfirst (ih hstep)

/-- The last step of a run. -/
theorem Run.last {s u : σ} {as : List α} (h : Run step s as u) (hne : as ≠ []) :
    ∃ bs a t, as = bs ++ [a] ∧ Run step s bs t ∧ step t a u := by
  induction h with
  | nil _ => exact absurd rfl hne
  | @cons s t u a as hfirst hrest ih =>
    by_cases has : as = []
    · subst has
      cases hrest
      exact ⟨[], a, s, rfl, .nil s, hfirst⟩
    · obtain ⟨bs, b, v, rfl, hbs, hlast⟩ := ih has
      exact ⟨a :: bs, b, v, rfl, .cons hfirst hbs, hlast⟩

theorem Run.append {s t u : σ} {as bs : List α} (h : Run step s as t) (h' : Run step t bs u) :
    Run step s (as ++ bs) u := by
  induction h with
  | nil s => exact h'
  | cons hstep _ ih => exact .cons hstep (ih h')

/-- A run along two lists of labels stops between them. -/
theorem Run.split {s u : σ} {as bs : List α} (h : Run step s (as ++ bs) u) :
    ∃ t, Run step s as t ∧ Run step t bs u := by
  induction as generalizing s with
  | nil => exact ⟨s, .nil s, h⟩
  | cons a as ih =>
    cases h with
    | cons hstep hrest =>
      obtain ⟨t, has, hbs⟩ := ih hrest
      exact ⟨t, .cons hstep has, hbs⟩

/-- **The invariant rule.** A predicate every step preserves holds at the end of every run
that starts in it. -/
theorem Run.invariant {I : σ → Prop} (hpres : ∀ s a t, I s → step s a t → I t)
    {s t : σ} {as : List α} (h : Run step s as t) (hs : I s) : I t := by
  induction h with
  | nil _ => exact hs
  | cons hstep _ ih => exact ih (hpres _ _ _ hs hstep)

/-- The steps of a run that starts in an invariant all start in it. -/
theorem Run.within {I : σ → Prop} (hpres : ∀ s a t, I s → step s a t → I t)
    {s t : σ} {as : List α} (h : Run step s as t) (hs : I s) :
    Run (fun s a t => I s ∧ step s a t) s as t := by
  induction h with
  | nil s => exact .nil s
  | cons hstep _ ih => exact .cons ⟨hs, hstep⟩ (ih (hpres _ _ _ hs hstep))

/-- What holds of every label of a run is at hand in every step. -/
theorem Run.restrict {P : α → Prop} {s t : σ} {as : List α} (h : Run step s as t)
    (hP : ∀ a ∈ as, P a) : Run (fun s a t => P a ∧ step s a t) s as t := by
  induction h with
  | nil s => exact .nil s
  | cons hstep _ ih =>
    exact .cons ⟨hP _ List.mem_cons_self, hstep⟩ (ih (fun a ha => hP a (List.mem_cons_of_mem _ ha)))

/-- A run is one of every relation that has its steps. -/
theorem Run.mono {step' : σ → α → σ → Prop} (hsub : ∀ s a t, step s a t → step' s a t) {s t : σ}
    {as : List α} (h : Run step s as t) : Run step' s as t := by
  induction h with
  | nil s => exact .nil s
  | cons hstep _ ih => exact .cons (hsub _ _ _ hstep) ih

theorem Run.labels {P : α → Prop} (hlabel : ∀ s a t, step s a t → P a) {s t : σ} {as : List α}
    (h : Run step s as t) : ∀ a ∈ as, P a := by
  induction h with
  | nil _ => exact fun a ha => absurd ha List.not_mem_nil
  | cons hstep _ ih =>
    intro a ha
    rcases List.mem_cons.mp ha with rfl | ha
    · exact hlabel _ _ _ hstep
    · exact ih a ha

/-- **The simulation rule.** If every step labelled `a` moves related states to states
related after the abstract move `abs _ a`, then a run labelled `as` ends related to the
fold of `abs` over `as`. -/
theorem Run.simulates {R : σ → τ → Prop} {abs : τ → α → τ}
    (hsim : ∀ s a s' x, R s x → step s a s' → R s' (abs x a))
    {s s' : σ} {as : List α} (h : Run step s as s') {x : τ} (hR : R s x) :
    R s' (as.foldl abs x) := by
  induction h generalizing x with
  | nil _ => exact hR
  | cons hstep _ ih => exact ih (hsim _ _ _ _ hR hstep)

/-- **The refinement rule.** If every step is matched by an abstract step with the same label,
then every run is matched by an abstract run with the same labels. -/
theorem Run.refines {step' : τ → α → τ → Prop} {R : σ → τ → Prop}
    (hsim : ∀ s a s' x, R s x → step s a s' → ∃ x', step' x a x' ∧ R s' x')
    {s s' : σ} {as : List α} (h : Run step s as s') {x : τ} (hR : R s x) :
    ∃ x', Run step' x as x' ∧ R s' x' := by
  induction h generalizing x with
  | nil _ => exact ⟨x, .nil x, hR⟩
  | cons hstep _ ih =>
    obtain ⟨y, hxy, hRy⟩ := hsim _ _ _ _ hR hstep
    obtain ⟨z, hyz, hRz⟩ := ih hRy
    exact ⟨z, .cons hxy hyz, hRz⟩

/-- **The flow rule.** If every step takes `out a` off the front of a queue and adds `inn a` at
its back, then a run takes and adds the concatenations of these, in order. -/
theorem Run.flow {β : Type*} {s t : σ} {as : List α} (h : Run step s as t)
    (queue : σ → List β) {inn out : α → List β}
    (hflow : ∀ s a t, step s a t → queue s ++ inn a = out a ++ queue t) :
    queue s ++ as.flatMap inn = as.flatMap out ++ queue t := by
  induction h with
  | nil _ => simp
  | @cons s t u a as hstep _ ih =>
    rw [List.flatMap_cons, List.flatMap_cons, ← List.append_assoc, hflow s a t hstep,
      List.append_assoc, ih, List.append_assoc]

/-- **The conservation rule.** The same for a collection whose order does not matter: what was
there and what came in is what went out and what is there. -/
theorem Run.conserves {β : Type*} {s t : σ} {as : List α} (h : Run step s as t)
    (held : σ → List β) {inn out : α → List β}
    (hperm : ∀ s a t, step s a t → (held s ++ inn a).Perm (out a ++ held t)) :
    (held s ++ as.flatMap inn).Perm (as.flatMap out ++ held t) := by
  induction h with
  | nil _ => simp
  | @cons s t u a as hstep _ ih =>
    have hfirst := (hperm s a t hstep).append_right (as.flatMap inn)
    have hrest := ih.append_left (out a)
    rw [List.flatMap_cons, List.flatMap_cons]
    simp only [List.append_assoc] at hfirst ⊢
    exact hfirst.trans hrest

/-- **The counting flow rule.** The same when a step says how many elements it takes, `out a`, but
not which: they are taken after `inn a` is added, and never more than there are. -/
theorem Run.drains {β : Type*} {s t : σ} {as : List α} (h : Run step s as t)
    (queue : σ → List β) {inn : α → List β} {out : α → Nat}
    (hdrain : ∀ s a t, step s a t →
      out a ≤ (queue s ++ inn a).length ∧ queue t = (queue s ++ inn a).drop (out a)) :
    (as.map out).sum ≤ (queue s ++ as.flatMap inn).length
      ∧ queue t = (queue s ++ as.flatMap inn).drop (as.map out).sum := by
  induction h with
  | nil s => simp
  | @cons s t u a as hstep _ ih =>
    obtain ⟨hle, hqueue⟩ := hdrain s a t hstep
    obtain ⟨ihle, ihqueue⟩ := ih
    have hjoin : (queue s ++ (a :: as).flatMap inn).drop (out a) = queue t ++ as.flatMap inn := by
      rw [List.flatMap_cons, ← List.append_assoc, List.drop_append_of_le_length hle, hqueue]
    rw [List.map_cons, List.sum_cons]
    constructor
    · have hlen : (queue t ++ as.flatMap inn).length
          = (queue s ++ (a :: as).flatMap inn).length - out a := by
        rw [← hjoin, List.length_drop]
      have hroom : (queue s ++ inn a).length ≤ (queue s ++ (a :: as).flatMap inn).length := by
        rw [List.flatMap_cons, ← List.append_assoc]
        exact (List.prefix_append _ _).length_le
      omega
    · rw [← List.drop_drop, hjoin]
      exact ihqueue

/-- **The balance rule.** What a counter holds, how often a step puts one in and how often one
takes one out. -/
theorem Run.balance {s t : σ} {as : List α} (h : Run step s as t) (held : σ → Nat)
    {inn out : α → Bool}
    (hbalance : ∀ s a t, step s a t → held s + (inn a).toNat = (out a).toNat + held t) :
    held s + as.countP inn = as.countP out + held t := by
  induction h with
  | nil s => simp
  | @cons s t u a as hstep _ ih =>
    have hfirst := hbalance s a t hstep
    have hcount : ∀ p : α → Bool, (a :: as).countP p = as.countP p + (p a).toNat := by
      intro p
      rw [List.countP_cons]
      cases p a <;> rfl
    rw [hcount, hcount]
    omega

/-- **The marking rule.** What a step brings about if its label is marked, and what no step
undoes, holds after a run if it held before or if one of the labels is marked. -/
theorem Run.marks {I : σ → Prop} {P : α → Prop} {s t : σ} {as : List α} (h : Run step s as t)
    (hmark : ∀ s a t, step s a t → (I t ↔ I s ∨ P a)) : I t ↔ I s ∨ ∃ a ∈ as, P a := by
  induction h with
  | nil s => simp
  | cons hstep _ ih => simp only [ih, hmark _ _ _ hstep, List.mem_cons, exists_eq_or_imp, or_assoc]

/-! ## Demands on every call of a sequence -/

/-- `Throughout step P s as`: each label `a` of `as` meets `P` in the state reached from `s` by
the labels in front of it. -/
def Throughout (step : σ → α → σ → Prop) (P : σ → α → Prop) (s : σ) (as : List α) : Prop :=
  ∀ bs a cs t, as = bs ++ a :: cs → Run step s bs t → P t a

theorem throughout_cons {P : σ → α → Prop} {s : σ} {a : α} {as : List α} :
    Throughout step P s (a :: as)
      ↔ P s a ∧ ∀ t, step s a t → Throughout step P t as := by
  constructor
  · intro h
    refine ⟨h [] a as s rfl (.nil s), fun t hstep bs b cs u has hrun => ?_⟩
    exact h (a :: bs) b cs u (by rw [has, List.cons_append]) (.cons hstep hrun)
  · rintro ⟨hfirst, hrest⟩ bs b cs u has hrun
    cases hrun with
    | nil =>
      obtain ⟨rfl, -⟩ := List.cons.inj has
      exact hfirst
    | cons hstep hrun =>
      rw [List.cons_append] at has
      obtain ⟨rfl, htail⟩ := List.cons.inj has
      exact hrest _ hstep _ _ _ _ htail hrun

/-- **The equivalence rule.** `P` and `Q` agree under the invariant, and a step that meets `Q`
keeps the invariant: then the two are met by the same sequences. -/
theorem throughout_iff {I : σ → Prop} {P Q : σ → α → Prop}
    (hiff : ∀ s a, I s → (P s a ↔ Q s a))
    (hpres : ∀ s a t, I s → Q s a → step s a t → I t) {s : σ} (hs : I s) (as : List α) :
    Throughout step P s as ↔ Throughout step Q s as := by
  induction as generalizing s with
  | nil => exact ⟨fun _ bs _ _ _ h => by simp at h, fun _ bs _ _ _ h => by simp at h⟩
  | cons a as ih =>
    rw [throughout_cons, throughout_cons, hiff s a hs]
    refine and_congr_right fun hq => forall_congr' fun t => imp_congr_right fun hstep => ?_
    exact ih (hpres s a t hs hq hstep)

/-- An invariant that every call keeps which meets `Q` holds at the end of a run whose calls do. -/
theorem Run.invariant_throughout {I : σ → Prop} {Q : σ → α → Prop}
    (hpres : ∀ s a t, I s → Q s a → step s a t → I t) {s t : σ} {as : List α}
    (h : Run step s as t) (hQ : Throughout step Q s as) (hs : I s) : I t := by
  induction h with
  | nil _ => exact hs
  | cons hstep _ ih =>
    obtain ⟨hfirst, hrest⟩ := throughout_cons.mp hQ
    exact ih (hrest _ hstep) (hpres _ _ _ hs hfirst hstep)

end MonkeyOS.Lib
