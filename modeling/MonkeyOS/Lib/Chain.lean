import Mathlib.Data.List.Perm.Subperm

/-!
# Chains that end

A process goes from state to state, and ends in a state that is final. What comes next is decided by
a part of the state, its node.

* `EndsIn` — it ends after exactly so many steps;
* `EndsIn.unique` — from states with one node it takes the same number of steps;
* `EndsIn.le_length` — so it never comes to a node twice: there are not more steps than nodes.
-/

namespace MonkeyOS.Lib

variable {σ ν : Type*} (step : σ → σ → Prop) (final : σ → Prop)

inductive EndsIn : Nat → σ → Prop where
  | here {s : σ} (h : final s) : EndsIn 0 s
  | next {s t : σ} {n : Nat} (h : step s t) (hrest : EndsIn n t) : EndsIn (n + 1) s

variable {step final}

theorem EndsIn.mono {final' : σ → Prop} (hfinal : ∀ s, final s → final' s) {n : Nat} {s : σ}
    (h : EndsIn step final n s) : EndsIn step final' n s := by
  induction h with
  | here h => exact .here (hfinal _ h)
  | next h _ ih => exact .next h ih

section Nodes

variable {I : σ → Prop} (node : σ → ν) (hstep : ∀ s t, I s → step s t → I t)
  (hdet : ∀ s s' t t', I s → I s' → node s = node s' → step s t → step s' t' → node t = node t')
  (hfinal : ∀ s s' t', I s → I s' → node s = node s' → final s → ¬ step s' t')

include hstep hdet hfinal

theorem EndsIn.unique {n n' : Nat} {s s' : σ} (hs : I s) (hs' : I s') (hnode : node s = node s')
    (h : EndsIn step final n s) (h' : EndsIn step final n' s') : n = n' := by
  induction h generalizing n' s' with
  | here h =>
    cases h' with
    | here _ => rfl
    | next h' _ => exact absurd h' (hfinal _ _ _ hs hs' hnode h)
  | next h _ ih =>
    cases h' with
    | here h' => exact absurd h (hfinal _ _ _ hs' hs hnode.symm h')
    | next h' hrest' =>
      have hnode' := hdet _ _ _ _ hs hs' hnode h h'
      rw [ih (hstep _ _ hs h) (hstep _ _ hs' h') hnode' hrest']

/-- The nodes on the way: from each of them it takes fewer steps than from the one before, so that
no two are the same. -/
theorem EndsIn.visited (nodes : List ν) (hnodes : ∀ s t, I s → step s t → node t ∈ nodes) {n : Nat}
    {s : σ} (hs : I s) (h : EndsIn step final n s) :
    ∃ vs : List ν, vs.length = n ∧ vs.Nodup ∧ vs ⊆ nodes
      ∧ ∀ v ∈ vs, ∃ u m, I u ∧ node u = v ∧ m < n ∧ EndsIn step final m u := by
  induction h with
  | here _ => exact ⟨[], rfl, List.nodup_nil, List.nil_subset _, fun v hv => absurd hv List.not_mem_nil⟩
  | @next s t n h hrest ih =>
    have ht := hstep s t hs h
    obtain ⟨vs, hlength, hnodup, hsub, hvs⟩ := ih ht
    refine ⟨node t :: vs, by rw [List.length_cons, hlength], ?_, ?_, ?_⟩
    · refine List.nodup_cons.mpr ⟨?_, hnodup⟩
      intro hmem
      obtain ⟨u, m, hu, hnode, hm, hend⟩ := hvs _ hmem
      have hsame := EndsIn.unique node hstep hdet hfinal hu ht hnode hend hrest
      omega
    · exact List.cons_subset.mpr ⟨hnodes s t hs h, hsub⟩
    · intro v hv
      rcases List.mem_cons.mp hv with rfl | hv
      · exact ⟨t, n, ht, rfl, Nat.lt_succ_self n, hrest⟩
      · obtain ⟨u, m, hu, hnode, hm, hend⟩ := hvs v hv
        exact ⟨u, m, hu, hnode, Nat.lt_succ_of_lt hm, hend⟩

theorem EndsIn.le_length (nodes : List ν) (hnodes : ∀ s t, I s → step s t → node t ∈ nodes)
    {n : Nat} {s : σ} (hs : I s) (h : EndsIn step final n s) : n ≤ nodes.length := by
  obtain ⟨vs, hlength, hnodup, hsub, -⟩ := h.visited node hstep hdet hfinal nodes hnodes hs
  rw [← hlength]
  exact (List.subperm_of_subset hnodup hsub).length_le

end Nodes

end MonkeyOS.Lib
