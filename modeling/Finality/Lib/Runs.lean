/-!
# Runs of a labelled transition system

A run lists the labels of its steps from an initial state. An invariant holds after every run when
each step keeps it, and a property that did not hold initially was turned on by some step, which
splits the run in two.
-/

namespace Runs

/-- The states a system reaches from `init`, with the labels of the steps in order. -/
inductive Run {S A : Type _} (step : S → A → S → Prop) (init : S) : List A → S → Prop
  | nil : Run step init [] init
  | snoc {as s a t} : Run step init as s → step s a t → Run step init (as ++ [a]) t

section
variable {S A : Type _} {step step' : S → A → S → Prop} {r s t u : S} {as bs : List A}

/-- One run after another. -/
theorem Run.append (h : Run step s as t) (h' : Run step t bs u) : Run step s (as ++ bs) u := by
  induction h' with
  | nil => simpa using h
  | snoc _ hstep ih =>
    rw [← List.append_assoc]
    exact .snoc ih hstep

theorem Run.single {a : A} (h : step s a t) : Run step s [a] t :=
  .snoc .nil h

theorem Run.cons {a : A} (h : step s a t) (h' : Run step t as u) : Run step s (a :: as) u :=
  (Run.single h).append h'

/-- No step leads nowhere. -/
theorem Run.eq_of_nil (h : Run step s [] t) : t = s := by
  generalize has : ([] : List A) = as at h
  cases h with
  | nil => rfl
  | snoc => simp at has

/-- The first step of a run. -/
theorem Run.cons_inv {a : A} (h : Run step s (a :: as) t) : ∃ u, step s a u ∧ Run step u as t := by
  generalize has : a :: as = bs at h
  induction h generalizing as with
  | nil => simp at has
  | @snoc cs u b v hr hs ih =>
    cases cs with
    | nil =>
      obtain ⟨rfl, rfl⟩ := List.cons.inj has
      obtain rfl := hr.eq_of_nil
      exact ⟨_, hs, .nil⟩
    | cons c cs =>
      obtain ⟨rfl, rfl⟩ := List.cons.inj has
      obtain ⟨u', hu', hrest⟩ := ih rfl
      exact ⟨u', hu', .snoc hrest hs⟩

/-- A run splits where its labels do. -/
theorem Run.split (h : Run step s (as ++ bs) t) : ∃ u, Run step s as u ∧ Run step u bs t := by
  induction as generalizing s with
  | nil => exact ⟨s, .nil, h⟩
  | cons a as ih =>
    obtain ⟨u, hu, hrest⟩ := h.cons_inv
    obtain ⟨v, hv, hbs⟩ := ih hrest
    exact ⟨v, .cons hu hv, hbs⟩

/-- **The invariant rule.** -/
theorem Run.invariant (P : S → Prop) (hinit : P s)
    (hstep : ∀ t a u, P t → step t a u → P u) (h : Run step s as t) : P t := by
  induction h with
  | nil => exact hinit
  | snoc _ hs ih => exact hstep _ _ _ ih hs

/-- The invariant rule for a property of the labels so far and the state. -/
theorem Run.invariantTrace (P : List A → S → Prop) (hinit : P [] s)
    (hstep : ∀ as t a u, Run step s as t → P as t → step t a u → P (as ++ [a]) u)
    (h : Run step s as t) : P as t := by
  induction h with
  | nil => exact hinit
  | snoc hr hs ih => exact hstep _ _ _ _ hr ih hs

/-- Where a label has one outcome, so does a list of labels. -/
theorem Run.functional (hdet : ∀ s a t t', step s a t → step s a t' → t = t')
    (h : Run step s as t) (h' : Run step s as u) : t = u := by
  induction h generalizing u with
  | nil => exact h'.eq_of_nil.symm
  | @snoc as t a t' _ hs ih =>
    generalize has : as ++ [a] = bs at h'
    cases h' with
    | nil => simp at has
    | snoc hr' hs' =>
      obtain ⟨rfl, ha⟩ := List.append_inj' has rfl
      obtain rfl := List.singleton_inj.1 ha
      obtain rfl := ih hr'
      exact hdet _ _ _ _ hs hs'

/-- A run of a system is a run of any that allows its steps. -/
theorem Run.mono (hsub : ∀ s a t, step s a t → step' s a t) (h : Run step s as t) :
    Run step' s as t := by
  induction h with
  | nil => exact .nil
  | snoc _ hs ih => exact .snoc ih (hsub _ _ _ hs)

/-- **Runs under a map of states and labels.** When each step of one system is the step of another
that its label stands for, or no step where it stands for none, runs of the one are runs of the
other. -/
theorem Run.simulation {T B : Type _} {step' : T → B → T → Prop} (g : S → T) (f : A → Option B)
    (hnone : ∀ s a t, step s a t → f a = none → g t = g s)
    (hsome : ∀ s a t b, step s a t → f a = some b → step' (g s) b (g t)) (h : Run step s as t) :
    Run step' (g s) (as.filterMap f) (g t) := by
  induction h with
  | nil => exact .nil
  | @snoc as t a u _ hs ih =>
    rw [List.filterMap_append]
    cases hf : f a with
    | none =>
      rw [hnone _ _ _ hs hf]
      simpa [hf] using ih
    | some b =>
      simpa [hf] using ih.snoc (hsome _ _ _ _ hs hf)

/-- Runs under a map of the labels. -/
theorem Run.filterMap {B : Type _} {step' : S → B → S → Prop} (f : A → Option B)
    (hnone : ∀ s a t, step s a t → f a = none → t = s)
    (hsome : ∀ s a t b, step s a t → f a = some b → step' s b t) (h : Run step s as t) :
    Run step' s (as.filterMap f) t :=
  h.simulation id f hnone hsome

/-- **Forward simulation**: when each step is matched by steps of another system that keep the
states related, so is each run. -/
theorem Run.forward {T B : Type _} {step' : T → B → T → Prop} (Related : S → T → Prop)
    (hstep : ∀ s a s' t, Related s t → step s a s' → ∃ bs t', Run step' t bs t' ∧ Related s' t')
    {u : S} {v : T} (hinit : Related u v) (h : Run step u as t) :
    ∃ bs v', Run step' v bs v' ∧ Related t v' := by
  induction h with
  | nil => exact ⟨[], v, .nil, hinit⟩
  | snoc _ hs ih =>
    obtain ⟨bs, v', hrun, hrel⟩ := ih
    obtain ⟨more, v'', hmore, hrel'⟩ := hstep _ _ _ _ hrel hs
    exact ⟨_, v'', hrun.append hmore, hrel'⟩

/-- A label of the mapped run splits the run it came from. -/
theorem exists_of_filterMap_eq {A B : Type _} {f : A → Option B} {as : List A} {bs bs' : List B}
    {b : B} (h : as.filterMap f = bs ++ b :: bs') :
    ∃ as₁ a as₂, as = as₁ ++ a :: as₂ ∧ as₁.filterMap f = bs ∧ f a = some b := by
  obtain ⟨as₁, rest, rfl, rfl, hrest⟩ := List.filterMap_eq_append_iff.1 h
  obtain ⟨skipped, a, as₂, rfl, hskip, ha, -⟩ := List.filterMap_eq_cons_iff.1 hrest
  refine ⟨as₁ ++ skipped, a, as₂, by simp, ?_, ha⟩
  rw [List.filterMap_append, List.filterMap_eq_nil_iff.2 hskip, List.append_nil]

/-- **The step that turned a property on.** -/
theorem Run.turnsOn (P : S → Prop) (hinit : ¬ P s) (h : Run step s as t) (ht : P t) :
    ∃ as₁ a as₂ u v, as = as₁ ++ a :: as₂ ∧ Run step s as₁ u ∧ step u a v ∧ ¬ P u ∧ P v ∧
      Run step v as₂ t := by
  induction h with
  | nil => exact absurd ht hinit
  | @snoc as t a t' hr hs ih =>
    rcases Classical.em (P t) with hp | hp
    · obtain ⟨as₁, b, as₂, u, v, rfl, h1, h2, h3, h4, h5⟩ := ih hp
      exact ⟨as₁, b, as₂ ++ [a], u, v, by simp, h1, h2, h3, h4, .snoc h5 hs⟩
    · exact ⟨as, a, [], t, t', rfl, hr, hs, hp, ht, .nil⟩

end

end Runs
