import Mathlib.Tactic.TypeStar

/-!
# Runs of a transition system

A system is a partial step function `step : σ → α → Option σ`: the action is the
scheduler's choice, `none` says that the action cannot be taken in that state. Every
interleaving of the parties is then a list of actions.

* `exec` is the state a list of actions leads to;
* `Along P` says that every action of a run meets `P` in the state it is taken in;
* `outputs` are what the steps of a run put out;
* `exec_invariant` and its variants are the induction over a run, done once: an invariant is
  proved by what one step preserves. It may speak of the actions taken so far, or of what they
  have put out.
-/

namespace Runs

variable {σ α β : Type*} (step : σ → α → Option σ)

/-- The state after a list of actions, when each of them can be taken. -/
def exec (s : σ) : List α → Option σ
  | [] => some s
  | a :: as => (step s a).bind fun t => exec t as

/-- Every action of the run meets `P` in the state it is taken in. -/
def Along (P : σ → α → Prop) (s : σ) : List α → Prop
  | [] => True
  | a :: as => P s a ∧ ∀ t, step s a = some t → Along P t as

/-- A condition that can be decided at each step can be decided for a run. -/
instance decidableAlong {P : σ → α → Prop} [∀ s a, Decidable (P s a)] :
    (s : σ) → (as : List α) → Decidable (Along step P s as)
  | _, [] => isTrue trivial
  | s, a :: as =>
    match h : step s a with
    | none => decidable_of_iff (P s a) ⟨fun hp => ⟨hp, by simp [h]⟩, And.left⟩
    | some t =>
      have : Decidable (Along step P t as) := decidableAlong t as
      decidable_of_iff (P s a ∧ Along step P t as) (by simp [Along, h])

@[simp] theorem exec_nil (s : σ) : exec step s [] = some s := rfl

theorem exec_cons {s u : σ} {a : α} {as : List α} :
    exec step s (a :: as) = some u ↔ ∃ t, step s a = some t ∧ exec step t as = some u := by
  simp only [exec, Option.bind_eq_some_iff]

theorem exec_append {s u : σ} {as bs : List α} :
    exec step s (as ++ bs) = some u ↔ ∃ t, exec step s as = some t ∧ exec step t bs = some u := by
  induction as generalizing s with
  | nil => simp
  | cons a as ih =>
    simp only [List.cons_append, exec_cons, ih]
    constructor
    · rintro ⟨t, ht, v, hv, hu⟩
      exact ⟨v, ⟨t, ht, hv⟩, hu⟩
    · rintro ⟨v, ⟨t, ht, hv⟩, hu⟩
      exact ⟨t, ht, v, hv, hu⟩

/-- One more action. -/
theorem exec_concat {s t u : σ} {as : List α} {a : α} (hs : exec step s as = some t)
    (ht : step t a = some u) : exec step s (as ++ [a]) = some u :=
  (exec_append step).mpr ⟨t, hs, (exec_cons step).mpr ⟨u, ht, rfl⟩⟩

theorem Along.and {P Q : σ → α → Prop} {s : σ} {as : List α} (hP : Along step P s as)
    (hQ : Along step Q s as) : Along step (fun s a => P s a ∧ Q s a) s as := by
  induction as generalizing s with
  | nil => trivial
  | cons a as ih => exact ⟨⟨hP.1, hQ.1⟩, fun t ht => ih (hP.2 t ht) (hQ.2 t ht)⟩

/-- A condition that holds at every step whatever the run is no condition. -/
theorem along_of_forall {P : σ → α → Prop} (h : ∀ s a, P s a) (s : σ) (as : List α) :
    Along step P s as := by
  induction as generalizing s with
  | nil => trivial
  | cons a as ih => exact ⟨h s a, fun t _ => ih t⟩

/-- The steps of a run are those after its beginnings. -/
theorem along_iff {P : σ → α → Prop} {s : σ} {as : List α} :
    Along step P s as ↔
      ∀ before a after t, as = before ++ a :: after → exec step s before = some t → P t a := by
  induction as generalizing s with
  | nil =>
    constructor
    · intro _ before a after t he
      simp at he
    · exact fun _ => trivial
  | cons b as ih =>
    constructor
    · intro h before a after t he ht
      cases before with
      | nil =>
        rw [List.nil_append, List.cons.injEq] at he
        rw [exec_nil, Option.some.injEq] at ht
        rw [← ht, ← he.1]
        exact h.1
      | cons c before =>
        rw [List.cons_append, List.cons.injEq] at he
        obtain ⟨u, hu, hut⟩ := (exec_cons step).mp ht
        rw [← he.1] at hu
        exact ih.mp (h.2 u hu) before a after t he.2 hut
    · intro h
      refine ⟨h [] b as s rfl rfl, fun u hu => ih.mpr fun before a after t he ht => ?_⟩
      apply h (b :: before) a after t
      · rw [he, List.cons_append]
      · exact (exec_cons step).mpr ⟨u, hu, ht⟩

/-! ## Invariants -/

variable {step}

/-- The induction over a run whose steps all meet `P`: what such a step preserves holds
at the end. -/
theorem exec_invariant_along {P : σ → α → Prop} {Inv : σ → Prop}
    (hstep : ∀ s a t, Inv s → P s a → step s a = some t → Inv t) {s u : σ} {as : List α}
    (h0 : Inv s) (hP : Along step P s as) (h : exec step s as = some u) : Inv u := by
  induction as generalizing s with
  | nil =>
    rw [exec_nil, Option.some.injEq] at h
    exact h ▸ h0
  | cons a as ih =>
    obtain ⟨t, hst, htu⟩ := (exec_cons step).mp h
    exact ih (hstep s a t h0 hP.1 hst) (hP.2 t hst) htu

/-- The induction over a run: what every step preserves holds at the end. -/
theorem exec_invariant {Inv : σ → Prop}
    (hstep : ∀ s a t, Inv s → step s a = some t → Inv t) {s u : σ} {as : List α}
    (h0 : Inv s) (h : exec step s as = some u) : Inv u :=
  exec_invariant_along (P := fun _ _ => True) (fun s a t hs _ => hstep s a t hs) h0
    (along_of_forall step (fun _ _ => trivial) s as) h

/-- A run whose steps meet `P` meets `Q` as well, if an invariant that they keep turns the one
condition into the other. -/
theorem Along.of_invariant {P Q : σ → α → Prop} {Inv : σ → Prop}
    (hstep : ∀ s a t, Inv s → P s a → step s a = some t → Inv t)
    (hQ : ∀ s a, Inv s → P s a → Q s a) {s : σ} {as : List α} (h0 : Inv s)
    (hP : Along step P s as) : Along step Q s as := by
  induction as generalizing s with
  | nil => trivial
  | cons a as ih =>
    exact ⟨hQ s a h0 hP.1, fun t ht => ih (hstep s a t h0 hP.1 ht) (hP.2 t ht)⟩

/-! ## What a run puts out -/

/-- What the steps of a run put out, in their order. -/
def outputs (step : σ → α → Option σ) (out : σ → α → List β) (s : σ) : List α → List β
  | [] => []
  | a :: as => out s a ++
    match step s a with
    | some t => outputs step out t as
    | none => []

theorem outputs_cons {out : σ → α → List β} {s t : σ} {a : α} (h : step s a = some t)
    (as : List α) : outputs step out s (a :: as) = out s a ++ outputs step out t as := by
  rw [outputs, h]

/-- Outputs that do not depend on the state are those of the actions. -/
theorem outputs_flatMap {out : α → List β} {s u : σ} {as : List α}
    (h : exec step s as = some u) : outputs step (fun _ a => out a) s as = as.flatMap out := by
  induction as generalizing s with
  | nil => rfl
  | cons a as ih =>
    obtain ⟨t, ht, hu⟩ := (exec_cons step).mp h
    rw [outputs_cons ht, ih hu, List.flatMap_cons]

/-- Steps that put out a part of what their actions show. -/
theorem outputs_sublist {out : σ → α → List β} {seen : α → List β}
    (h : ∀ s a, (out s a).Sublist (seen a)) (s : σ) (as : List α) :
    (outputs step out s as).Sublist (as.flatMap seen) := by
  induction as generalizing s with
  | nil => exact List.nil_sublist _
  | cons a as ih =>
    rw [outputs, List.flatMap_cons]
    refine (h s a).append ?_
    cases step s a with
    | none => exact List.nil_sublist _
    | some t => exact ih t

/-- The induction over a run for an invariant that speaks of what has been put out. -/
theorem exec_invariant_outputs {out : σ → α → List β} {Inv : List β → σ → Prop}
    (hstep : ∀ bs s a t, Inv bs s → step s a = some t → Inv (bs ++ out s a) t) {s u : σ}
    {as : List α} (h0 : Inv [] s) (h : exec step s as = some u) :
    Inv (outputs step out s as) u := by
  have hrest : ∀ (bs : List β) (t : σ), Inv bs t → exec step t as = some u →
      Inv (bs ++ outputs step out t as) u := by
    clear h0 h
    induction as with
    | nil =>
      intro bs t ht hu
      rw [exec_nil, Option.some.injEq] at hu
      rw [outputs, List.append_nil, ← hu]
      exact ht
    | cons a as ih =>
      intro bs t ht hu
      obtain ⟨v, hv, hrun⟩ := (exec_cons step).mp hu
      have hlater := ih (bs ++ out t a) v (hstep bs t a v ht hv) hrun
      rwa [outputs_cons hv, ← List.append_assoc]
  exact hrest [] s h0 h

/-- The induction over a run for an invariant that speaks of the actions taken so far. -/
theorem exec_invariant_actions {Inv : List α → σ → Prop}
    (hstep : ∀ as s a t, Inv as s → step s a = some t → Inv (as ++ [a]) t) {s u : σ} {as : List α}
    (h0 : Inv [] s) (h : exec step s as = some u) : Inv as u := by
  have hall : outputs step (fun _ a => [a]) s as = as := by
    rw [outputs_flatMap h, List.flatMap_singleton']
  have hinv : Inv (outputs step (fun _ a => [a]) s as) u :=
    exec_invariant_outputs (fun as s a t => hstep as s a t) h0 h
  rwa [hall] at hinv

end Runs
