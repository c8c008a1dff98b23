import OxideGate.Lib.Runs

/-!
# Simulations

A system `Simulates` another one if each of its steps is a run of the other, which may be empty,
and shows no more than the step puts out. Runs of the first are then runs of the second
(`Simulates.exec`): what holds of every run of the abstract system holds of the concrete one, seen
through the relation.
-/

namespace Runs

variable {σ τ α β ο : Type*} {concrete : σ → α → Option σ} {abstract : τ → β → Option τ}
  {Rel : σ → τ → Prop} {out : σ → α → List ο} {seen : β → List ο}

/-- Each step of `concrete` is a run of `abstract`, whose actions show a part of what the step puts
out. -/
def Simulates (concrete : σ → α → Option σ) (abstract : τ → β → Option τ) (Rel : σ → τ → Prop)
    (out : σ → α → List ο) (seen : β → List ο) : Prop :=
  ∀ s a s' t, Rel s t → concrete s a = some s' →
    ∃ bs t', exec abstract t bs = some t' ∧ Rel s' t' ∧ (bs.flatMap seen).Sublist (out s a)

/-- Each run of `concrete` is a run of `abstract`. -/
theorem Simulates.exec (h : Simulates concrete abstract Rel out seen) {s s' : σ} {t : τ}
    {as : List α} (hrel : Rel s t) (hrun : exec concrete s as = some s') :
    ∃ bs t', exec abstract t bs = some t' ∧ Rel s' t' ∧
      (bs.flatMap seen).Sublist (outputs concrete out s as) := by
  induction as generalizing s t with
  | nil =>
    rw [exec_nil, Option.some.injEq] at hrun
    exact ⟨[], t, rfl, hrun ▸ hrel, List.Sublist.refl _⟩
  | cons a as ih =>
    obtain ⟨u, hu, hrest⟩ := (exec_cons _).mp hrun
    obtain ⟨bs, t₁, hbs, hrel₁, hseen⟩ := h s a u t hrel hu
    obtain ⟨cs, t₂, hcs, hrel₂, hseen₂⟩ := ih hrel₁ hrest
    refine ⟨bs ++ cs, t₂, (exec_append _).mpr ⟨t₁, hbs, hcs⟩, hrel₂, ?_⟩
    rw [List.flatMap_append, outputs_cons hu]
    exact hseen.append hseen₂

end Runs
