import OxideGate.Lib.Runs
import OxideGate.Lib.Tally

/-!
# Progress of a transition system

Every action has a cost, which the environment pays, and a state has a potential. If no step
raises the potential by its whole cost, a run is no longer than what it started with and what was
paid for it (`length_add_potential_le`). Actions that cost nothing then come to an end: from every
state they lead to one where none of them can be taken (`exists_rest`).
-/

namespace Runs

open Tally

variable {σ α : Type*} {step : σ → α → Option σ}

/-- Every step uses up at least one unit of the potential and of what it is paid. -/
def Spends (step : σ → α → Option σ) (Inv : σ → Prop) (potential : σ → ℕ) (cost : α → ℕ) : Prop :=
  ∀ s a t, Inv s → step s a = some t → potential t + 1 ≤ potential s + cost a

/-- None of the actions of a kind can be taken. -/
def Rests (step : σ → α → Option σ) (p : α → Prop) (s : σ) : Prop := ∀ a, p a → step s a = none

variable {Inv : σ → Prop} {potential : σ → ℕ} {cost : α → ℕ}

/-- A run is no longer than the potential that it uses up and the costs of its actions. -/
theorem length_add_potential_le (hinv : ∀ s a t, Inv s → step s a = some t → Inv t)
    (hspends : Spends step Inv potential cost) {s u : σ} {as : List α} (h0 : Inv s)
    (h : exec step s as = some u) : as.length + potential u ≤ potential s + tally cost as := by
  induction as generalizing s with
  | nil =>
    rw [exec_nil, Option.some.injEq] at h
    rw [h]
    exact le_of_eq (Nat.add_comm _ _)
  | cons a as ih =>
    obtain ⟨t, hst, htu⟩ := (exec_cons step).mp h
    have hstep := hspends s a t h0 hst
    have hrest := ih (hinv s a t h0 hst) htu
    rw [List.length_cons, tally_cons]
    omega

/-- Actions that cost nothing take a run no further than its potential. -/
theorem length_le_potential (hinv : ∀ s a t, Inv s → step s a = some t → Inv t)
    (hspends : Spends step Inv potential cost) {s u : σ} {as : List α} (h0 : Inv s)
    (hfree : ∀ a ∈ as, cost a = 0) (h : exec step s as = some u) :
    as.length + potential u ≤ potential s := by
  have hlen := length_add_potential_le hinv hspends h0 h
  have hsum : tally cost as = 0 := tally_eq_zero.mpr hfree
  omega

/-- Actions of a kind that cost nothing can be taken until none of them is left. -/
theorem exists_rest (hinv : ∀ s a t, Inv s → step s a = some t → Inv t)
    (hspends : Spends step Inv potential cost) {p : α → Prop} (hfree : ∀ a, p a → cost a = 0)
    {s : σ} (h0 : Inv s) :
    ∃ as u, (∀ a ∈ as, p a) ∧ exec step s as = some u ∧ Rests step p u := by
  induction hn : potential s using Nat.strongRecOn generalizing s with
  | ind n ih =>
    by_cases hrests : Rests step p s
    · exact ⟨[], s, by simp, rfl, hrests⟩
    · -- one of the actions can be taken, and lowers the potential
      unfold Rests at hrests
      push Not at hrests
      obtain ⟨a, ha, hne⟩ := hrests
      obtain ⟨t, ht⟩ := Option.ne_none_iff_exists'.mp hne
      have hlt := hspends s a t h0 ht
      rw [hfree a ha] at hlt
      obtain ⟨as, u, has, hu, hrest⟩ := ih (potential t) (by omega) (hinv s a t h0 ht) rfl
      refine ⟨a :: as, u, ?_, (exec_cons step).mpr ⟨t, ht, hu⟩, hrest⟩
      intro b hb
      rcases List.mem_cons.mp hb with rfl | hb
      · exact ha
      · exact has b hb

end Runs
