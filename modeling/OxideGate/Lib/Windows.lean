import Mathlib.Algebra.Order.Field.Basic
import Mathlib.Tactic.Linarith
import Mathlib.Tactic.Ring

/-!
# Token buckets as limits on windows

A bucket of capacity `B` that fills at the rate `r` and gives one token for each grant is never
asked for its history: one number is enough. That number is the least that any window leaves
over, when a window from `u` to now allows `B + r * (now - u)` grants (`IsLevel`). Time that
passes and a grant change both in the same way, so a grant is refused exactly when some window
has no room for it (`IsLevel.lt_iff`).
-/

namespace Windows

variable {R : Type*} [LinearOrder R] {grants : List R}

/-- The grants from the time `u` on. -/
def since (grants : List R) (u : R) : ℕ := grants.countP fun g => u ≤ g

theorem since_of_lt {u : R} (h : ∀ g ∈ grants, g < u) : since grants u = 0 := by
  rw [since, List.countP_eq_zero]
  intro g hg
  rw [decide_eq_true_eq]
  exact not_le.mpr (h g hg)

theorem since_concat {t u : R} (h : u ≤ t) : since (grants ++ [t]) u = since grants u + 1 := by
  rw [since, List.countP_append, List.countP_singleton, if_pos (by simpa using h)]
  rfl

variable [Field R]

/-- What the window from `u` to `t` leaves over. -/
def leftOver (B r : R) (grants : List R) (t u : R) : R := B + r * (t - u) - since grants u

/-- `L` is the least that the windows between `t0` and `t` leave over. -/
structure IsLevel (B r t0 : R) (grants : List R) (t L : R) : Prop where
  start_le : t0 ≤ t
  grants_le : ∀ g ∈ grants, g ≤ t
  le_leftOver : ∀ u, t0 ≤ u → u ≤ t → L ≤ leftOver B r grants t u
  attained : ∃ u, t0 ≤ u ∧ u ≤ t ∧ L = leftOver B r grants t u

variable {B r t0 t t' L : R}

/-- The level is too low for `x` exactly when some window is. -/
theorem IsLevel.lt_iff (h : IsLevel B r t0 grants t L) (x : R) :
    L < x ↔ ∃ u, t0 ≤ u ∧ u ≤ t ∧ leftOver B r grants t u < x := by
  constructor
  · intro hL
    obtain ⟨u, h0, hu, heq⟩ := h.attained
    exact ⟨u, h0, hu, heq ▸ hL⟩
  · intro hu
    obtain ⟨u, h0, hu, hlt⟩ := hu
    exact lt_of_le_of_lt (h.le_leftOver u h0 hu) hlt

variable [IsStrictOrderedRing R]

/-- A full bucket. -/
theorem isLevel_full (B r t0 : R) : IsLevel B r t0 [] t0 B where
  start_le := le_refl t0
  grants_le := fun g hg => absurd hg List.not_mem_nil
  le_leftOver := fun u h0 hu => by
    have hu0 : u = t0 := le_antisymm hu h0
    rw [hu0, leftOver, since, List.countP_nil, Nat.cast_zero]
    linarith
  attained := by
    refine ⟨t0, le_refl t0, le_refl t0, ?_⟩
    rw [leftOver, since, List.countP_nil, Nat.cast_zero]
    ring

/-- Time passes: every window grows, and the bucket fills up to its capacity. -/
theorem IsLevel.elapse (h : IsLevel B r t0 grants t L) (hr : 0 ≤ r) (ht : t < t') :
    IsLevel B r t0 grants t' (min (L + (t' - t) * r) B) where
  start_le := h.start_le.trans ht.le
  grants_le := fun g hg => (h.grants_le g hg).trans ht.le
  le_leftOver := by
    intro u h0 hu
    by_cases hut : u ≤ t
    · have hle := h.le_leftOver u h0 hut
      refine (min_le_left _ _).trans ?_
      unfold leftOver at hle ⊢
      linarith
    · -- nothing has been granted since `u`
      have hnone : since grants u = 0 :=
        since_of_lt fun g hg => lt_of_le_of_lt (h.grants_le g hg) (not_le.mp hut)
      have hgrow := mul_nonneg hr (sub_nonneg.mpr hu)
      refine (min_le_right _ _).trans ?_
      rw [leftOver, hnone, Nat.cast_zero]
      linarith
  attained := by
    rcases min_choice (L + (t' - t) * r) B with hmin | hmin
    · obtain ⟨u, h0, hu, hL⟩ := h.attained
      refine ⟨u, h0, hu.trans ht.le, ?_⟩
      rw [hmin, hL]
      unfold leftOver
      ring
    · refine ⟨t', h.start_le.trans ht.le, le_refl t', ?_⟩
      have hnone : since grants t' = 0 :=
        since_of_lt fun g hg => lt_of_le_of_lt (h.grants_le g hg) ht
      rw [hmin, leftOver, hnone, Nat.cast_zero]
      ring

/-- A grant counts in every window up to now. -/
theorem IsLevel.grant (h : IsLevel B r t0 grants t L) :
    IsLevel B r t0 (grants ++ [t]) t (L - 1) where
  start_le := h.start_le
  grants_le := by
    intro g hg
    rcases List.mem_append.mp hg with hg | hg
    · exact h.grants_le g hg
    · exact le_of_eq (List.mem_singleton.mp hg)
  le_leftOver := by
    intro u h0 hu
    have hle := h.le_leftOver u h0 hu
    rw [leftOver, since_concat hu]
    unfold leftOver at hle
    push_cast
    linarith
  attained := by
    obtain ⟨u, h0, hu, hL⟩ := h.attained
    refine ⟨u, h0, hu, ?_⟩
    rw [hL, leftOver, leftOver, since_concat hu]
    push_cast
    ring

end Windows
