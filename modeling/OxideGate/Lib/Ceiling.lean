import Mathlib.Algebra.Order.Group.MinMax
import Mathlib.Algebra.BigOperators.Group.List.Basic
import Mathlib.Algebra.Order.BigOperators.Group.List

/-!
# A level under a ceiling

A level takes signed amounts one after the other, and what would lift it above the ceiling is
lost. Amounts that are never negative can be taken in any order, and so can amounts whose gains
all fit under the ceiling; no other list of amounts can (`putAll_perm_iff`).
-/

namespace Ceiling

variable {M : Type*} [AddCommGroup M] [LinearOrder M] [IsOrderedAddMonoid M]

/-- The level after one amount. -/
def put (c x d : M) : M := min (x + d) c

/-- The level after a list of amounts. -/
def putAll (c x : M) (ds : List M) : M := ds.foldl (put c) x

/-- What the gains in a list add up to. -/
def gains (ds : List M) : M := (ds.map fun d => max d 0).sum

omit [IsOrderedAddMonoid M] in
theorem putAll_cons (c x d : M) (ds : List M) :
    putAll c x (d :: ds) = putAll c (put c x d) ds := rfl

omit [IsOrderedAddMonoid M] in
theorem putAll_append (c x : M) (ds ds' : List M) :
    putAll c x (ds ++ ds') = putAll c (putAll c x ds) ds' :=
  List.foldl_append

omit [IsOrderedAddMonoid M] in
theorem gains_cons (d : M) (ds : List M) : gains (d :: ds) = max d 0 + gains ds := by
  rw [gains, List.map_cons, List.sum_cons]
  rfl

theorem gains_nonneg (ds : List M) : 0 ≤ gains ds := by
  refine List.sum_nonneg fun d hd => ?_
  obtain ⟨e, -, rfl⟩ := List.mem_map.mp hd
  exact le_max_right e 0

omit [IsOrderedAddMonoid M] in
theorem gains_of_nonneg {ds : List M} (h : ∀ d ∈ ds, 0 ≤ d) : gains ds = ds.sum := by
  have hmap : ds.map (fun d => max d 0) = ds :=
    (List.map_congr_left fun d hd => max_eq_left (h d hd)).trans (List.map_id ds)
  rw [gains, hmap]

omit [IsOrderedAddMonoid M] in
theorem gains_of_nonpos {ds : List M} (h : ∀ d ∈ ds, d ≤ 0) : gains ds = 0 := by
  refine List.sum_eq_zero fun d hd => ?_
  obtain ⟨e, he, rfl⟩ := List.mem_map.mp hd
  exact max_eq_right (h e he)

omit [IsOrderedAddMonoid M] in
theorem gains_perm {ds ds' : List M} (h : ds.Perm ds') : gains ds = gains ds' :=
  (h.map _).sum_eq

omit [IsOrderedAddMonoid M] in
theorem gains_append (ds ds' : List M) : gains (ds ++ ds') = gains ds + gains ds' := by
  rw [gains, List.map_append, List.sum_append]
  rfl

theorem sum_neg_of_neg {ds : List M} (hne : ds ≠ []) (h : ∀ d ∈ ds, d < 0) : ds.sum < 0 := by
  obtain ⟨d, rest, rfl⟩ := List.exists_cons_of_ne_nil hne
  have hd : d < 0 := h d List.mem_cons_self
  have hrest : rest.sum ≤ (rest.map fun _ => (0 : M)).sum := by
    conv_lhs => rw [← List.map_id rest]
    exact List.sum_le_sum fun e he => (h e (List.mem_cons_of_mem d he)).le
  rw [List.sum_map_zero] at hrest
  rw [List.sum_cons]
  exact add_neg_of_neg_of_nonpos hd hrest

/-- Gains alone are cut off once, at the end. -/
theorem putAll_of_nonneg {c x : M} {ds : List M} (hx : x ≤ c) (h : ∀ d ∈ ds, 0 ≤ d) :
    putAll c x ds = min (x + ds.sum) c := by
  induction ds generalizing x with
  | nil => rw [List.sum_nil, add_zero, min_eq_left hx, putAll, List.foldl_nil]
  | cons d ds ih =>
    have hds : ∀ e ∈ ds, 0 ≤ e := fun e he => h e (List.mem_cons_of_mem d he)
    have hput : put c x d ≤ c := min_le_right _ _
    rw [putAll_cons, ih hput hds, put, min_add, min_assoc,
      min_eq_right (le_add_of_nonneg_right (List.sum_nonneg hds)), List.sum_cons, add_assoc]

/-- Nothing is cut off when the gains fit. -/
theorem putAll_of_fits {c x : M} {ds : List M} (h : x + gains ds ≤ c) :
    putAll c x ds = x + ds.sum := by
  induction ds generalizing x with
  | nil => rw [List.sum_nil, add_zero, putAll, List.foldl_nil]
  | cons d ds ih =>
    rw [gains_cons, ← add_assoc] at h
    have hstep : x + d + gains ds ≤ c :=
      (add_le_add_left (add_le_add_right (le_max_left d 0) x) _).trans h
    have hd : x + d ≤ c := (le_add_of_nonneg_right (gains_nonneg ds)).trans hstep
    rw [putAll_cons, put, min_eq_left hd, ih hstep, List.sum_cons, add_assoc]

/-- With a loss, and gains that do not fit, gains first leave less than losses first. -/
theorem putAll_gains_lt_losses {c x : M} (hx : x ≤ c) {ps ns : List M} (hps : ∀ d ∈ ps, 0 ≤ d)
    (hns : ∀ d ∈ ns, d < 0) (hne : ns ≠ []) (hover : c < x + ps.sum) :
    putAll c x (ps ++ ns) < putAll c x (ns ++ ps) := by
  have hneg := sum_neg_of_neg hne hns
  have hzero : gains ns = 0 := gains_of_nonpos fun d hd => (hns d hd).le
  have hfirst : putAll c x (ps ++ ns) = c + ns.sum := by
    rw [putAll_append, putAll_of_nonneg hx hps, min_eq_right hover.le, putAll_of_fits]
    rw [hzero, add_zero]
  have hlast : putAll c x (ns ++ ps) = min (x + ns.sum + ps.sum) c := by
    have hns_fit : x + gains ns ≤ c := by
      rw [hzero, add_zero]
      exact hx
    have hlow : x + ns.sum ≤ c := (add_le_of_nonpos_right hneg.le).trans hx
    rw [putAll_append, putAll_of_fits hns_fit, putAll_of_nonneg hlow hps]
  rw [hfirst, hlast, lt_min_iff]
  constructor
  · rw [add_right_comm]
    exact add_lt_add_left hover _
  · exact add_lt_of_neg_right c hneg

/-- The order of the amounts does not matter exactly if there is no loss, or the gains fit. -/
theorem putAll_perm_iff {c x : M} (hx : x ≤ c) (ds : List M) :
    (∀ ds₁ ds₂, ds₁.Perm ds → ds₂.Perm ds → putAll c x ds₁ = putAll c x ds₂) ↔
      (∀ d ∈ ds, 0 ≤ d) ∨ x + gains ds ≤ c := by
  constructor
  · intro h
    by_contra hcon
    push Not at hcon
    obtain ⟨⟨d, hd, hneg⟩, hover⟩ := hcon
    have hsplit : (ds.filter (0 ≤ ·) ++ ds.filter fun e => ! decide (0 ≤ e)).Perm ds :=
      List.filter_append_perm _ ds
    have hps : ∀ e ∈ ds.filter (0 ≤ ·), 0 ≤ e := fun e he => by
      simpa using (List.mem_filter.mp he).2
    have hns : ∀ e ∈ ds.filter (fun e => ! decide (0 ≤ e)), e < 0 := fun e he => by
      simpa using (List.mem_filter.mp he).2
    have hne : (ds.filter fun e => ! decide (0 ≤ e)) ≠ [] := by
      refine List.ne_nil_of_mem (List.mem_filter.mpr ⟨hd, ?_⟩)
      simpa using hneg
    have hgains : gains ds = (ds.filter (0 ≤ ·)).sum := by
      rw [← gains_perm hsplit, gains_append, gains_of_nonneg hps,
        gains_of_nonpos fun e he => (hns e he).le, add_zero]
    rw [hgains] at hover
    have hlt := putAll_gains_lt_losses hx hps hns hne hover
    exact hlt.ne (h _ _ hsplit (List.perm_append_comm.trans hsplit))
  · intro h ds₁ ds₂ h₁ h₂
    have hsum : ds₁.sum = ds₂.sum := (h₁.trans h₂.symm).sum_eq
    rcases h with hnonneg | hfits
    · rw [putAll_of_nonneg hx fun d hd => hnonneg d (h₁.mem_iff.mp hd),
        putAll_of_nonneg hx fun d hd => hnonneg d (h₂.mem_iff.mp hd), hsum]
    · rw [putAll_of_fits (by rw [gains_perm h₁]; exact hfits),
        putAll_of_fits (by rw [gains_perm h₂]; exact hfits), hsum]

end Ceiling
