import Mathlib.Algebra.BigOperators.Group.List.Basic
import Mathlib.Algebra.Order.BigOperators.Group.List
import Mathlib.Data.List.Induction

/-!
# Tallies: one quantity summed over a list of records

A system keeps its parties in a list and a step replaces one of them (`List.set`) or adds
one at the end. A quantity summed over the parties then changes by what that one party's
share changes; `tally_set` and `tally_concat` say so, and every counting invariant is a
linear fact about them.
-/

namespace Tally

variable {β M : Type*} [AddCommMonoid M]

/-- The sum of `f` over the records of a list. -/
def tally (f : β → M) (l : List β) : M := (l.map f).sum

@[simp] theorem tally_nil (f : β → M) : tally f [] = 0 := rfl

@[simp] theorem tally_cons (f : β → M) (b : β) (l : List β) :
    tally f (b :: l) = f b + tally f l := by
  simp [tally]

@[simp] theorem tally_append (f : β → M) (l l' : List β) :
    tally f (l ++ l') = tally f l + tally f l' := by
  simp [tally]

/-- Replacing one record exchanges its share. -/
theorem tally_set (f : β → M) {l : List β} {i : ℕ} {b : β} (h : l[i]? = some b) (c : β) :
    tally f (l.set i c) + f b = tally f l + f c := by
  induction l generalizing i with
  | nil => simp at h
  | cons x l ih =>
    cases i with
    | zero =>
      have hx : x = b := by simpa using h
      subst hx
      rw [List.set_cons_zero, tally_cons, tally_cons]
      ac_rfl
    | succ i =>
      have hl : l[i]? = some b := by simpa using h
      rw [List.set_cons_succ, tally_cons, tally_cons, add_assoc, ih hl, add_assoc]

/-- A replacement with the same share changes nothing. -/
theorem tally_set_eq {M : Type*} [AddCancelCommMonoid M] {f : β → M} {l : List β} {i : ℕ}
    {b c : β} (h : l[i]? = some b) (hf : f c = f b) : tally f (l.set i c) = tally f l := by
  have hset := tally_set f h c
  rw [hf] at hset
  exact add_right_cancel hset

theorem tally_perm (f : β → M) {l l' : List β} (h : l.Perm l') : tally f l = tally f l' :=
  (h.map f).sum_eq

theorem tally_congr {f g : β → M} {l : List β} (h : ∀ b ∈ l, f b = g b) :
    tally f l = tally g l := by
  rw [tally, tally, List.map_congr_left h]

/-- A record's share is part of the tally. -/
theorem le_tally (f : β → ℕ) {l : List β} {b : β} (h : b ∈ l) : f b ≤ tally f l := by
  induction l with
  | nil => simp at h
  | cons x l ih =>
    rw [tally_cons]
    rcases List.mem_cons.mp h with rfl | h
    · exact Nat.le_add_right _ _
    · exact (ih h).trans (Nat.le_add_left _ _)

theorem tally_eq_zero {f : β → ℕ} {l : List β} : tally f l = 0 ↔ ∀ b ∈ l, f b = 0 := by
  induction l with
  | nil => simp
  | cons x l ih => simp [ih]

/-- Shares of one or nothing count the records. -/
theorem tally_toNat (p : β → Bool) (l : List β) : tally (fun b => (p b).toNat) l = l.countP p := by
  induction l with
  | nil => rfl
  | cons x l ih =>
    rw [tally_cons, ih, List.countP_cons, Nat.add_comm]
    cases p x <;> rfl

theorem tally_le_tally [PartialOrder M] [IsOrderedAddMonoid M] {f g : β → M} {l : List β}
    (h : ∀ b ∈ l, f b ≤ g b) : tally f l ≤ tally g l :=
  List.sum_le_sum h

/-- Shares of at most one that add up to the number of records are all one. -/
theorem eq_one_of_tally_eq_length {f : β → ℕ} {l : List β} (hle : ∀ b ∈ l, f b ≤ 1)
    (h : tally f l = l.length) : ∀ b ∈ l, f b = 1 := by
  have hgap : tally (fun b => 1 - f b) l + tally f l = l.length := by
    clear h
    induction l with
    | nil => rfl
    | cons x l ih =>
      have hx := hle x List.mem_cons_self
      have hl := ih fun b hb => hle b (List.mem_cons_of_mem x hb)
      rw [tally_cons, tally_cons, List.length_cons]
      omega
  have hzero : tally (fun b => 1 - f b) l = 0 := by omega
  intro b hb
  have hb' := tally_eq_zero.mp hzero b hb
  have := hle b hb
  omega

/-- Two records at different places have both their shares in the tally. -/
theorem add_le_tally (f : β → ℕ) {l : List β} {i j : ℕ} {b c : β} (hij : i ≠ j)
    (hi : l[i]? = some b) (hj : l[j]? = some c) : f b + f c ≤ tally f l := by
  induction l generalizing i j with
  | nil => simp at hi
  | cons x l ih =>
    rw [tally_cons]
    cases i with
    | zero =>
      cases j with
      | zero => exact absurd rfl hij
      | succ j =>
        have hx : x = b := by simpa using hi
        subst hx
        have hc : c ∈ l := List.mem_of_getElem? (by simpa using hj)
        have := le_tally f hc
        omega
    | succ i =>
      cases j with
      | zero =>
        have hx : x = c := by simpa using hj
        subst hx
        have hb : b ∈ l := List.mem_of_getElem? (by simpa using hi)
        have := le_tally f hb
        omega
      | succ j =>
        have hij' : i ≠ j := fun h => hij (by rw [h])
        have := ih hij' (by simpa using hi) (by simpa using hj)
        omega

theorem tally_add (f g : β → M) (l : List β) :
    tally (fun b => f b + g b) l = tally f l + tally g l :=
  List.sum_map_add

/-! ## Tallies by number -/

theorem tally_range_ite (k n : ℕ) (c : ℕ) (h : c ≠ 0 → k < n) :
    tally (fun i => if k = i then c else 0) (List.range n) = c := by
  induction n with
  | zero =>
    by_contra hc
    exact absurd (h (Ne.symm hc)) (Nat.not_lt_zero k)
  | succ n ih =>
    rw [List.range_succ, tally_append, tally_cons, tally_nil]
    by_cases hk : k = n
    · have hzero : tally (fun i => if k = i then c else 0) (List.range n) = 0 := by
        rw [tally_eq_zero]
        intro i hi
        rw [if_neg]
        have := List.mem_range.mp hi
        omega
      rw [hzero, if_pos hk]
      omega
    · have hlt : c ≠ 0 → k < n := fun hc => lt_of_le_of_ne (Nat.lt_succ_iff.mp (h hc)) hk
      rw [ih hlt, if_neg hk, add_zero, add_zero]

/-- Records sorted by a number weigh as much as they do in the list. -/
theorem tally_fibers {f : β → ℕ} {key : β → ℕ} {l : List β} {n : ℕ}
    (h : ∀ b ∈ l, f b ≠ 0 → key b < n) :
    tally (fun i => tally (fun b => if key b = i then f b else 0) l) (List.range n)
      = tally f l := by
  induction l with
  | nil => exact tally_eq_zero.mpr fun _ _ => rfl
  | cons b l ih =>
    simp only [tally_cons]
    rw [tally_add, ih fun c hc => h c (List.mem_cons_of_mem b hc),
      tally_range_ite (key b) n (f b) (h b List.mem_cons_self)]

/-- Records looked up by their places weigh as much as they do in the list. -/
theorem tally_getElem? (f : β → M) (l : List β) :
    tally (fun i => l[i]?.elim 0 f) (List.range l.length) = tally f l := by
  induction l using List.reverseRecOn with
  | nil => rfl
  | append_singleton l b ih =>
    have hold : ∀ i ∈ List.range l.length, (l ++ [b])[i]?.elim 0 f = l[i]?.elim 0 f := by
      intro i hi
      rw [List.getElem?_append_left (List.mem_range.mp hi)]
    rw [List.length_append, List.length_singleton, List.range_succ, tally_append, tally_append,
      tally_congr hold, ih, tally_cons, tally_cons, List.getElem?_concat_length]
    rfl

/-! ## One record looked up -/

/-- After a replacement a record is the new one, or one of the others. -/
theorem getElem?_set_cases {l : List β} {i j : ℕ} {b c d : β} (h : l[i]? = some b)
    (hd : (l.set i c)[j]? = some d) : j = i ∧ d = c ∨ j ≠ i ∧ l[j]? = some d := by
  by_cases hij : i = j
  · subst hij
    rw [List.getElem?_set_self (List.getElem?_eq_some_iff.mp h).1, Option.some.injEq] at hd
    exact Or.inl ⟨rfl, hd.symm⟩
  · rw [List.getElem?_set_ne hij] at hd
    exact Or.inr ⟨Ne.symm hij, hd⟩

/-- A replacement that looks the same changes nothing that is seen. -/
theorem map_set_eq {γ : Type*} {f : β → γ} {l : List β} {i : ℕ} {b c : β} (h : l[i]? = some b)
    (hf : f c = f b) : (l.set i c).map f = l.map f := by
  obtain ⟨hi, rfl⟩ := List.getElem?_eq_some_iff.mp h
  rw [List.map_set, hf, ← List.getElem_map f (h := by rwa [List.length_map]),
    List.set_getElem_self]

/-- Replacing a record by one that has the property as well takes the property from nobody. -/
theorem any_set {p : β → Bool} {l : List β} {i : ℕ} {b c : β} (h : l[i]? = some b)
    (hp : p b → p c) {j : ℕ} (hj : l[j]?.any p) : (l.set i c)[j]?.any p := by
  by_cases hij : i = j
  · subst hij
    rw [h] at hj
    rw [List.getElem?_set_self (List.getElem?_eq_some_iff.mp h).1]
    exact hp hj
  · rw [List.getElem?_set_ne hij]
    exact hj

theorem any_append {p : β → Bool} {l l' : List β} {j : ℕ} (hj : l[j]?.any p) :
    (l ++ l')[j]?.any p := by
  cases hl : l[j]? with
  | none =>
    rw [hl] at hj
    exact absurd hj (by simp)
  | some b =>
    rw [List.getElem?_append_left (List.getElem?_eq_some_iff.mp hl).1]
    exact hj

end Tally
