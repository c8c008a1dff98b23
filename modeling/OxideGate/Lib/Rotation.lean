import Mathlib.Data.List.Nodup

/-!
# Who comes first in a rotation

A rotation is a duplicate-free list that loses entries at its front and gains them at its
back; rotating moves the front to the back. `Ahead a b l` says that `a` is met before `b`
when the rotation `l` is walked from its front. Nothing that happens behind `b` changes who
is ahead of `b`.
-/

namespace Rotation

variable {α : Type*} [DecidableEq α]

/-- `a` stands before the first `b` of `l`. -/
def Ahead (a b : α) (l : List α) : Prop := a ∈ l.takeWhile (· ≠ b)

/-- Who is ahead of somebody is in the rotation. -/
theorem Ahead.mem {a b : α} {l : List α} (h : Ahead a b l) : a ∈ l :=
  (List.takeWhile_prefix _).subset h

@[simp] theorem not_ahead_front (a b : α) (l : List α) : ¬ Ahead a b (b :: l) := by
  simp [Ahead]

/-- Who is met first is ahead of `b`, or it does not matter. -/
theorem ahead_cons {a b c : α} (hc : c ≠ b) (l : List α) :
    Ahead a b (c :: l) ↔ a = c ∨ Ahead a b l := by
  simp [Ahead, hc]

/-- Whoever joins at the back joins behind `b`. -/
theorem ahead_append {a b : α} {l : List α} (hb : b ∈ l) (l' : List α) :
    Ahead a b (l ++ l') ↔ Ahead a b l := by
  induction l with
  | nil => simp at hb
  | cons c l ih =>
    by_cases hc : c = b
    · subst hc
      simp
    · have hbl : b ∈ l := (List.mem_cons.mp hb).resolve_left (Ne.symm hc)
      rw [List.cons_append, ahead_cons hc, ahead_cons hc, ih hbl]

/-! ## How many come first -/

/-- How many stand before the first `b` of `l`. -/
def rank (b : α) (l : List α) : ℕ := (l.takeWhile (· ≠ b)).length

/-- How many of `l` are not `b`. -/
def others (b : α) (l : List α) : ℕ := l.countP (· ≠ b)

@[simp] theorem rank_cons_self (b : α) (l : List α) : rank b (b :: l) = 0 := by
  simp [rank]

/-- One more is ahead of `b` when another one is put in front. -/
theorem rank_cons_ne {b c : α} (hc : c ≠ b) (l : List α) : rank b (c :: l) = rank b l + 1 := by
  simp [rank, hc]

/-- Who joins at the back does not come before `b`. -/
theorem rank_append {b : α} {l : List α} (hb : b ∈ l) (l' : List α) :
    rank b (l ++ l') = rank b l := by
  induction l with
  | nil => simp at hb
  | cons c l ih =>
    by_cases hc : c = b
    · rw [hc, List.cons_append, rank_cons_self, rank_cons_self]
    · have hbl : b ∈ l := (List.mem_cons.mp hb).resolve_left (Ne.symm hc)
      rw [List.cons_append, rank_cons_ne hc, rank_cons_ne hc, ih hbl]

/-- At the back of a rotation everybody else comes first. -/
theorem rank_concat {b : α} {l : List α} (hb : b ∉ l) : rank b (l ++ [b]) = others b l := by
  induction l with
  | nil => simp [rank, others]
  | cons c l ih =>
    obtain ⟨hc, hl⟩ := not_or.mp fun h => hb (List.mem_cons.mpr h)
    rw [List.cons_append, rank_cons_ne (Ne.symm hc), ih hl, others, others,
      List.countP_cons_of_pos (by simpa using Ne.symm hc)]

/-- No more come first than there are others. -/
theorem rank_le_others (b : α) (l : List α) : rank b l ≤ others b l := by
  induction l with
  | nil => exact Nat.le_refl _
  | cons c l ih =>
    by_cases hc : c = b
    · rw [hc, rank_cons_self]
      exact Nat.zero_le _
    · rw [rank_cons_ne hc, others, List.countP_cons_of_pos (by simpa using hc)]
      exact Nat.succ_le_succ ih

/-- The order does not matter. -/
theorem others_perm {b : α} {l l' : List α} (h : l.Perm l') : others b l = others b l' :=
  h.countP_eq _

@[simp] theorem others_concat_self (b : α) (l : List α) : others b (l ++ [b]) = others b l := by
  simp [others]

end Rotation
