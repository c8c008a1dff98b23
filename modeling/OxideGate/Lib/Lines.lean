import Mathlib.Data.List.Basic

/-!
# Lines of a stream

A line ends at a separator. `lines` are the complete lines of a stream, without their
separators, and `rest` is what follows the last separator. A stream that arrives in pieces can
be read piece by piece: what comes next either carries `rest` on or completes it.
-/

namespace Lines

variable {α : Type*} [DecidableEq α] (sep : α)

/-- The complete lines. -/
def lines (xs : List α) : List (List α) := (xs.splitOn sep).dropLast

/-- What follows the last separator. -/
def rest (xs : List α) : List α := (xs.splitOn sep).getLast (List.splitOn_ne_nil sep xs)

theorem lines_append_rest (xs : List α) : lines sep xs ++ [rest sep xs] = xs.splitOn sep :=
  List.dropLast_concat_getLast _

variable {sep}

/-- Lines and rest are read off any splitting into pieces. -/
theorem lines_rest_of_splitOn {xs : List α} {ls : List (List α)} {r : List α}
    (h : xs.splitOn sep = ls ++ [r]) : lines sep xs = ls ∧ rest sep xs = r := by
  rw [← lines_append_rest, List.append_singleton_inj] at h
  exact h

@[simp] theorem lines_nil : lines sep ([] : List α) = [] := rfl

@[simp] theorem rest_nil : rest sep ([] : List α) = [] := rfl

/-- A piece without a separator carries the rest on. -/
theorem append_of_notMem {ys : List α} (h : sep ∉ ys) (xs : List α) :
    lines sep (xs ++ ys) = lines sep xs ∧ rest sep (xs ++ ys) = rest sep xs ++ ys := by
  apply lines_rest_of_splitOn
  induction xs with
  | nil => exact List.splitOn_eq_singleton h
  | cons x xs ih =>
    have hsplit := List.splitOn_cons_eq_if_modifyHead (a := sep) x xs
    rw [← lines_append_rest sep xs] at hsplit
    rw [List.cons_append, List.splitOn_cons_eq_if_modifyHead, ih]
    by_cases hx : (x == sep) = true
    · rw [if_pos hx, ← List.cons_append] at hsplit
      obtain ⟨hl, hr⟩ := lines_rest_of_splitOn hsplit
      rw [if_pos hx, hl, hr, List.cons_append]
    · rw [if_neg hx] at hsplit ⊢
      cases hlines : lines sep xs with
      | nil =>
        rw [hlines, List.nil_append, List.modifyHead_cons, ← List.nil_append [_]] at hsplit
        obtain ⟨hl, hr⟩ := lines_rest_of_splitOn hsplit
        rw [hl, hr, List.nil_append, List.nil_append, List.modifyHead_cons, List.cons_append]
      | cons l ls =>
        rw [hlines, List.cons_append, List.modifyHead_cons, ← List.cons_append] at hsplit
        obtain ⟨hl, hr⟩ := lines_rest_of_splitOn hsplit
        rw [hl, hr, List.cons_append, List.modifyHead_cons, List.cons_append]

/-- A separator completes the rest. -/
theorem append_sep (xs ys : List α) :
    lines sep (xs ++ sep :: ys) = lines sep xs ++ rest sep xs :: lines sep ys ∧
      rest sep (xs ++ sep :: ys) = rest sep ys := by
  apply lines_rest_of_splitOn
  rw [List.splitOn_append_cons_self, ← lines_append_rest, ← lines_append_rest]
  simp

omit [DecidableEq α] in
/-- A pattern without a separator lies on one side of it. -/
theorem isInfix_append_sep {pat xs ys : List α} (hpat : sep ∉ pat) (h : pat <:+: xs ++ sep :: ys) :
    pat <:+: xs ∨ pat <:+: ys := by
  obtain ⟨before, after, heq⟩ := h
  rw [List.append_assoc, List.append_eq_append_iff] at heq
  rcases heq with ⟨xs', rfl, heq⟩ | ⟨before', rfl, heq⟩
  · rw [List.append_eq_append_iff] at heq
    rcases heq with ⟨as, rfl, -⟩ | ⟨cs, rfl, hsep⟩
    · exact Or.inl ⟨before, as, List.append_assoc _ _ _⟩
    · cases cs with
      | nil =>
        rw [List.append_nil]
        exact Or.inl (List.suffix_append before xs').isInfix
      | cons c cs =>
        rw [List.cons_append, List.cons.injEq] at hsep
        rw [← hsep.1] at hpat
        exact absurd (List.mem_append_right xs' List.mem_cons_self) hpat
  · cases before' with
    | nil =>
      cases pat with
      | nil => exact Or.inl (List.nil_infix)
      | cons c pat =>
        rw [List.nil_append, List.cons_append, List.cons.injEq] at heq
        rw [heq.1] at hpat
        exact absurd List.mem_cons_self hpat
    | cons c before' =>
      rw [List.cons_append, List.cons.injEq] at heq
      exact Or.inr ⟨before', after, by rw [heq.2, List.append_assoc]⟩

omit [DecidableEq α] in
/-- A pattern does not begin where its first element does not occur. -/
theorem isInfix_append_right {c : α} {pat xs ys : List α} (hc : c ∉ xs)
    (h : c :: pat <:+: xs ++ ys) : c :: pat <:+: ys := by
  obtain ⟨before, after, heq⟩ := h
  rw [List.append_assoc, List.append_eq_append_iff] at heq
  rcases heq with ⟨xs', rfl, heq⟩ | ⟨before', rfl, heq⟩
  · cases xs' with
    | nil => exact ⟨[], after, by rw [List.nil_append, ← List.nil_append ys]; exact heq⟩
    | cons x xs' =>
      rw [List.cons_append, List.cons_append, List.cons.injEq] at heq
      rw [heq.1] at hc
      exact absurd (List.mem_append_right before List.mem_cons_self) hc
  · exact ⟨before', after, by rw [heq, List.append_assoc]⟩

end Lines
