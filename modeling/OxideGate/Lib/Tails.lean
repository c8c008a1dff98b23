import Mathlib.Data.List.DropRight
import Mathlib.Data.List.Infix

/-!
# The end of a stream

A reader that keeps the last `n` elements of what it has seen, piece after piece, has the last `n`
elements of the stream (`foldl_rtake`), however the stream is cut. A pattern is in that tail
exactly if it occurs in the stream with not more than the rest of the tail after it.
-/

namespace Tails

variable {α : Type*}

/-- The runs of `n` consecutive elements, in order. -/
def windows (n : ℕ) (l : List α) : List (List α) :=
  (List.range (l.length + 1 - n)).map fun i => (l.drop i).take n

theorem mem_windows_iff {n : ℕ} {l p : List α} : p ∈ windows n l ↔ p.length = n ∧ p <:+: l := by
  constructor
  · intro h
    obtain ⟨i, hi, rfl⟩ := List.mem_map.mp h
    have hlt := List.mem_range.mp hi
    refine ⟨?_, (List.take_prefix _ _).isInfix.trans (List.drop_suffix _ _).isInfix⟩
    rw [List.length_take, List.length_drop]
    omega
  · rintro ⟨rfl, before, after, rfl⟩
    refine List.mem_map.mpr ⟨before.length, List.mem_range.mpr ?_, ?_⟩
    · simp only [List.length_append]
      omega
    · rw [List.append_assoc, List.drop_left, List.take_left]

theorem rtake_suffix (n : ℕ) (l : List α) : l.rtake n <:+ l := List.drop_suffix _ _

theorem length_rtake (n : ℕ) (l : List α) : (l.rtake n).length = min n l.length := by
  rw [List.rtake, List.length_drop]
  omega

/-- Two ends of one list that are equally long are equal. -/
theorem eq_of_suffix {l a b : List α} (ha : a <:+ l) (hb : b <:+ l) (hlen : a.length = b.length) :
    a = b :=
  (List.suffix_of_suffix_length_le ha hb hlen.le).eq_of_length hlen

/-- What was cut off before does not matter to the tail. -/
theorem rtake_append (n : ℕ) (l m : List α) : (l.rtake n ++ m).rtake n = (l ++ m).rtake n := by
  have hleft : l.rtake n ++ m <:+ l ++ m := by
    obtain ⟨before, hbefore⟩ := rtake_suffix n l
    exact ⟨before, by rw [← List.append_assoc, hbefore]⟩
  refine eq_of_suffix ((rtake_suffix n _).trans hleft) (rtake_suffix n _) ?_
  rw [length_rtake, length_rtake, List.length_append, List.length_append, length_rtake]
  omega

/-- The tail of a stream that is read piece after piece. -/
theorem foldl_rtake (n : ℕ) (pieces : List (List α)) (l : List α) :
    pieces.foldl (fun tail piece => (tail ++ piece).rtake n) (l.rtake n)
      = (l ++ pieces.flatten).rtake n := by
  induction pieces generalizing l with
  | nil => rw [List.foldl_nil, List.flatten_nil, List.append_nil]
  | cons piece pieces ih =>
    rw [List.foldl_cons, rtake_append, ih, List.flatten_cons, List.append_assoc]

/-- A pattern is in the tail exactly if it occurs with little enough after it. -/
theorem infix_rtake_iff {n : ℕ} {l p : List α} : p <:+: l.rtake n ↔
    ∃ before after, l = before ++ p ++ after ∧ p.length + after.length ≤ n := by
  have hlen := length_rtake n l
  constructor
  · rintro ⟨before, after, htail⟩
    obtain ⟨start, hstart⟩ := rtake_suffix n l
    refine ⟨start ++ before, after, ?_, ?_⟩
    · rw [← hstart, ← htail, List.append_assoc, List.append_assoc, List.append_assoc]
    · rw [← htail, List.length_append, List.length_append] at hlen
      omega
  · rintro ⟨before, after, hl, hle⟩
    have hend : p ++ after <:+ l := ⟨before, by rw [hl, List.append_assoc]⟩
    have hshort : (p ++ after).length ≤ (l.rtake n).length := by
      have := hend.length_le
      rw [List.length_append] at this ⊢
      omega
    exact (List.prefix_append p after).isInfix.trans
      (List.suffix_of_suffix_length_le hend (rtake_suffix n l) hshort).isInfix

end Tails
