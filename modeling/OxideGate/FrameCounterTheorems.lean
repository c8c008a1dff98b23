import OxideGate.FrameCounter

/-!
# Frame counts do not depend on the chunk boundaries

* `frames` is what `FrameCounter` approximates, read off the whole stream at once;
* `Tracks P c n` relates a counter that has counted `n` frames to the stream `P` it has been fed:
  as long as the unfinished line is short the counter carries exactly its bytes, and each long
  line costs at most one frame;
* a complete line (`Tracks.line`) and an unfinished one (`Tracks.tail`) keep it, so a chunk does
  (`Tracks.feed`), wherever it is cut.
-/

namespace OxideGate

open Lines

/-! ## Lines -/

/-- A line without its trailing carriage return; only one is removed. -/
def withoutCr (line : List UInt8) : List UInt8 :=
  if line.getLast? = some 13 then line.dropLast else line

/-- A frame with a token in it: a `data:` line whose payload is not `[DONE]`. -/
def TokenFrame (line : List UInt8) : Prop :=
  ∃ payload, withoutCr line = ascii "data:" ++ payload ∧ trimAscii payload ≠ ascii "[DONE]"

theorem dropSuffix_getD (line : List UInt8) :
    (line.dropSuffix? (ascii "\r")).getD line = withoutCr line := by
  have hcr : ascii "\r" = [13] := rfl
  unfold withoutCr
  by_cases hlast : line.getLast? = some 13
  · have hline : line = line.dropLast ++ [13] := (List.dropLast_append_getLast? 13 hlast).symm
    have hsome : line.dropSuffix? (ascii "\r") = some line.dropLast :=
      List.dropSuffix?_eq_some_iff.mpr ⟨[13], hline, by rw [hcr]; rfl⟩
    rw [if_pos hlast, hsome, Option.getD_some]
  · rw [if_neg hlast]
    cases hdrop : line.dropSuffix? (ascii "\r") with
    | none => rfl
    | some l =>
      obtain ⟨s, hline, hs⟩ := List.dropSuffix?_eq_some_iff.mp hdrop
      rw [eq_of_beq hs, hcr] at hline
      exact absurd (by rw [hline, List.getLast?_concat]) hlast

/-- `count_line` counts token frames. -/
theorem countLine_eq_one (line : List UInt8) : countLine line = 1 ↔ TokenFrame line := by
  unfold countLine TokenFrame
  dsimp only
  rw [dropSuffix_getD]
  cases hdrop : (withoutCr line).dropPrefix? (ascii "data:") with
  | none =>
    refine ⟨fun h => absurd h (by simp), ?_⟩
    intro h
    obtain ⟨payload, hline, -⟩ := h
    have hsome := List.dropPrefix?_eq_some_iff.mpr ⟨ascii "data:", hline, beq_self_eq_true _⟩
    rw [hdrop] at hsome
    exact absurd hsome (by simp)
  | some payload =>
    obtain ⟨s, hline, hs⟩ := List.dropPrefix?_eq_some_iff.mp hdrop
    rw [eq_of_beq hs] at hline
    dsimp only
    constructor
    · intro h
      refine ⟨payload, hline, fun hdone => ?_⟩
      rw [if_neg (not_not.mpr hdone)] at h
      exact absurd h (by simp)
    · intro h
      obtain ⟨payload', hline', hdone⟩ := h
      have hsame : payload = payload' := List.append_cancel_left (hline.symm.trans hline')
      rw [hsame, if_pos hdone]

instance (line : List UInt8) : Decidable (TokenFrame line) :=
  decidable_of_iff _ (countLine_eq_one line)

theorem countLine_eq (line : List UInt8) : countLine line = if TokenFrame line then 1 else 0 := by
  have hle : countLine line ≤ 1 := by
    unfold countLine
    dsimp only
    split
    · split <;> omega
    · omega
  have hone := countLine_eq_one line
  by_cases h : TokenFrame line
  · rw [if_pos h]
    exact hone.mpr h
  · rw [if_neg h]
    have hne : countLine line ≠ 1 := fun h1 => h (hone.mp h1)
    omega

namespace FrameCounter

/-! ## What the counter approximates -/

/-- The token frames of a stream. -/
def frames (stream : List UInt8) : ℕ := (lines newline stream).countP fun line => TokenFrame line

/-- The complete lines that are too long to be carried over. -/
def longLines (stream : List UInt8) : ℕ :=
  (lines newline stream).countP fun line => maxPartial < line.length

theorem frames_line (P l : List UInt8) (h : newline ∉ l) :
    frames (P ++ (l ++ [newline])) = frames P + countLine (rest newline P ++ l) ∧
      longLines (P ++ (l ++ [newline]))
        = longLines P + if maxPartial < (rest newline P ++ l).length then 1 else 0 := by
  have hl := append_of_notMem h P
  unfold frames longLines
  rw [← List.append_assoc, (append_sep (P ++ l) []).1, hl.1, hl.2, lines_nil, List.countP_append,
    List.countP_append, List.countP_singleton, List.countP_singleton, countLine_eq]
  simp only [decide_eq_true_eq, and_self]

/-- The counter `c`, with `n` frames counted, has been fed the stream `P`. -/
structure Tracks (P : List UInt8) (c : FrameCounter) (n : ℕ) : Prop where
  le_frames : n ≤ frames P + longLines P
  frames_le : frames P ≤ n + longLines P
  /-- A short unfinished line is carried over whole. -/
  exact_rest : (rest newline P).length ≤ maxPartial → c.partialLine = rest newline P
  open_line : newline ∉ c.partialLine
  length_le : c.partialLine.length ≤ maxPartial

theorem tracks_fresh : Tracks [] fresh 0 where
  le_frames := Nat.zero_le _
  frames_le := Nat.zero_le _
  exact_rest := fun _ => rfl
  open_line := List.not_mem_nil
  length_le := Nat.zero_le _

/-- The end of a line: whatever was carried over, the counter starts afresh. -/
theorem Tracks.line {P : List UInt8} {c : FrameCounter} {n : ℕ} (h : Tracks P c n)
    {l : List UInt8} (hl : newline ∉ l) :
    Tracks (P ++ (l ++ [newline])) ⟨[]⟩ (n + countLine (c.partialLine ++ l)) := by
  obtain ⟨hframes, hlong⟩ := frames_line P l hl
  have hrest : rest newline (P ++ (l ++ [newline])) = [] := by
    rw [← List.append_assoc, (append_sep (P ++ l) []).2, rest_nil]
  -- a long line is miscounted by one at most, a short one is not
  have hcount : countLine (c.partialLine ++ l) ≤ 1 ∧ countLine (rest newline P ++ l) ≤ 1 := by
    rw [countLine_eq, countLine_eq]
    constructor <;> split <;> omega
  have hexact : (rest newline P ++ l).length ≤ maxPartial →
      countLine (c.partialLine ++ l) = countLine (rest newline P ++ l) := by
    intro hshort
    rw [List.length_append] at hshort
    rw [h.exact_rest (by omega)]
  have hle := h.le_frames
  have hge := h.frames_le
  exact
    { le_frames := by
        rw [hframes, hlong]
        split <;> omega
      frames_le := by
        rw [hframes, hlong]
        split <;> omega
      exact_rest := fun _ => hrest.symm
      open_line := List.not_mem_nil
      length_le := Nat.zero_le _ }

/-- Bytes without a newline: carried over, or dropped because the line is too long. -/
theorem Tracks.tail {P : List UInt8} {c : FrameCounter} {n : ℕ} (h : Tracks P c n)
    {l : List UInt8} (hl : newline ∉ l) : Tracks (P ++ l) (c.extend l) n := by
  obtain ⟨hlines, hrest⟩ := append_of_notMem hl P
  have hframes : frames (P ++ l) = frames P ∧ longLines (P ++ l) = longLines P := by
    unfold frames longLines
    rw [hlines]
    exact ⟨rfl, rfl⟩
  have hopen : newline ∉ (c.extend l).partialLine ∧
      (c.extend l).partialLine.length ≤ maxPartial := by
    unfold extend
    by_cases hfits : c.partialLine.length + l.length ≤ maxPartial
    · rw [if_pos hfits, List.length_append]
      exact ⟨fun hmem => (List.mem_append.mp hmem).elim h.open_line hl, hfits⟩
    · rw [if_neg hfits]
      exact ⟨h.open_line, h.length_le⟩
  exact
    { le_frames := by
        rw [hframes.1, hframes.2]
        exact h.le_frames
      frames_le := by
        rw [hframes.1, hframes.2]
        exact h.frames_le
      exact_rest := by
        rw [hrest, List.length_append]
        intro hshort
        -- the line is still short, so all of it has been carried over
        have hc := h.exact_rest (by omega)
        unfold extend
        rw [hc, if_pos hshort]
      open_line := hopen.1
      length_le := hopen.2 }

/-! ## Chunks -/

/-- One round of the loop of `feed`: both of its paths count the carried bytes and the line. -/
theorem feedLoop_line (c : FrameCounter) (n : ℕ) {l : List UInt8} (hl : newline ∉ l)
    (after : List UInt8) :
    c.feedLoop n (l ++ newline :: after)
      = feedLoop ⟨[]⟩ (n + countLine (c.partialLine ++ l)) after := by
  have hpos : (l ++ newline :: after).findIdx? (· == newline) = some l.length := by
    rw [List.findIdx?_append, List.findIdx?_eq_none_iff.mpr]
    · simp [List.findIdx?_cons]
    · intro b hb
      exact beq_false_of_ne fun e => hl (e ▸ hb)
  rw [feedLoop]
  split
  · rename_i hnone
    rw [hpos] at hnone
    exact absurd hnone (by simp)
  · rename_i pos hsome
    rw [hpos, Option.some.injEq] at hsome
    rw [← hsome, List.take_left, List.drop_left]
    dsimp only
    rw [List.tail_cons]
    by_cases hempty : c.partialLine.isEmpty = true
    · rw [if_pos hempty, List.isEmpty_iff.mp hempty, List.nil_append,
        show c = ⟨[]⟩ from congrArg FrameCounter.mk (List.isEmpty_iff.mp hempty)]
    · rw [if_neg hempty]

theorem feedLoop_tail (c : FrameCounter) (n : ℕ) {l : List UInt8} (hl : newline ∉ l) :
    c.feedLoop n l = (n, c, l) := by
  have hnone : l.findIdx? (· == newline) = none := by
    rw [List.findIdx?_eq_none_iff]
    intro b hb
    exact beq_false_of_ne fun e => hl (e ▸ hb)
  rw [feedLoop]
  split
  · rfl
  · rename_i pos hsome
    rw [hnone] at hsome
    exact absurd hsome (by simp)

/-- The loop of `feed` takes the complete lines off the front of the chunk; `m` frames were
counted in earlier chunks. -/
theorem Tracks.feedLoop {P : List UInt8} {c : FrameCounter} {m n : ℕ} (h : Tracks P c (m + n))
    (bytes : List UInt8) : ∃ P' n' c' l, c.feedLoop n bytes = (n', c', l) ∧ newline ∉ l ∧
      P ++ bytes = P' ++ l ∧ Tracks P' c' (m + n') := by
  -- induction on the length of what is left of the chunk
  induction hlen : bytes.length using Nat.strong_induction_on generalizing P c n bytes with
  | _ len ih =>
    by_cases hmem : newline ∈ bytes
    · obtain ⟨l, after, hbytes, hl⟩ := List.eq_append_cons_of_mem hmem
      have hshorter : after.length < len := by
        rw [← hlen, hbytes, List.length_append, List.length_cons]
        omega
      have hline := h.line hl
      rw [Nat.add_assoc] at hline
      obtain ⟨P', n', c', l', hloop, hl', hP, htracks⟩ := ih after.length hshorter hline after rfl
      refine ⟨P', n', c', l', ?_, hl', ?_, htracks⟩
      · rw [hbytes, feedLoop_line c n hl, hloop]
      · rw [← hP, hbytes]
        simp
    · exact ⟨P, n, c, bytes, feedLoop_tail c n hmem, hmem, rfl, h⟩

/-- A chunk, cut anywhere. -/
theorem Tracks.feed {P : List UInt8} {c : FrameCounter} {n : ℕ} (h : Tracks P c n)
    (bytes : List UInt8) : Tracks (P ++ bytes) (c.feed bytes).2 (n + (c.feed bytes).1) := by
  obtain ⟨P', n', c', l, hloop, hl, hP, htracks⟩ := Tracks.feedLoop (n := 0) h bytes
  rw [FrameCounter.feed, hloop, hP]
  exact htracks.tail hl

theorem Tracks.feedAll {P : List UInt8} {c : FrameCounter} {n : ℕ} (h : Tracks P c n)
    (chunks : List (List UInt8)) :
    Tracks (P ++ chunks.flatten) (c.feedAll chunks).2 (n + (c.feedAll chunks).1) := by
  induction chunks generalizing P c n with
  | nil =>
    rw [List.flatten_nil, List.append_nil]
    exact h
  | cons chunk chunks ih =>
    have htail := ih (h.feed chunk)
    rw [List.append_assoc, Nat.add_assoc] at htail
    exact htail

/-- One chunk more. -/
theorem feedAll_concat (c : FrameCounter) (chunks : List (List UInt8)) (bytes : List UInt8) :
    c.feedAll (chunks ++ [bytes]) = ((c.feedAll chunks).1 + ((c.feedAll chunks).2.feed bytes).1,
      ((c.feedAll chunks).2.feed bytes).2) := by
  induction chunks generalizing c with
  | nil => simp [FrameCounter.feedAll]
  | cons chunk chunks ih =>
    simp only [List.cons_append, FrameCounter.feedAll, ih, Nat.add_assoc]

/-- A stream without long lines is counted exactly. -/
theorem Tracks.eq_frames {P : List UInt8} {c : FrameCounter} {n : ℕ} (h : Tracks P c n)
    (hshort : ∀ line ∈ lines newline P, line.length ≤ maxPartial) : n = frames P := by
  have hlong : longLines P = 0 := by
    unfold longLines
    rw [List.countP_eq_zero]
    intro line hline
    rw [decide_eq_true_eq]
    exact Nat.not_lt.mpr (hshort line hline)
  have hle := h.le_frames
  have hge := h.frames_le
  omega

/-- However a stream is cut into chunks, the counts add up to its token frames, give or take
one for each long line; what is carried over is part of one line, and not too long. -/
theorem feedAll_frames (chunks : List (List UInt8)) :
    ((fresh.feedAll chunks).1 ≤ frames chunks.flatten + longLines chunks.flatten ∧
        frames chunks.flatten ≤ (fresh.feedAll chunks).1 + longLines chunks.flatten) ∧
      ((∀ line ∈ lines newline chunks.flatten, line.length ≤ maxPartial) →
        (fresh.feedAll chunks).1 = frames chunks.flatten) ∧
      ∀ k, newline ∉ (fresh.feedAll (chunks.take k)).2.partialLine ∧
        (fresh.feedAll (chunks.take k)).2.partialLine.length ≤ maxPartial := by
  have htracks := tracks_fresh.feedAll chunks
  rw [List.nil_append, Nat.zero_add] at htracks
  refine ⟨⟨htracks.le_frames, htracks.frames_le⟩, htracks.eq_frames, ?_⟩
  intro k
  have hk := tracks_fresh.feedAll (chunks.take k)
  exact ⟨hk.open_line, hk.length_le⟩

/-- The test of the source: two cuts inside a frame, one inside `[DONE]`. -/
example : (fresh.feedAll [ascii "da", ascii "ta: x", ascii "

data: [DO", ascii "NE]

"]).1 = 1 := by
  decide +kernel

end FrameCounter
end OxideGate
