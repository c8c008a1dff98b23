import OxideGate.FrameCounterTheorems
import OxideGate.Loadgen

/-!
# When a streamed reply counts as truncated

`one_request` keeps the last 64 bytes of a stream and looks for `[DONE]` in them. That is a
property of the stream, whatever the chunks it comes in (`truncated_iff`), and close to the one
that is wanted: that some line of the stream is `data: [DONE]`. The two differ when more than 58
bytes follow the line, and when the six characters stand near the end in another line.
-/

namespace OxideGate
namespace Loadgen

open Tails

/-- A `data:` line whose payload is `[DONE]`, with white space and a carriage return aside. -/
def doneLine (line : List UInt8) : Bool :=
  match (withoutCr line).dropPrefix? (ascii "data:") with
  | some payload => trimAscii payload == ascii "[DONE]"
  | none => false

/-- The stream has a line `data: [DONE]`; the last line may lack its newline. -/
def SentDone (stream : List UInt8) : Prop := ∃ line ∈ stream.splitOn newline, doneLine line

instance decidableSentDone (stream : List UInt8) : Decidable (SentDone stream) :=
  inferInstanceAs (Decidable (∃ line ∈ stream.splitOn newline, doneLine line))

/-- `[DONE]` occurs with at most 58 bytes after it. -/
def DoneNearEnd (stream : List UInt8) : Prop :=
  ∃ before after, stream = before ++ ascii "[DONE]" ++ after ∧ after.length ≤ 58

/-- Chunks of a body that ends without an error. -/
def body (chunks : List (Duration × List UInt8)) : List Chunk :=
  chunks.map fun chunk => ⟨chunk.1, .ok chunk.2⟩

/-- The stream that the chunks are cut from. -/
def stream (chunks : List (Duration × List UInt8)) : List UInt8 :=
  (chunks.map Prod.snd).flatten

theorem extendTail_eq (tail bytes : List UInt8) :
    extendTail tail bytes = (tail ++ bytes).rtake tailLength := by
  unfold extendTail List.rtake
  dsimp only
  split
  · rfl
  · have hzero : (tail ++ bytes).length - tailLength = 0 := by omega
    rw [hzero, List.drop_zero]

theorem any_windows_iff (tail : List UInt8) :
    (windows 6 tail).any (· == ascii "[DONE]") = true ↔ ascii "[DONE]" <:+: tail := by
  have hlen : (ascii "[DONE]").length = 6 := rfl
  have hmem := mem_windows_iff (n := 6) (l := tail) (p := ascii "[DONE]")
  rw [List.any_beq', List.contains_iff_mem, hmem]
  exact and_iff_right hlen

/-- The loop ends with the bytes that all chunks leave in the tail. -/
theorem drainChunks_body (ended : Duration) (chunks : List (Duration × List UInt8))
    (ttft : Option Duration) (tail : List UInt8) :
    drainChunks ended ttft tail (body chunks) = .truncated ↔
      ¬ ascii "[DONE]" <:+: (chunks.map Prod.snd).foldl extendTail tail := by
  induction chunks generalizing ttft tail with
  | nil =>
    rw [← any_windows_iff]
    show (if (windows 6 tail).any (· == ascii "[DONE]") then Outcome.ok ttft ended
      else .truncated) = .truncated ↔ _
    by_cases hdone : (windows 6 tail).any (· == ascii "[DONE]") = true
    · rw [if_pos hdone]
      simp [hdone]
    · rw [if_neg hdone]
      simp [hdone]
  | cons chunk chunks ih => exact ih _ _

theorem oneRequest_stream {status : ℕ} (hstatus : 200 ≤ status ∧ status < 300) (ended : Duration)
    (chunks : List Chunk) :
    oneRequest true (some ⟨status, chunks, ended⟩) = drainChunks ended none [] chunks := by
  have h429 : status ≠ 429 := by omega
  simp only [oneRequest, if_neg h429, if_neg (not_not.mpr hstatus)]
  rfl

/-- A streamed reply counts as truncated unless `[DONE]` is among its last 64 bytes. -/
theorem truncated_iff {status : ℕ} (hstatus : 200 ≤ status ∧ status < 300) (ended : Duration)
    (chunks : List (Duration × List UInt8)) :
    oneRequest true (some ⟨status, body chunks, ended⟩) = .truncated ↔
      ¬ DoneNearEnd (stream chunks) := by
  have htail : (chunks.map Prod.snd).foldl extendTail [] = (stream chunks).rtake tailLength := by
    have hstep : extendTail = fun tail bytes => (tail ++ bytes).rtake tailLength := by
      funext tail bytes
      exact extendTail_eq tail bytes
    rw [hstep]
    exact foldl_rtake tailLength (chunks.map Prod.snd) []
  have hlen : (ascii "[DONE]").length = 6 := rfl
  rw [oneRequest_stream hstatus, drainChunks_body, htail, infix_rtake_iff, not_iff_not]
  refine exists_congr fun before => exists_congr fun after => and_congr_right fun _ => ?_
  rw [hlen, tailLength]
  omega

/-- How a streamed reply is classified does not depend on the chunks that it comes in. It counts as
truncated if and only if no line `data: [DONE]` was sent, exactly for the streams in which such a
line is followed by at most 58 bytes after `[DONE]`, and without such a line no `[DONE]` is. -/
theorem truncated_exact_iff {status : ℕ} (hstatus : 200 ≤ status ∧ status < 300)
    (ended : Duration) (chunks : List (Duration × List UInt8)) :
    (∀ chunks' ended', stream chunks' = stream chunks →
      (oneRequest true (some ⟨status, body chunks', ended'⟩) = .truncated ↔
        oneRequest true (some ⟨status, body chunks, ended⟩) = .truncated)) ∧
    ((oneRequest true (some ⟨status, body chunks, ended⟩) = .truncated ↔
        ¬ SentDone (stream chunks)) ↔
      (SentDone (stream chunks) → DoneNearEnd (stream chunks)) ∧
        (¬ SentDone (stream chunks) → ¬ DoneNearEnd (stream chunks))) := by
  constructor
  · intro chunks' ended' hsame
    rw [truncated_iff hstatus, truncated_iff hstatus, hsame]
  · rw [truncated_iff hstatus, not_iff_not]
    exact ⟨fun h => ⟨h.mpr, mt h.mp⟩, fun h => ⟨not_imp_not.mp h.2, h.1⟩⟩

/-- The line is cut between two chunks. -/
theorem truncated_exact_iff_split :
    oneRequest true (some ⟨200, body [(3, ascii "data: [DO"), (4, ascii "NE]\n\n")], 5⟩)
      ≠ .truncated := by
  have hiff := (truncated_exact_iff (show 200 ≤ 200 ∧ 200 < 300 by decide) 5
    [(3, ascii "data: [DO"), (4, ascii "NE]\n\n")]).2
  have hsent : SentDone (stream [(3, ascii "data: [DO"), (4, ascii "NE]\n\n")]) := by
    decide +kernel
  have hnear : DoneNearEnd (stream [(3, ascii "data: [DO"), (4, ascii "NE]\n\n")]) :=
    ⟨ascii "data: ", ascii "\n\n", by decide +kernel, by decide +kernel⟩
  have hexact := hiff.mpr ⟨fun _ => hnear, fun hno => absurd hsent hno⟩
  exact fun h => hexact.mp h hsent

/-- A complete stream with a comment of 59 bytes after its last line, and a stream that quotes
`[DONE]` and breaks off. -/
theorem truncated_not_exact :
    (oneRequest true (some ⟨200, body [(3, ascii "data: [DONE]\n" ++ List.replicate 59 58)], 4⟩)
        = .truncated ∧
      SentDone (stream [(3, ascii "data: [DONE]\n" ++ List.replicate 59 58)])) ∧
    oneRequest true (some ⟨200, body [(3, ascii "data: \"[DONE]\"\n")], 4⟩) = .ok (some 3) 4 ∧
      ¬ SentDone (stream [(3, ascii "data: \"[DONE]\"\n")]) := by
  decide +kernel

end Loadgen
end OxideGate
