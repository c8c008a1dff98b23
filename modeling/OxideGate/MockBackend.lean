import OxideGate.FrameCounterTheorems
import OxideGate.Lib.PyJson

/-!
# What the mock backend streams (`tools/mock_backend.py`)

A streamed reply of the mock backend is one `data:` frame for each token, with a JSON object in
it, and `data: [DONE]` at the end. The model name comes from the request and is part of every
frame: whatever it is, a frame stays on its line (`newline_notMem_payload`) and counts as one
token (`countLine_event`).
-/

namespace OxideGate
namespace MockBackend

open PyJson Lines

/-- `text.encode()`, of text that is ASCII. -/
def encode (text : List Char) : List UInt8 := text.map fun ch => ch.toNat.toUInt8

/-- The `frame` of token `i`. -/
def frame (model : String) (i : ℕ) : Json :=
  .obj [("id", .str "chatcmpl-mock"), ("object", .str "chat.completion.chunk"),
    ("model", .str model),
    ("choices", .arr [.obj [("index", .num 0), ("delta", .obj [("content", .str s!"tok{i} ")])]])]

/-- What `_stream` writes, piece by piece. -/
def streamTexts (model : String) (tokens : ℕ) : List (List Char) :=
  (List.range tokens).map
      (fun i => "data: ".toList ++ dumps (frame model i) ++ "\n\n".toList)
    ++ ["data: [DONE]\n\n".toList]

/-- The body of a streamed reply. -/
def streamBody (model : String) (tokens : ℕ) : List UInt8 :=
  encode (streamTexts model tokens).flatten

/-! ## A frame -/

/-- The JSON of token `i`, as bytes. -/
def payload (model : String) (i : ℕ) : List UInt8 := encode (dumps (frame model i))

/-- The line of a frame. -/
def event (payload : List UInt8) : List UInt8 := ascii "data: " ++ payload

/-- The line that ends a stream. -/
def doneEvent : List UInt8 := event (ascii "[DONE]")

/-- The first frames of a stream. -/
def events (model : String) (tokens : ℕ) : List UInt8 :=
  (List.range tokens).flatMap fun i => event (payload model i) ++ [newline, newline]

theorem encode_append (text text' : List Char) :
    encode (text ++ text') = encode text ++ encode text' :=
  List.map_append

theorem streamBody_eq (model : String) (tokens : ℕ) :
    streamBody model tokens = events model tokens ++ (doneEvent ++ [newline, newline]) := by
  have hframe : ∀ i, encode ("data: ".toList ++ dumps (frame model i) ++ "\n\n".toList)
      = event (payload model i) ++ [newline, newline] := by
    intro i
    rw [encode_append, encode_append]
    rfl
  rw [streamBody, streamTexts, List.flatten_append, encode_append, events, List.flatMap_def]
  congr 1
  rw [encode, List.map_flatten, List.map_map]
  congr 1
  apply List.map_congr_left
  intro i _
  exact hframe i

/-- One frame more. -/
theorem events_succ (model : String) (tokens : ℕ) :
    events model (tokens + 1)
      = events model tokens ++ (event (payload model tokens) ++ [newline, newline]) := by
  rw [events, List.range_succ, List.flatMap_append, List.flatMap_singleton]
  rfl

/-- The bytes of printable text. -/
theorem printable_bytes {text : List Char} (h : Printable text) :
    ∀ b ∈ encode text, 32 ≤ b.toNat ∧ b.toNat ≤ 126 := by
  intro b hb
  obtain ⟨ch, hch, rfl⟩ := List.mem_map.mp hb
  have hrange := h ch hch
  have hbyte : ch.toNat.toUInt8.toNat = ch.toNat := by
    rw [Nat.toUInt8, UInt8.toNat_ofNat_of_lt' (show ch.toNat < 256 by omega)]
  rw [hbyte]
  exact hrange

theorem newline_notMem_payload (model : String) (i : ℕ) : newline ∉ payload model i := by
  intro hmem
  have hbyte := (printable_bytes (printable_dumps _) newline hmem).1
  exact absurd hbyte (by decide)

/-- The JSON is an object. -/
theorem payload_eq (model : String) (i : ℕ) :
    ∃ fields, payload model i = 123 :: fields ++ [125] := by
  rw [payload, frame, dumps, encode_append, encode_append]
  exact ⟨_, rfl⟩

/-- An object is no `[DONE]`. -/
theorem countLine_event (model : String) (i : ℕ) : countLine (event (payload model i)) = 1 := by
  rw [countLine_eq_one]
  obtain ⟨fields, hpayload⟩ := payload_eq model i
  have hcr : withoutCr (event (payload model i)) = event (payload model i) := by
    rw [withoutCr, if_neg]
    rw [hpayload, event, ← List.append_assoc, List.getLast?_concat]
    decide
  refine ⟨32 :: payload model i, by rw [hcr]; rfl, fun hdone => ?_⟩
  have htrimmed : (32 :: payload model i).dropWhile isAsciiWhitespace = payload model i := by
    rw [hpayload]
    rfl
  have hstart := List.rdropWhile_prefix isAsciiWhitespace (payload model i)
  rw [trimAscii, htrimmed] at hdone
  rw [hdone, hpayload] at hstart
  exact absurd (List.cons_prefix_cons.mp hstart).1 (by decide)

/-- A frame is one line. -/
theorem newline_notMem_event (model : String) (i : ℕ) : newline ∉ event (payload model i) := by
  intro hmem
  rcases List.mem_append.mp hmem with hmem | hmem
  · exact absurd hmem (by decide)
  · exact newline_notMem_payload model i hmem

/-! ## A stream that is cut -/

/-- The stream up to and including the end of the line of frame `i`. -/
def sent (model : String) (i : ℕ) : List UInt8 :=
  events model i ++ (event (payload model i) ++ [newline])

/-- A beginning of two pieces ends in one of them. -/
theorem isPrefix_append_cases {p l l' : List UInt8} (h : p <+: l ++ l') :
    p <+: l ∨ ∃ q, p = l ++ q ∧ q <+: l' := by
  rcases List.prefix_or_prefix_of_prefix h (List.prefix_append l l') with hp | ⟨q, rfl⟩
  · exact Or.inl hp
  · exact Or.inr ⟨q, rfl, (List.prefix_append_right_inj l).mp h⟩

/-- A line with a blank line after it, cut anywhere, counts once it is complete. -/
theorem frames_cut_line {P l q : List UInt8} (hrest : rest newline P = []) (hl : newline ∉ l)
    (hshort : l.length ≤ FrameCounter.maxPartial) (hq : q <+: l ++ [newline, newline]) :
    FrameCounter.frames (P ++ q)
        = FrameCounter.frames P + (if l ++ [newline] <+: q then countLine l else 0) ∧
      FrameCounter.longLines (P ++ q) = FrameCounter.longLines P := by
  have hopen : ∀ q', newline ∉ q' → FrameCounter.frames (P ++ q') = FrameCounter.frames P ∧
      FrameCounter.longLines (P ++ q') = FrameCounter.longLines P := by
    intro q' hq'
    unfold FrameCounter.frames FrameCounter.longLines
    rw [(append_of_notMem hq' P).1]
    exact ⟨rfl, rfl⟩
  have hline := FrameCounter.frames_line P l hl
  rw [hrest, List.nil_append, if_neg (Nat.not_lt.mpr hshort)] at hline
  have hclosed : rest newline (P ++ (l ++ [newline])) = [] := by
    rw [← List.append_assoc, (append_sep (P ++ l) []).2, rest_nil]
  have hblank := FrameCounter.frames_line (P ++ (l ++ [newline])) [] List.not_mem_nil
  rw [hclosed, List.nil_append, List.nil_append, List.length_nil,
    if_neg (Nat.not_lt_zero _)] at hblank
  rcases isPrefix_append_cases hq with hopened | ⟨q', rfl, hend⟩
  · -- the line is not complete
    have hnot : ¬ l ++ [newline] <+: q := by
      intro h
      have hlen := (h.trans hopened).length_le
      rw [List.length_append, List.length_singleton] at hlen
      omega
    rw [if_neg hnot]
    exact hopen q fun hmem => hl (hopened.subset hmem)
  · rcases q' with _ | ⟨a, _ | ⟨b, _ | ⟨c, t⟩⟩⟩
    · have hnot : ¬ l ++ [newline] <+: l ++ [] := by
        intro h
        have hlen := h.length_le
        rw [List.length_append, List.length_append] at hlen
        exact absurd hlen (by simp)
      rw [if_neg hnot, List.append_nil]
      exact hopen l hl
    · obtain rfl : a = newline := (List.cons_prefix_cons.mp hend).1
      rw [if_pos (List.prefix_rfl)]
      exact hline
    · obtain ⟨rfl, hb⟩ := List.cons_prefix_cons.mp hend
      obtain rfl : b = newline := (List.cons_prefix_cons.mp hb).1
      have hsplit : P ++ (l ++ [newline, newline]) = P ++ (l ++ [newline]) ++ [newline] := by
        simp only [List.append_assoc, List.cons_append, List.nil_append]
      have hcomplete : l ++ [newline] <+: l ++ [newline, newline] :=
        (List.prefix_append_right_inj l).mpr ⟨[newline], rfl⟩
      rw [if_pos hcomplete, hsplit, hblank.1, hblank.2, hline.1, hline.2]
      exact ⟨rfl, rfl⟩
    · have hlen := hend.length_le
      simp only [List.length_cons, List.length_nil] at hlen
      omega

theorem rest_events (model : String) (tokens : ℕ) : rest newline (events model tokens) = [] := by
  cases tokens with
  | zero => rfl
  | succ tokens =>
    have hsplit : events model (tokens + 1)
        = events model tokens ++ event (payload model tokens) ++ [newline] ++ newline :: [] := by
      rw [events_succ]
      simp only [List.append_assoc, List.cons_append, List.nil_append]
    rw [hsplit, (append_sep _ []).2, rest_nil]

/-- Fewer frames are the beginning of more. -/
theorem events_isPrefix (model : String) {m n : ℕ} (h : m ≤ n) :
    events model m <+: events model n := by
  obtain ⟨k, rfl⟩ := Nat.exists_eq_add_of_le h
  rw [events, events, List.range_add, List.flatMap_append]
  exact List.prefix_append _ _

/-- The line of a frame is among the frames up to it. -/
theorem sent_isPrefix (model : String) {i n : ℕ} (h : i < n) : sent model i <+: events model n := by
  refine List.IsPrefix.trans ?_ (events_isPrefix model h)
  rw [events_succ, sent]
  exact (List.prefix_append_right_inj _).mpr
    ((List.prefix_append_right_inj _).mpr ⟨[newline], rfl⟩)

/-- The lines of the frames are not too long to be carried over. -/
def Fits (model : String) (tokens : ℕ) : Prop :=
  ∀ i < tokens, (event (payload model i)).length ≤ FrameCounter.maxPartial

instance (model : String) (tokens : ℕ) : Decidable (Fits model tokens) :=
  inferInstanceAs (Decidable (∀ i < tokens, _ ≤ _))

/-- The frames whose lines are complete are counted. -/
theorem frames_cut_events {model : String} {tokens : ℕ} (hfits : Fits model tokens) {p : List UInt8}
    (hp : p <+: events model tokens) :
    FrameCounter.frames p = (List.range tokens).countP (fun i => sent model i <+: p) ∧
      FrameCounter.longLines p = 0 := by
  induction tokens generalizing p with
  | zero =>
    rw [List.prefix_nil.mp hp]
    exact ⟨rfl, rfl⟩
  | succ tokens ih =>
    have hfits' : Fits model tokens := fun i hi => hfits i (by omega)
    rw [List.range_succ, List.countP_append, List.countP_singleton]
    rw [events_succ] at hp
    rcases isPrefix_append_cases hp with hp | ⟨q, rfl, hq⟩
    · have hnot : ¬ sent model tokens <+: p := by
        intro h
        have hlen := (h.trans hp).length_le
        rw [sent, List.length_append, List.length_append, List.length_singleton] at hlen
        omega
      rw [decide_eq_false hnot]
      exact ih hfits' hp
    · obtain ⟨hframes, hlong⟩ := ih hfits' List.prefix_rfl
      obtain ⟨hframes', hlong'⟩ := frames_cut_line (rest_events model tokens)
        (newline_notMem_event model tokens) (hfits tokens (by omega)) hq
      have hall : (List.range tokens).countP (fun i => sent model i <+: events model tokens ++ q)
          = (List.range tokens).countP (fun i => sent model i <+: events model tokens) := by
        apply List.countP_congr
        intro i hi
        have hsent := sent_isPrefix model (List.mem_range.mp hi)
        exact iff_of_true (decide_eq_true (hsent.trans (List.prefix_append _ q)))
          (decide_eq_true hsent)
      have hlast : (sent model tokens <+: events model tokens ++ q)
          ↔ event (payload model tokens) ++ [newline] <+: q := List.prefix_append_right_inj _
      rw [hframes', hlong', hframes, hlong, hall, countLine_event]
      simp only [decide_eq_true_eq, hlast]
      exact ⟨trivial, trivial⟩

theorem countP_sent (model : String) (tokens : ℕ) {p : List UInt8}
    (hp : events model tokens <+: p) :
    (List.range tokens).countP (fun i => sent model i <+: p) = tokens := by
  have hall : (List.range tokens).countP (fun i => sent model i <+: p)
      = (List.range tokens).length := by
    rw [List.countP_eq_length]
    intro i hi
    exact decide_eq_true ((sent_isPrefix model (List.mem_range.mp hi)).trans hp)
  rw [hall, List.length_range]

/-- A stream that is cut anywhere has as many token frames as lines of frames that are complete,
and none that is too long. -/
theorem frames_cut {model : String} {tokens : ℕ} (hfits : Fits model tokens) {p : List UInt8}
    (hp : p <+: streamBody model tokens) :
    FrameCounter.frames p = (List.range tokens).countP (fun i => sent model i <+: p) ∧
      FrameCounter.longLines p = 0 := by
  rw [streamBody_eq] at hp
  rcases isPrefix_append_cases hp with hp | ⟨q, rfl, hq⟩
  · exact frames_cut_events hfits hp
  · obtain ⟨hframes, hlong⟩ := frames_cut_events hfits List.prefix_rfl
    obtain ⟨hframes', hlong'⟩ := frames_cut_line (rest_events model tokens)
      (show newline ∉ doneEvent by decide) (by decide) hq
    have hdone : countLine doneEvent = 0 := by decide
    rw [hframes', hlong', hframes, hlong, hdone, ite_self, countP_sent model tokens List.prefix_rfl,
      countP_sent model tokens (List.prefix_append _ q)]
    exact ⟨rfl, rfl⟩

end MockBackend
end OxideGate
