import Mathlib.Data.List.DropRight
import OxideGate.Lib.Lines

/-!
# Counting token frames in a stream (`FrameCounter` of `lib.rs`)

`FrameCounter` counts the `data:` frames of a stream that arrives in chunks, cut anywhere. It
carries the bytes of an unfinished line over to the next chunk, as long as there are at most
`maxPartial` of them. A `&[u8]` is a list of bytes, a `u64` count a natural number: a chunk has
at most one frame per byte, so the counts stay far below the width.
-/

namespace OxideGate

/-- The bytes of an ASCII literal. -/
def ascii (s : String) : List UInt8 := s.toList.map fun ch => ch.toNat.toUInt8

/-- The byte that ends a line. -/
abbrev newline : UInt8 := 10

/-- `u8::is_ascii_whitespace`: space, tab, line feed, form feed and carriage return. -/
def isAsciiWhitespace (b : UInt8) : Bool := b == 32 || b == 9 || b == 10 || b == 12 || b == 13

/-- `<[u8]>::trim_ascii`. -/
def trimAscii (bytes : List UInt8) : List UInt8 :=
  (bytes.dropWhile isAsciiWhitespace).rdropWhile isAsciiWhitespace

/-- `count_line`: one for a frame with a token in it. -/
def countLine (line : List UInt8) : ℕ :=
  let line := (line.dropSuffix? (ascii "\r")).getD line
  match line.dropPrefix? (ascii "data:") with
  | some payload => if trimAscii payload ≠ ascii "[DONE]" then 1 else 0
  | none => 0

/-- `FrameCounter`. -/
structure FrameCounter where
  /-- Bytes of an incomplete line carried over from the previous chunk. -/
  partialLine : List UInt8
deriving DecidableEq, Repr

namespace FrameCounter

/-- `FrameCounter::default`. -/
def fresh : FrameCounter := ⟨[]⟩

/-- `FrameCounter::MAX_PARTIAL`. -/
def maxPartial : ℕ := 64 * 1024

/-- The loop of `feed`, with the count so far and the bytes not looked at yet. -/
def feedLoop (c : FrameCounter) (n : ℕ) (rest : List UInt8) : ℕ × FrameCounter × List UInt8 :=
  match _hpos : rest.findIdx? (· == newline) with
  | none => (n, c, rest)
  | some pos =>
    let lineEnd := rest.take pos
    let after := rest.drop pos
    if c.partialLine.isEmpty then feedLoop c (n + countLine lineEnd) after.tail
    else feedLoop ⟨[]⟩ (n + countLine (c.partialLine ++ lineEnd)) after.tail
termination_by rest.length
decreasing_by
  all_goals
    have hlt := (List.findIdx?_eq_some_iff_getElem.mp _hpos).1
    simp only [List.length_tail, List.length_drop]
    omega

/-- What `feed` keeps of the bytes after the last newline: all or nothing. -/
def extend (c : FrameCounter) (rest : List UInt8) : FrameCounter :=
  if c.partialLine.length + rest.length ≤ maxPartial then ⟨c.partialLine ++ rest⟩ else c

/-- `feed`: the token frames that end in the chunk. -/
def feed (c : FrameCounter) (bytes : List UInt8) : ℕ × FrameCounter :=
  let (n, c, rest) := c.feedLoop 0 bytes
  (n, c.extend rest)

/-- Feeding chunk after chunk: the sum of the counts, and the counter at the end. -/
def feedAll (c : FrameCounter) : List (List UInt8) → ℕ × FrameCounter
  | [] => (0, c)
  | chunk :: chunks =>
    let (n, c) := c.feed chunk
    let (m, c) := c.feedAll chunks
    (n + m, c)

end FrameCounter
end OxideGate
