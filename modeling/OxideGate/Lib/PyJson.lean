import Mathlib.Data.List.Basic
import Mathlib.Order.Basic

/-!
# `json.dumps` of Python

`dumps` follows the default encoder: `ensure_ascii`, and the separators `", "` and `": "`. What it
writes is printable ASCII, whatever the strings of the value are (`printable_dumps`), so that a
line of text holds any value.
-/

namespace PyJson

inductive Json where
  | str (s : String)
  | num (n : ℕ)
  | arr (items : List Json)
  | obj (fields : List (String × Json))

/-- `\uXXXX`. -/
def escapeUnit (n : ℕ) : List Char :=
  "\\u".toList ++ [n / 4096, n / 256, n / 16, n].map fun k => Nat.digitChar (k % 16)

/-- `ESCAPE_ASCII`: a character above the first plane is written as two surrogates. -/
def escape (c : Char) : List Char :=
  match c.toNat with
  | 34 => "\\\"".toList
  | 92 => "\\\\".toList
  | 10 => "\\n".toList
  | 13 => "\\r".toList
  | 9 => "\\t".toList
  | 12 => "\\f".toList
  | 8 => "\\b".toList
  | n =>
    if 32 ≤ n ∧ n ≤ 126 then [c]
    else if n < 65536 then escapeUnit n
    else escapeUnit (55296 + (n - 65536) / 1024) ++ escapeUnit (56320 + (n - 65536) % 1024)

/-- `py_encode_basestring_ascii`. -/
def dumpString (s : String) : List Char := "\"".toList ++ s.toList.flatMap escape ++ "\"".toList

mutual

def dumps : Json → List Char
  | .str s => dumpString s
  | .num n => Nat.toDigits 10 n
  | .arr items => "[".toList ++ List.intercalate ", ".toList (dumpItems items) ++ "]".toList
  | .obj fields =>
    "\x7b".toList ++ List.intercalate ", ".toList (dumpFields fields) ++ "\x7d".toList

def dumpItems : List Json → List (List Char)
  | [] => []
  | item :: items => dumps item :: dumpItems items

def dumpFields : List (String × Json) → List (List Char)
  | [] => []
  | (key, value) :: fields =>
    (dumpString key ++ ": ".toList ++ dumps value) :: dumpFields fields

end

/-! ## Printable text -/

/-- From the blank to the tilde. -/
def Printable (cs : List Char) : Prop := ∀ c ∈ cs, 32 ≤ c.toNat ∧ c.toNat ≤ 126

instance (cs : List Char) : Decidable (Printable cs) :=
  List.decidableBAll (fun c : Char => 32 ≤ c.toNat ∧ c.toNat ≤ 126) cs

theorem Printable.append {cs ds : List Char} (hc : Printable cs) (hd : Printable ds) :
    Printable (cs ++ ds) :=
  List.forall_mem_append.mpr ⟨hc, hd⟩

/-- Printable texts joined by a printable separator. -/
theorem Printable.intercalate {sep : List Char} (hsep : Printable sep) {texts : List (List Char)}
    (h : ∀ text ∈ texts, Printable text) : Printable (List.intercalate sep texts) := by
  induction texts with
  | nil => exact List.forall_mem_nil _
  | cons text texts ih =>
    have htext := h text List.mem_cons_self
    have hrest := ih fun t ht => h t (List.mem_cons_of_mem text ht)
    cases texts with
    | nil =>
      rw [List.intercalate_singleton]
      exact htext
    | cons next texts =>
      rw [List.intercalate_cons_cons]
      exact (htext.append hsep).append hrest

/-- An escape of four hexadecimal digits. -/
theorem printable_escapeUnit (n : ℕ) : Printable (escapeUnit n) := by
  have hdigit : ∀ k < 16, 32 ≤ (Nat.digitChar k).toNat ∧ (Nat.digitChar k).toNat ≤ 126 := by
    decide
  refine Printable.append (by decide) ?_
  intro c hc
  obtain ⟨k, -, rfl⟩ := List.mem_map.mp hc
  exact hdigit _ (Nat.mod_lt k (by decide))

/-- What is not printable ASCII is escaped. -/
theorem printable_escape (c : Char) : Printable (escape c) := by
  unfold escape
  split
  case h_8 =>
    split
    · rename_i hc
      intro d hd
      rw [List.mem_singleton.mp hd]
      exact hc
    · split
      · exact printable_escapeUnit _
      · exact (printable_escapeUnit _).append (printable_escapeUnit _)
  all_goals decide

/-- Quotes around escaped characters. -/
theorem printable_dumpString (s : String) : Printable (dumpString s) := by
  refine Printable.append (Printable.append (by decide) ?_) (by decide)
  intro c hc
  obtain ⟨d, -, hc⟩ := List.mem_flatMap.mp hc
  exact printable_escape d c hc

mutual

/-- `json.dumps` writes printable ASCII only, so no line break: by recursion on the value. -/
theorem printable_dumps : ∀ value : Json, Printable (dumps value)
  | .str s => printable_dumpString s
  | .num n => by
    intro c hc
    rw [dumps] at hc
    have hdigit := Nat.isDigit_of_mem_toDigits (by decide) (by decide) hc
    rw [Char.isDigit_iff_toNat] at hdigit
    have h0 : '0'.toNat = 48 := rfl
    have h9 : '9'.toNat = 57 := rfl
    omega
  | .arr items => by
    rw [dumps]
    exact ((show Printable "[".toList by decide).append
      (Printable.intercalate (by decide) (printable_dumpItems items))).append (by decide)
  | .obj fields => by
    rw [dumps]
    exact ((show Printable "\x7b".toList by decide).append
      (Printable.intercalate (by decide) (printable_dumpFields fields))).append (by decide)

theorem printable_dumpItems : ∀ items : List Json, ∀ text ∈ dumpItems items, Printable text
  | [] => List.forall_mem_nil _
  | item :: items =>
    List.forall_mem_cons.mpr ⟨printable_dumps item, printable_dumpItems items⟩

theorem printable_dumpFields :
    ∀ fields : List (String × Json), ∀ text ∈ dumpFields fields, Printable text
  | [] => List.forall_mem_nil _
  | (key, value) :: fields =>
    List.forall_mem_cons.mpr ⟨((printable_dumpString key).append (by decide)).append
      (printable_dumps value), printable_dumpFields fields⟩

end

end PyJson
