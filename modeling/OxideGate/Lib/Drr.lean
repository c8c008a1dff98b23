import Mathlib.Algebra.Order.Floor.Semiring
import Mathlib.Algebra.Order.Field.Basic
import Mathlib.Tactic.Linarith
import Mathlib.Tactic.Ring

/-!
# Deficit round robin by whole turns

Flows take turns in a rotation. A turn adds the flow's weight to its deficit and then sends as
many of its items as it has whole units of deficit, one unit each. A flow that is empty then
leaves the rotation and forfeits its deficit, any other goes to the back and keeps what is left
of it, less than one unit.

`turn_stay` splits off the first item of a turn: a scheduler that sends one item at a time, and
remembers that the turn has begun, gets through the same turns.
-/

namespace Drr

variable {K T R : Type*}

/-- A flow in the rotation. -/
structure Flow (K T R : Type*) where
  key : K
  items : List T
  weight : R
  deficit : R

variable [Field R] [LinearOrder R] [FloorSemiring R]

/-- The deficit that a turn spends; a turn that has begun already has its credit. -/
def Flow.credit (begun : Bool) (f : Flow K T R) : R :=
  if begun then f.deficit else f.deficit + f.weight

/-- How many items a turn sends. -/
def Flow.quota (begun : Bool) (f : Flow K T R) : ℕ := min f.items.length ⌊f.credit begun⌋₊

/-- The turn of the flow in front: the items it sends, and the rotation afterwards. -/
def turn (begun : Bool) : List (Flow K T R) → List T × List (Flow K T R)
  | [] => ([], [])
  | f :: fs =>
    let n := f.quota begun
    let left := f.items.drop n
    (f.items.take n,
      if left = [] then fs
      else fs ++ [{ f with items := left, deficit := f.credit begun - n }])

/-- Turn after turn, until every flow is empty. -/
inductive Serves : Bool → List (Flow K T R) → List T → Prop
  | idle (begun : Bool) : Serves begun [] []
  | turn {begun : Bool} {f : Flow K T R} {fs : List (Flow K T R)} {l : List T}
      (h : Serves false (turn begun (f :: fs)).2 l) :
      Serves begun (f :: fs) ((turn begun (f :: fs)).1 ++ l)

/-- The order of service is determined. -/
theorem Serves.unique {begun : Bool} {fs : List (Flow K T R)} {l m : List T}
    (hl : Serves begun fs l) (hm : Serves begun fs m) : l = m := by
  induction hl generalizing m with
  | idle begun =>
    cases hm with
    | idle _ => rfl
  | turn _ ih =>
    cases hm with
    | turn h => rw [ih h]

/-! ## What a turn sends -/

variable [IsStrictOrderedRing R] (begun : Bool) (f : Flow K T R) (fs : List (Flow K T R))

/-- Less than one unit: nothing is sent. -/
theorem turn_pass (hne : f.items ≠ []) (h : f.credit begun < 1) :
    turn begun (f :: fs) = ([], fs ++ [{ f with deficit := f.credit begun }]) := by
  have hquota : f.quota begun = 0 := by
    rw [Flow.quota, Nat.floor_eq_zero.mpr h, Nat.min_zero]
  simp only [turn, hquota, List.take_zero, List.drop_zero, if_neg hne, Nat.cast_zero, sub_zero]

/-- A unit for the last item. -/
theorem turn_drain {item : T} (hitems : f.items = [item]) (h : 1 ≤ f.credit begun) :
    turn begun (f :: fs) = ([item], fs) := by
  have hquota : f.quota begun = 1 := by
    have hfloor : 1 ≤ ⌊f.credit begun⌋₊ := Nat.one_le_floor_iff _ |>.mpr h
    rw [Flow.quota, hitems, List.length_singleton, Nat.min_eq_left hfloor]
  simp [turn, hquota, hitems]

/-- One unit, and more than one item. -/
theorem turn_rotate {item : T} {items : List T} (hitems : f.items = item :: items)
    (hne : items ≠ []) (h : 1 ≤ f.credit begun) (hlast : f.credit begun - 1 < 1) :
    turn begun (f :: fs)
      = ([item], fs ++ [{ f with items, deficit := f.credit begun - 1 }]) := by
  have hquota : f.quota begun = 1 := by
    have hfloor : ⌊f.credit begun⌋₊ = 1 := by
      rw [Nat.floor_eq_iff (by linarith)]
      constructor
      · rw [Nat.cast_one]
        exact h
      · rw [Nat.cast_one]
        linarith
    rw [Flow.quota, hitems, hfloor, List.length_cons]
    omega
  simp [turn, hquota, hitems, hne]

/-- More than one unit: after the first item, the rest of the turn. -/
theorem turn_stay {item : T} {items : List T} (hitems : f.items = item :: items)
    (hmore : 1 ≤ f.credit begun - 1) :
    turn begun (f :: fs)
      = (item :: (turn true ({ f with items, deficit := f.credit begun - 1 } :: fs)).1,
          (turn true ({ f with items, deficit := f.credit begun - 1 } :: fs)).2) := by
  have hquota : f.quota begun
      = Flow.quota true { f with items, deficit := f.credit begun - 1 } + 1 := by
    have hfloor : ⌊f.credit begun⌋₊ = ⌊f.credit begun - 1⌋₊ + 1 := by
      rw [← Nat.floor_add_one (by linarith), sub_add_cancel]
    simp only [Flow.quota, Flow.credit, if_true, hitems, List.length_cons]
    rw [Flow.credit] at hfloor
    rw [hfloor]
    omega
  have hcredit : Flow.credit true { f with items, deficit := f.credit begun - 1 }
      = f.credit begun - 1 := by
    rw [Flow.credit, if_pos rfl]
  simp only [turn, hquota, hitems, hcredit, List.take_succ_cons, List.drop_succ_cons]
  push_cast
  rw [sub_sub, add_comm (1 : R)]

/-- What a flow that goes on keeps of its deficit. -/
theorem turn_remainder (hcredit : 0 ≤ f.credit begun) (hleft : f.quota begun < f.items.length) :
    0 ≤ f.credit begun - f.quota begun ∧ f.credit begun - f.quota begun < 1 := by
  have hquota : f.quota begun = ⌊f.credit begun⌋₊ := by
    unfold Flow.quota at hleft ⊢
    omega
  rw [hquota]
  have hle := Nat.floor_le hcredit
  have hlt := Nat.lt_floor_add_one (f.credit begun)
  constructor <;> linarith

end Drr
