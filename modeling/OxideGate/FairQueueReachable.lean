import Mathlib.Logic.Relation
import OxideGate.FairQueueTheorems

/-!
# The states a `FairQueue` can be in

`Reachable W capacity q`: calls of `push`, with weights from `W`, and of `pop` lead from
`new capacity` to `q`. Such a queue is in the representation invariant, and so is every state
inside a `pop` (`Rounds`); there the lookups that `pop` does without a fallback all succeed.
-/

namespace OxideGate
namespace FairQueue

variable {K T : Type} [DecidableEq K]

/-- What calls of `push` and `pop` lead to, any number of them in any order. -/
inductive Reachable (W : Set ℚ) (capacity : ℕ) : FairQueue K T → Prop
  | new : Reachable W capacity (new capacity)
  | push {q : FairQueue K T} (h : Reachable W capacity q) (key : K) {weight : ℚ}
      (hw : weight ∈ W) (item : T) : Reachable W capacity (q.push key weight item).2
  | pop {q : FairQueue K T} (h : Reachable W capacity q) : Reachable W capacity q.pop.2

theorem Reachable.wf {W : Set ℚ} (hW : ∀ w ∈ W, 0 < w) {capacity : ℕ} {q : FairQueue K T}
    (h : Reachable W capacity q) : q.WF := by
  induction h with
  | new => exact wf_new capacity
  | push _ key hw item ih => exact push_wf ih key (hW _ hw) item
  | pop _ ih => exact pop_wf ih

theorem push_capacity (q : FairQueue K T) (key : K) (weight : ℚ) (item : T) :
    (q.push key weight item).2.capacity = q.capacity := by
  rcases push_cases q key weight item with ⟨-, he⟩ | ⟨-, q', he, hp⟩
  · rw [he]
  · rw [he]
    exact hp.len.2

theorem Reachable.capacity_eq {W : Set ℚ} (hW : ∀ w ∈ W, 0 < w) {capacity : ℕ}
    {q : FairQueue K T} (h : Reachable W capacity q) : q.capacity = capacity := by
  induction h with
  | new => rfl
  | push _ key _ item ih => rw [push_capacity, ih]
  | pop h ih => rw [pop_capacity (h.wf hW), ih]

/-! ## Stored weights -/

/-- The weights in the map come from `W`. -/
def Weighted (W : Set ℚ) (q : FairQueue K T) : Prop := ∀ k tq, q.queues k = some tq → tq.weight ∈ W

omit [DecidableEq K] in
theorem Weighted.entries {W : Set ℚ} {q : FairQueue K T} (h : Weighted W q) :
    Entries (fun _ weight _ => weight ∈ W) q := h

theorem Weighted.push {W : Set ℚ} {q : FairQueue K T} (h : Weighted W q) (key : K) {weight : ℚ}
    (hw : weight ∈ W) (item : T) : Weighted W (q.push key weight item).2 :=
  h.entries.push key weight item (fun _ _ => hw) fun _ _ _ => id

theorem Weighted.visit {W : Set ℚ} {q : FairQueue K T} (h : Weighted W q) {v : Visit K T}
    (hv : Visited q v) : match v with
      | .ret _ q' => Weighted W q'
      | .next q' => Weighted W q' :=
  h.entries.visit (fun _ _ _ _ => id) hv

theorem Reachable.weighted {W : Set ℚ} (hW : ∀ w ∈ W, 0 < w) {capacity : ℕ} {q : FairQueue K T}
    (h : Reachable W capacity q) : Weighted W q := by
  induction h with
  | new => exact fun k tq hk => by simp [FairQueue.new] at hk
  | push _ key hw item ih => exact ih.push key hw item
  | pop h ih => exact ih.entries.pop (h.wf hW) fun _ _ _ _ => id

omit [DecidableEq K] in
/-- With credits of at most one dispatch no turn outlasts a call of `pop`. -/
theorem WF.not_started {q : FairQueue K T} (h : q.WF)
    (hle : ∀ k tq, q.queues k = some tq → tq.weight ≤ 1) : q.turnStarted = false := by
  by_contra hs
  rw [Bool.not_eq_false] at hs
  obtain ⟨key, rest, hactive⟩ := List.exists_cons_of_ne_nil (h.started hs)
  obtain ⟨tq, htq⟩ := h.exists_queue (k := key) (by rw [hactive]; exact List.mem_cons_self)
  have hserving := h.serving key tq htq hs (by rw [hactive, List.head?_cons])
  have hle := hle key tq htq
  linarith

/-! ## Inside `pop` -/

/-- The states that `pop`'s loop goes through. -/
def Rounds : FairQueue K T → FairQueue K T → Prop :=
  Relation.ReflTransGen fun q q' => q.visit = .next q'

theorem Rounds.wf {q q' : FairQueue K T} (hr : Rounds q q') (h : q.WF) : q'.WF := by
  induction hr with
  | refl => exact h
  | tail _ hv ih => exact (hv ▸ visit_cases ih).wf_next ih

omit [DecidableEq K] in
/-- A tenant in front has an entry with an item in it, and the length is not zero. -/
theorem WF.front {q : FairQueue K T} (h : q.WF) {key : K} (hk : q.active.head? = some key) :
    ∃ tq item items, q.queues key = some tq ∧ tq.items = item :: items ∧ 0 < q.len := by
  have hmem : key ∈ q.active := List.mem_of_mem_head? hk
  obtain ⟨tq, htq⟩ := h.exists_queue hmem
  obtain ⟨item, items, hitems⟩ := List.exists_cons_of_ne_nil (h.items_ne key tq htq)
  refine ⟨tq, item, items, htq, hitems, ?_⟩
  have hitem : item ∈ q.contents := by
    unfold contents
    rw [List.mem_flatMap]
    refine ⟨key, hmem, ?_⟩
    rw [backlog_of_some htq, hitems]
    exact List.mem_cons_self
  rw [h.len_eq]
  exact List.length_pos_of_mem hitem

/-- The representation invariant of every state that calls lead to, and what it means for the
lookups of `pop`. -/
theorem reachable_representation {capacity : ℕ} {q : FairQueue K T}
    (h : Reachable {w | 0 < w} capacity q) :
    (q.active.Nodup ∧ (∀ k, k ∈ q.active ↔ q.queues k ≠ none)) ∧
      (∀ k tq, q.queues k = some tq → tq.items ≠ []) ∧
      (q.len = (q.active.map fun k => (q.backlog k).length).sum ∧ q.len ≤ capacity) ∧
      (q.active = [] → q.turnStarted = false) ∧
      (∀ k tq, q.queues k = some tq →
        if q.turnStarted = true ∧ q.active.head? = some k then
          1 ≤ tq.deficit ∧ tq.deficit < tq.weight
        else 0 ≤ tq.deficit ∧ tq.deficit < 1) ∧
      (Reachable {w | 0 < w ∧ w ≤ 1} capacity q → q.turnStarted = false) ∧
      ∀ q', Rounds q q' → ∀ key, q'.active.head? = some key →
        ∃ tq item items, q'.queues key = some tq ∧ tq.items = item :: items ∧ 0 < q'.len := by
  have hwf := h.wf fun _ hw => hw
  refine ⟨⟨hwf.nodup, hwf.keys⟩, hwf.items_ne, ⟨?_, ?_⟩, ?_, ?_, ?_, ?_⟩
  · rw [hwf.len_eq, contents, List.length_flatMap]
  · rw [← h.capacity_eq fun _ hw => hw]
    exact hwf.len_le
  · intro hnil
    by_contra hs
    rw [Bool.not_eq_false] at hs
    exact hwf.started hs hnil
  · intro k tq hk
    split
    · rename_i hs
      exact hwf.serving k tq hk hs.1 hs.2
    · rename_i hs
      exact hwf.resting k tq hk hs
  · intro hle
    exact hwf.not_started fun k tq hk => (hle.weighted (fun _ hw => hw.1) k tq hk).2
  · intro q' hr key hk
    exact (hr.wf hwf).front hk

/-- A turn of weight 3 is running. -/
theorem reachable_representation_serving :
    ((((new 4).push 0 3 10).2.push 0 3 11).2.pop.2 : FairQueue ℕ ℕ).len ≤ 4 :=
  (reachable_representation
    (((Reachable.new.push 0 (by norm_num) 10).push 0 (by norm_num) 11).pop)).2.2.1.2

end FairQueue
end OxideGate
