import OxideGate.FairQueueTheorems

/-!
# Runs of `push` and `pop`

A run is a list of calls, by any number of tenants in any order. Items are tagged with the key
they are pushed under, so that what is popped says whose it was. `Labelled` is the invariant
that the queue of a key holds that key's items, at the weight that key pushes with.
-/

namespace OxideGate
namespace FairQueue

variable {K T : Type} [DecidableEq K]

/-- A call on the queue. -/
inductive Op (K T : Type) where
  | push (key : K) (weight : ℚ) (item : T)
  | pop

/-- A call's effect: the item it returns, if it is a `pop` that finds one, and the new
state. -/
def apply (q : FairQueue K (K × T)) : Op K T → Option (K × T) × FairQueue K (K × T)
  | .push key weight item => (none, (q.push key weight (key, item)).2)
  | .pop => q.pop

/-- The state after a run. -/
def run (q : FairQueue K (K × T)) : List (Op K T) → FairQueue K (K × T)
  | [] => q
  | op :: ops => run (q.apply op).2 ops

/-- The items popped in a run, in order. -/
def popped (q : FairQueue K (K × T)) : List (Op K T) → List (K × T)
  | [] => []
  | op :: ops => (q.apply op).1.toList ++ popped (q.apply op).2 ops

/-- How many of the items popped in a run were tenant `x`'s. -/
def served (q : FairQueue K (K × T)) (ops : List (Op K T)) (x : K) : ℕ :=
  (q.popped ops).countP fun p => p.1 = x

/-- Each key always pushes with the same weight. -/
def Op.Follows (w : K → ℚ) : Op K T → Prop
  | .push key weight _ => weight = w key
  | .pop => True

/-- A run in two parts. -/
theorem run_append (q : FairQueue K (K × T)) (ops ops' : List (Op K T)) :
    q.run (ops ++ ops') = (q.run ops).run ops' := by
  induction ops generalizing q with
  | nil => rfl
  | cons op ops ih => exact ih (q.apply op).2

/-- What is popped in a run in two parts. -/
theorem popped_append (q : FairQueue K (K × T)) (ops ops' : List (Op K T)) :
    q.popped (ops ++ ops') = q.popped ops ++ (q.run ops).popped ops' := by
  induction ops generalizing q with
  | nil => rfl
  | cons op ops ih =>
    rw [List.cons_append, popped, popped, ih, List.append_assoc]
    rfl

theorem served_cons (q : FairQueue K (K × T)) (op : Op K T) (ops : List (Op K T)) (x : K) :
    q.served (op :: ops) x
      = ((q.apply op).1.toList.countP fun p => p.1 = x) + (q.apply op).2.served ops x := by
  rw [served, popped, List.countP_append]
  rfl

/-- A tenant is served in the one part or in the other. -/
theorem served_append (q : FairQueue K (K × T)) (ops ops' : List (Op K T)) (x : K) :
    q.served (ops ++ ops') x = q.served ops x + (q.run ops).served ops' x := by
  induction ops generalizing q with
  | nil => exact (Nat.zero_add _).symm
  | cons op ops ih =>
    rw [List.cons_append, served_cons, served_cons, ih, Nat.add_assoc]
    rfl

/-! ## Invariants of a run -/

/-- The queue of a key holds that key's items, at the weight that key pushes with. -/
def Labelled (w : K → ℚ) (q : FairQueue K (K × T)) : Prop :=
  ∀ k tq, q.queues k = some tq → tq.weight = w k ∧ ∀ x ∈ tq.items, x.1 = k

omit [DecidableEq K] in
/-- `Labelled` as a property of the entries, which `Entries.push` and `Entries.pop` keep. -/
theorem Labelled.entries {w : K → ℚ} {q : FairQueue K (K × T)} (h : Labelled w q) :
    Entries (fun k weight items => weight = w k ∧ ∀ x ∈ items, x.1 = k) q := h

omit [DecidableEq K] in
theorem tagged_concat {key : K} {items : List (K × T)} (h : ∀ x ∈ items, x.1 = key) (item : T) :
    ∀ x ∈ items ++ [(key, item)], x.1 = key := by
  intro x hx
  rcases List.mem_append.mp hx with hx | hx
  · exact h x hx
  · rw [List.mem_singleton.mp hx]

/-- A key that pushes at its own weight keeps the labels. -/
theorem Labelled.push {w : K → ℚ} {q : FairQueue K (K × T)} (h : Labelled w q) (key : K)
    (item : T) : Labelled w (q.push key (w key) (key, item)).2 := by
  refine h.entries.push key (w key) (key, item) (fun _ _ => ⟨rfl, ?_⟩)
    fun _ tq _ hold => ⟨hold.1, tagged_concat hold.2 item⟩
  exact tagged_concat (List.forall_mem_nil _) item

omit [DecidableEq K] in
theorem tagged_tail (k : K) (_ : ℚ) (item : K × T) (items : List (K × T))
    (h : ∀ x ∈ item :: items, x.1 = k) : ∀ x ∈ items, x.1 = k :=
  fun x hx => h x (List.mem_cons_of_mem item hx)

omit [DecidableEq K] in
/-- Popping an item keeps the label of its queue. -/
theorem labelled_tail {w : K → ℚ} (k : K) (weight : ℚ) (item : K × T) (items : List (K × T))
    (h : weight = w k ∧ ∀ x ∈ item :: items, x.1 = k) : weight = w k ∧ ∀ x ∈ items, x.1 = k :=
  ⟨h.1, tagged_tail k weight item items h.2⟩

/-- A round of `pop` keeps the labels, and the item it returns is the front tenant's. -/
theorem Labelled.visit {w : K → ℚ} {q q' : FairQueue K (K × T)} (h : Labelled w q) :
    (Visited q (.next q') → Labelled w q') ∧
      ∀ item, Visited q (.ret item q') → Labelled w q' ∧
        ∀ x, item = some x → q.active.head? = some x.1 := by
  refine ⟨fun hv => h.entries.visit labelled_tail hv, fun item hv =>
    ⟨h.entries.visit labelled_tail hv, fun x hx => ?_⟩⟩
  have htag : ∀ (key : K) (tq : TenantQueue (K × T)) (item : K × T) (items : List (K × T)),
      q.queues key = some tq → tq.items = item :: items → item.1 = key := by
    intro key tq item items htq hitems
    exact (h key tq htq).2 item (by rw [hitems]; exact List.mem_cons_self)
  cases hv with
  | idle hactive => exact absurd hx (by simp)
  | drain key rest tq item hactive htq hitems hd =>
    rw [← Option.some.inj hx, hactive, List.head?_cons, htag key tq item [] htq hitems]
  | rotate key rest tq item items hactive htq hitems hne hd hlast =>
    rw [← Option.some.inj hx, hactive, List.head?_cons, htag key tq item items htq hitems]
  | stay key rest tq item items hactive htq hitems hne hmore =>
    rw [← Option.some.inj hx, hactive, List.head?_cons, htag key tq item items htq hitems]

/-- `pop` keeps the labels. -/
theorem Labelled.pop {w : K → ℚ} {q : FairQueue K (K × T)} (hwf : q.WF) (h : Labelled w q) :
    Labelled w q.pop.2 :=
  h.entries.pop hwf labelled_tail

/-- What holds of the queue between the calls of a run. -/
structure Reached (w : K → ℚ) (q : FairQueue K (K × T)) : Prop where
  wf : q.WF
  labelled : Labelled w q

omit [DecidableEq K] in
/-- The invariant holds before the first call. -/
theorem reached_new (w : K → ℚ) (capacity : ℕ) :
    Reached w (new capacity : FairQueue K (K × T)) where
  wf := wf_new capacity
  labelled := fun k tq hk => by simp [new] at hk

/-- One call keeps the invariant. -/
theorem Reached.apply {w : K → ℚ} (hw : ∀ k, 0 < w k) {q : FairQueue K (K × T)}
    (h : Reached w q) {op : Op K T} (hop : op.Follows w) : Reached w (q.apply op).2 := by
  cases op with
  | push key weight item =>
    rw [show weight = w key from hop]
    exact ⟨push_wf h.wf key (hw key) (key, item), h.labelled.push key item⟩
  | pop => exact ⟨pop_wf h.wf, h.labelled.pop h.wf⟩

/-- A whole run keeps it. -/
theorem Reached.run {w : K → ℚ} (hw : ∀ k, 0 < w k) {q : FairQueue K (K × T)}
    (h : Reached w q) {ops : List (Op K T)} (hops : ∀ op ∈ ops, op.Follows w) :
    Reached w (q.run ops) := by
  induction ops generalizing q with
  | nil => exact h
  | cons op ops ih =>
    exact ih (h.apply hw (hops op List.mem_cons_self))
      fun o ho => hops o (List.mem_cons_of_mem op ho)

end FairQueue
end OxideGate
