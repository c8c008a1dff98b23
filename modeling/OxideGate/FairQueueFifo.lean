import OxideGate.FairQueueReachable
import OxideGate.FairQueueRuns
import OxideGate.Lib.Fifos

/-!
# `FairQueue` refines a bounded set of FIFOs

* `push_backlog` and `pop_backlog` say what a call does to the items waiting under each key;
* `Refines q l` relates a queue to the list `l` of the waiting items in the order of their
  arrival; every call is then a step of the abstract component (`Refines.apply`), and every run
  a run of it (`Refines.run`).
-/

namespace OxideGate
namespace FairQueue

open Fifos

variable {K T : Type} [DecidableEq K]

/-! ## The items waiting under each key -/

theorem backlog_update_ne {q : FairQueue K T} {key k : K} (hk : k ≠ key)
    (v : Option (TenantQueue T)) (active : List K) (started : Bool) (len capacity : ℕ) :
    backlog ⟨Function.update q.queues key v, active, started, len, capacity⟩ k
      = q.backlog k := by
  simp only [backlog, Function.update_of_ne hk]

theorem backlog_update_self {q : FairQueue K T} {key : K} (tq : TenantQueue T)
    (active : List K) (started : Bool) (len capacity : ℕ) :
    backlog ⟨Function.update q.queues key (some tq), active, started, len, capacity⟩ key
      = tq.items := by
  simp only [backlog, Function.update_self]

theorem Pushed.backlog {q q' : FairQueue K T} {key : K} {weight : ℚ} {item : T}
    (hp : Pushed q key weight item q') :
    q'.backlog key = q.backlog key ++ [item] ∧ ∀ k, k ≠ key → q'.backlog k = q.backlog k := by
  cases hp with
  | grow tq htq =>
    refine ⟨?_, fun k hk => backlog_update_ne hk _ _ _ _ _⟩
    rw [backlog_update_self, backlog_of_some htq]
  | join hnone =>
    refine ⟨?_, fun k hk => backlog_update_ne hk _ _ _ _ _⟩
    rw [backlog_update_self, FairQueue.backlog, hnone]
    rfl

/-- A round that passes moves no item. -/
theorem Visited.backlog_next {q q' : FairQueue K T} (hv : Visited q (.next q')) (k : K) :
    q'.backlog k = q.backlog k := by
  cases hv with
  | pass key rest tq hactive htq hd =>
    by_cases hk : k = key
    · rw [hk, backlog_update_self, backlog_of_some htq]
    · exact backlog_update_ne hk _ _ _ _ _

/-- The item that a round returns was the first of the front tenant. -/
theorem Visited.backlog_ret {q q' : FairQueue K T} {item : T}
    (hv : Visited q (.ret (some item) q')) : ∃ key, q.active.head? = some key ∧
      q.backlog key = item :: q'.backlog key ∧ ∀ k, k ≠ key → q'.backlog k = q.backlog k := by
  cases hv with
  | drain key rest tq item hactive htq hitems hd =>
    refine ⟨key, by rw [hactive, List.head?_cons], ?_, fun k hk => backlog_update_ne hk _ _ _ _ _⟩
    rw [backlog_of_some htq, hitems]
    simp only [backlog, Function.update_self]
  | rotate key rest tq item items hactive htq hitems hne hd hlast =>
    refine ⟨key, by rw [hactive, List.head?_cons], ?_, fun k hk => backlog_update_ne hk _ _ _ _ _⟩
    rw [backlog_of_some htq, hitems, backlog_update_self]
  | stay key rest tq item items hactive htq hitems hne hmore =>
    refine ⟨key, by rw [hactive, List.head?_cons], ?_, fun k hk => backlog_update_ne hk _ _ _ _ _⟩
    rw [backlog_of_some htq, hitems, backlog_update_self]

/-- `pop` takes the first item of some key, or finds nothing. -/
theorem pop_backlog {q : FairQueue K T} (h : q.WF) :
    match q.pop.1 with
    | some item => ∃ key, q.backlog key = item :: q.pop.2.backlog key ∧
        ∀ k, k ≠ key → q.pop.2.backlog k = q.backlog k
    | none => ∀ k, q.backlog k = [] ∧ q.pop.2.backlog k = [] := by
  refine pop_rule (P := fun q' => ∀ k, q'.backlog k = q.backlog k)
    (Q := fun item q' => match item with
      | some item => ∃ key, q.backlog key = item :: q'.backlog key ∧
          ∀ k, k ≠ key → q'.backlog k = q.backlog k
      | none => ∀ k, q.backlog k = [] ∧ q'.backlog k = [])
    ?_ ?_ h fun _ => rfl
  · intro q₁ q₂ _ hsame hv k
    rw [hv.backlog_next, hsame]
  · intro q₁ item q₂ hwf hsame hv
    cases item with
    | some item =>
      obtain ⟨key, -, hkey, hothers⟩ := hv.backlog_ret
      refine ⟨key, ?_, fun k hk => ?_⟩
      · rw [← hsame, hkey]
      · rw [hothers k hk, hsame]
    | none =>
      cases hv with
      | idle hactive =>
        intro k
        have hnil : q₁.backlog k = [] := by
          by_contra hne
          have hmem := (hwf.mem_active_iff k).mpr hne
          rw [hactive] at hmem
          exact List.not_mem_nil hmem
        exact ⟨(hsame k).symm.trans hnil, hnil⟩

/-! ## One call -/

/-- The waiting items are those of `l`, each key's in the same order. -/
structure Refines (q : FairQueue K (K × T)) (l : List (K × T)) : Prop where
  wf : q.WF
  backlog : ∀ k, q.backlog k = ofKey k l

theorem refines_new (capacity : ℕ) : Refines (new capacity : FairQueue K (K × T)) [] where
  wf := wf_new capacity
  backlog := fun _ => rfl

theorem Refines.perm {q : FairQueue K (K × T)} {l : List (K × T)} (h : Refines q l) :
    q.contents.Perm l := by
  have hkeys : ∀ x ∈ l, x.1 ∈ q.active := by
    intro x hx
    rw [h.wf.mem_active_iff, h.backlog]
    exact List.ne_nil_of_mem (List.mem_filter.mpr ⟨hx, by simp⟩)
  rw [contents, show q.backlog = fun k => ofKey k l from funext h.backlog]
  exact perm_flatMap_ofKey h.wf.nodup hkeys

theorem Refines.len_eq {q : FairQueue K (K × T)} {l : List (K × T)} (h : Refines q l) :
    q.len = l.length := by
  rw [h.wf.len_eq, h.perm.length_eq]

/-- The call as one on the bounded set of FIFOs, which knows no weights. -/
def Op.call : Op K T → Call K T
  | .push key _ item => .put (key, item)
  | .pop => .take

/-- What a call returns. -/
def answer (q : FairQueue K (K × T)) : Op K T → Answer K T
  | .push key weight item =>
    match (q.push key weight (key, item)).1 with
    | .ok () => .accepted
    | .error x => .refused x
  | .pop => .taken q.pop.1

/-- The weight is positive. -/
def Op.Positive : Op K T → Prop
  | .push _ weight _ => 0 < weight
  | .pop => True

theorem apply_capacity {q : FairQueue K (K × T)} (h : q.WF) (op : Op K T) :
    (q.apply op).2.capacity = q.capacity := by
  cases op with
  | push key weight item => exact push_capacity q key weight _
  | pop => exact pop_capacity h

/-- A refused `push` answers with its item and changes nothing; an accepted one appends. -/
theorem Refines.push {q : FairQueue K (K × T)} {l : List (K × T)} (h : Refines q l) (key : K)
    {weight : ℚ} (hw : 0 < weight) (item : T) : ∃ l',
      Step q.capacity l (.put (key, item)) (q.answer (.push key weight item)) l' ∧
        Refines (q.push key weight (key, item)).2 l' := by
  simp only [answer]
  rcases push_cases q key weight (key, item) with ⟨hfull, he⟩ | ⟨hroom, q', he, hp⟩
  · rw [he]
    rw [h.len_eq] at hfull
    exact ⟨l, .refuse _ hfull, h⟩
  · have hwf := hp.wf h.wf hw hroom
    rw [he]
    rw [h.len_eq] at hroom
    refine ⟨l ++ [(key, item)], .put _ hroom, hwf, ?_⟩
    intro k
    by_cases hk : k = key
    · rw [hk, hp.backlog.1, h.backlog, ofKey_append, ofKey_cons_eq (k := key) rfl, ofKey_nil]
    · rw [hp.backlog.2 k hk, h.backlog, ofKey_append, ofKey_cons_ne (Ne.symm hk), ofKey_nil,
        List.append_nil]

/-- `pop` takes the first entry of the key it serves. -/
theorem Refines.pop {q : FairQueue K (K × T)} {l : List (K × T)} (h : Refines q l) : ∃ l',
    Step q.capacity l .take (.taken q.pop.1) l' ∧ Refines q.pop.2 l' := by
  have hpop := pop_backlog h.wf
  have hwf := pop_wf h.wf
  cases hr : q.pop.1 with
  | some x =>
    rw [hr] at hpop
    obtain ⟨key, hkey, hothers⟩ := hpop
    rw [h.backlog] at hkey
    obtain ⟨l₁, l₂, rfl, hfirst, rfl⟩ := exists_of_ofKey_eq_cons hkey
    refine ⟨l₁ ++ l₂, .take l₁ x l₂ hfirst, hwf, ?_⟩
    intro k
    by_cases hk : k = x.1
    · rw [ofKey_append, ofKey_cons_eq rfl, ofKey_eq_nil hfirst, List.nil_append,
        List.cons.injEq] at hkey
      rw [hk, ofKey_append, ofKey_eq_nil hfirst, List.nil_append, ← hkey.2]
    · rw [hothers k hk, h.backlog, ofKey_append, ofKey_append, ofKey_cons_ne (Ne.symm hk)]
  | none =>
    rw [hr] at hpop
    have hnil : l = [] := by
      rw [← List.length_eq_zero_iff, ← h.len_eq, h.wf.len_eq, contents,
        List.length_eq_zero_iff, List.flatMap_eq_nil_iff]
      exact fun k _ => (hpop k).1
    rw [hnil]
    exact ⟨[], .empty, hwf, fun k => (hpop k).2⟩

theorem Refines.apply {q : FairQueue K (K × T)} {l : List (K × T)} (h : Refines q l)
    {op : Op K T} (hop : op.Positive) : ∃ l',
      Step q.capacity l op.call (q.answer op) l' ∧ Refines (q.apply op).2 l' := by
  cases op with
  | push key weight item => exact h.push key hop item
  | pop => exact h.pop

/-! ## A run -/

/-- The calls of a run with what they return. -/
def history (q : FairQueue K (K × T)) : List (Op K T) → List (Call K T × Answer K T)
  | [] => []
  | op :: ops => (op.call, q.answer op) :: history (q.apply op).2 ops

theorem history_map_fst (q : FairQueue K (K × T)) (ops : List (Op K T)) :
    (q.history ops).map Prod.fst = ops.map Op.call := by
  induction ops generalizing q with
  | nil => rfl
  | cons op ops ih => rw [history, List.map_cons, List.map_cons, ih]

theorem history_taken (q : FairQueue K (K × T)) (ops : List (Op K T)) :
    (q.history ops).filterMap taken = q.popped ops := by
  induction ops generalizing q with
  | nil => rfl
  | cons op ops ih =>
    rw [history, filterMap_cons_toList, popped, ih]
    cases op with
    | push key weight item =>
      have hnone : taken ((Op.push key weight item).call, q.answer (.push key weight item))
          = none := by
        simp only [answer]
        cases (q.push key weight (key, item)).1 <;> rfl
      rw [hnone]
      rfl
    | pop => rfl

theorem Refines.run {q : FairQueue K (K × T)} {l : List (K × T)} (h : Refines q l)
    {ops : List (Op K T)} (hops : ∀ op ∈ ops, op.Positive) : ∃ l',
      Steps q.capacity l (q.history ops) l' ∧ Refines (q.run ops) l' ∧
        (q.run ops).capacity = q.capacity := by
  induction ops generalizing q l with
  | nil => exact ⟨l, .nil l, h, rfl⟩
  | cons op ops ih =>
    obtain ⟨l₁, hstep, h₁⟩ := h.apply (hops op List.mem_cons_self)
    obtain ⟨l₂, hsteps, h₂, hcapacity⟩ := ih h₁ fun o ho => hops o (List.mem_cons_of_mem op ho)
    rw [apply_capacity h.wf] at hsteps hcapacity
    exact ⟨l₂, .cons hstep hsteps, h₂, hcapacity⟩

/-- The items of a key are returned in the order in which they wait. -/
theorem Refines.getElem_popped {q : FairQueue K (K × T)} {l : List (K × T)} (h : Refines q l)
    {ops : List (Op K T)} (hops : ∀ op ∈ ops, op.Positive) {b : K} {j : ℕ}
    (hj : j < (q.backlog b).length) (hserved : j < q.served ops b) :
    (ofKey b (q.popped ops))[j]? = (q.backlog b)[j]? := by
  obtain ⟨l', hsteps, -⟩ := h.run hops
  have horder := hsteps.in_order b
  rw [history_taken, ← h.backlog] at horder
  have hlen : j < (ofKey b (q.popped ops)).length := by
    rw [served, List.countP_eq_length_filter] at hserved
    exact hserved
  rw [← List.getElem?_append_left hj, horder, List.getElem?_append_left hlen]

/-- The calls of a run that are all on one key have the answers of one bounded FIFO. -/
theorem Refines.eq_fifo {q : FairQueue K (K × T)} {l : List (K × T)} (h : Refines q l)
    {ops : List (Op K T)} (hops : ∀ op ∈ ops, op.Positive) {key : K} (hl : ∀ x ∈ l, x.1 = key)
    (hkey : ∀ op ∈ ops, op.call.OnKey key) :
    (q.history ops).map Prod.snd = fifoAnswers q.capacity l (ops.map Op.call) := by
  obtain ⟨l', hsteps, -⟩ := h.run hops
  have honly : ∀ e ∈ q.history ops, e.1.OnKey key := by
    intro e he
    have hmem := List.mem_map_of_mem (f := Prod.fst) he
    rw [history_map_fst] at hmem
    obtain ⟨op, hop, heq⟩ := List.mem_map.mp hmem
    rw [← heq]
    exact hkey op hop
  rw [← history_map_fst q ops]
  exact hsteps.eq_fifo honly hl

end FairQueue
end OxideGate
