import OxideGate.FairQueueReachable
import OxideGate.Lib.Drr

/-!
# One-at-a-time `pop` runs whole turns

The calls of `pop` that empty a queue return the items in the order in which deficit round
robin by whole turns sends them. A turn may span several calls, and a call several turns, so
the two are compared round by round: `Emits q out q'` says that rounds of `pop`'s loop lead
from `q` to `q'` and return `out` on the way. Each turn is such a sequence of rounds
(`turn_emits`), and so is emptying the queue (`Emits.drains`).
-/

namespace OxideGate
namespace FairQueue

open Drr Tally

variable {K T : Type}

/-- What the map holds for a tenant. -/
def flow (q : FairQueue K T) (key : K) : Option (Flow K T ℚ) :=
  (q.queues key).map fun tq => ⟨key, tq.items, tq.weight, tq.deficit⟩

/-- The rotation. -/
def flows (q : FairQueue K T) : List (Flow K T ℚ) := q.active.filterMap q.flow

variable [DecidableEq K]

/-- Calling `pop` until it returns `None` gives the items `l`. -/
inductive Drains : FairQueue K T → List T → Prop
  | done {q : FairQueue K T} (h : q.pop.1 = none) : Drains q []
  | next {q : FairQueue K T} {item : T} {l : List T} (h : q.pop.1 = some item)
      (hl : Drains q.pop.2 l) : Drains q (item :: l)

theorem Drains.unique {q : FairQueue K T} {l m : List T} (hl : Drains q l) (hm : Drains q m) :
    l = m := by
  induction hl generalizing m with
  | done h =>
    cases hm with
    | done _ => rfl
    | next h' _ => exact absurd (h.symm.trans h') (by simp)
  | next h _ ih =>
    cases hm with
    | done h' => exact absurd (h'.symm.trans h) (by simp)
    | next h' hm =>
      rw [Option.some.inj (h.symm.trans h'), ih hm]

theorem Drains.of_pop_eq {q q' : FairQueue K T} {l : List T} (hpop : q.pop = q'.pop)
    (h : Drains q' l) : Drains q l := by
  cases h with
  | done hd => exact .done (by rw [hpop, hd])
  | next hd hl => exact .next (by rw [hpop, hd]) (by rw [hpop]; exact hl)

/-- Rounds of `pop`'s loop that lead from one state to another, and the items they return. -/
inductive Emits : FairQueue K T → List T → FairQueue K T → Prop
  | refl (q : FairQueue K T) : Emits q [] q
  | pass {q q₁ q' : FairQueue K T} {out : List T} (hq : q.visit = .next q₁)
      (h : Emits q₁ out q') : Emits q out q'
  | serve {q q₁ q' : FairQueue K T} {item : T} {out : List T}
      (hq : q.visit = .ret (some item) q₁) (h : Emits q₁ out q') : Emits q (item :: out) q'

theorem Emits.wf {q q' : FairQueue K T} {out : List T} (he : Emits q out q') (h : q.WF) :
    q'.WF := by
  induction he with
  | refl q => exact h
  | pass hq _ ih => exact ih ((hq ▸ visit_cases h).wf_next h)
  | serve hq _ ih => exact ih ((hq ▸ visit_cases h).wf h)

theorem Emits.perm {q q' : FairQueue K T} {out : List T} (he : Emits q out q') (h : q.WF) :
    q.contents.Perm (out ++ q'.contents) := by
  induction he with
  | refl q => exact List.Perm.refl _
  | pass hq _ ih =>
    have hv := hq ▸ visit_cases h
    exact (hv.perm_next h).trans (ih (hv.wf_next h))
  | serve hq _ ih =>
    have hv := hq ▸ visit_cases h
    exact (hv.perm h).trans ((ih (hv.wf h)).cons _)

/-- Whatever rounds an emptying starts with, the rest follows. -/
theorem Emits.drains {q q' : FairQueue K T} {out l : List T} (he : Emits q out q') (h : q.WF)
    (hl : Drains q' l) : Drains q (out ++ l) := by
  induction he with
  | refl q => exact hl
  | pass hq _ ih =>
    exact (ih ((hq ▸ visit_cases h).wf_next h) hl).of_pop_eq (pop_next h hq)
  | serve hq _ ih =>
    have hpop := pop_ret hq
    refine .next (by rw [hpop]) ?_
    rw [hpop]
    exact ih ((hq ▸ visit_cases h).wf h) hl

/-! ## One turn -/

omit [DecidableEq K] in
theorem flow_of_some {q : FairQueue K T} {key : K} {tq : TenantQueue T}
    (h : q.queues key = some tq) : q.flow key = some ⟨key, tq.items, tq.weight, tq.deficit⟩ := by
  rw [flow, h, Option.map_some]

/-- Updating the entry of one key leaves the flows of the other keys. -/
theorem filterMap_flow_update {q : FairQueue K T} {key : K} {l : List K} (hl : key ∉ l)
    (v : Option (TenantQueue T)) (active : List K) (started : Bool) (len capacity : ℕ) :
    l.filterMap (flow ⟨Function.update q.queues key v, active, started, len, capacity⟩)
      = l.filterMap q.flow := by
  refine List.filterMap_congr fun k hk => ?_
  have hne : k ≠ key := by
    intro e
    rw [e] at hk
    exact hl hk
  simp only [flow, Function.update_of_ne hne]

omit [DecidableEq K] in
theorem flows_cons {q : FairQueue K T} {key : K} {rest : List K} {tq : TenantQueue T}
    (hactive : q.active = key :: rest) (htq : q.queues key = some tq) :
    q.flows = ⟨key, tq.items, tq.weight, tq.deficit⟩ :: rest.filterMap q.flow := by
  rw [flows, hactive, List.filterMap_cons_some (flow_of_some htq)]

/-- A flow that has moved to the back of the rotation. -/
theorem flows_back {q : FairQueue K T} {key : K} {rest : List K} (hkey : key ∉ rest)
    (tq : TenantQueue T) (started : Bool) (len capacity : ℕ) :
    flows ⟨Function.update q.queues key (some tq), rest ++ [key], started, len, capacity⟩
      = rest.filterMap q.flow ++ [⟨key, tq.items, tq.weight, tq.deficit⟩] := by
  rw [flows, List.filterMap_append, filterMap_flow_update hkey]
  congr 1
  rw [List.filterMap_cons_some (flow_of_some (Function.update_self key _ q.queues))]
  rfl

/-- What the rounds of one turn return, and the rotation they leave, are those of the turn. -/
theorem turn_emits {q : FairQueue K T} (h : q.WF) (hactive : q.active ≠ []) :
    ∃ q', Emits q (turn q.turnStarted q.flows).1 q' ∧ q'.turnStarted = false ∧
      q'.flows = (turn q.turnStarted q.flows).2 ∧
      ((turn q.turnStarted q.flows).1 = [] →
        tally q'.missing q'.active < tally q.missing q.active) := by
  -- induction on what is queued: a round that does not end the turn takes one item
  induction hlen : q.contents.length using Nat.strong_induction_on generalizing q with
  | _ n ih =>
    have hv := visit_cases h
    generalize hq : q.visit = v at hv
    cases hv with
    | idle hnil => exact absurd hnil hactive
    | pass key rest tq hcons htq hd =>
      have hkey : key ∉ rest := (List.nodup_cons.mp (hcons ▸ h.nodup)).1
      have hturn := turn_pass q.turnStarted ⟨key, tq.items, tq.weight, tq.deficit⟩
        (rest.filterMap q.flow)
        (h.items_ne key tq htq) hd
      have hfewer := (Visited.pass key rest tq hcons htq hd).missing_next h
      rw [flows_cons hcons htq, hturn]
      refine ⟨_, .pass hq (.refl _), rfl, flows_back hkey _ _ _ _, fun _ => ?_⟩
      omega
    | drain key rest tq item hcons htq hitems hd =>
      have hkey : key ∉ rest := (List.nodup_cons.mp (hcons ▸ h.nodup)).1
      have hturn := turn_drain q.turnStarted ⟨key, tq.items, tq.weight, tq.deficit⟩
        (rest.filterMap q.flow) hitems hd
      rw [flows_cons hcons htq, hturn]
      exact ⟨_, .serve hq (.refl _), rfl, filterMap_flow_update hkey _ _ _ _ _,
        fun hnil => absurd hnil (by simp)⟩
    | rotate key rest tq item items hcons htq hitems hne hd hlast =>
      have hkey : key ∉ rest := (List.nodup_cons.mp (hcons ▸ h.nodup)).1
      have hturn := turn_rotate q.turnStarted ⟨key, tq.items, tq.weight, tq.deficit⟩
        (rest.filterMap q.flow) hitems hne hd hlast
      rw [flows_cons hcons htq, hturn]
      exact ⟨_, .serve hq (.refl _), rfl, flows_back hkey _ _ _ _,
        fun hnil => absurd hnil (by simp)⟩
    | stay key rest tq item items hcons htq hitems hne hmore =>
      have hkey : key ∉ rest := (List.nodup_cons.mp (hcons ▸ h.nodup)).1
      have hstay := Visited.stay key rest tq item items hcons htq hitems hne hmore
      have hfewer := (hstay.perm h).length_eq
      have hturn := turn_stay q.turnStarted ⟨key, tq.items, tq.weight, tq.deficit⟩
        (rest.filterMap q.flow) hitems hmore
      rw [List.length_cons] at hfewer
      -- the turn goes on in the next state
      obtain ⟨q', hemits, hstarted, hflows, -⟩ := ih _ (by omega) (hstay.wf h) hactive rfl
      rw [flows_cons (q := { q with
          queues := Function.update q.queues key (some ⟨items, tq.weight, q.credited tq - 1⟩)
          turnStarted := true
          len := q.len - 1 }) hcons (Function.update_self _ _ _),
        filterMap_flow_update hkey] at hemits hflows
      rw [flows_cons hcons htq, hturn]
      exact ⟨q', .serve hq hemits, hstarted, hflows, fun hnil => absurd hnil (by simp)⟩

/-! ## Turn after turn -/

/-- Emptying the queue with `pop` and by whole turns give the same items. -/
theorem WF.serves_of_drains {q : FairQueue K T} (h : q.WF) :
    ∃ l, Drains q l ∧ Serves q.turnStarted q.flows l := by
  -- a turn that sends nothing gives a credit that is missing to a dispatch
  induction hn : q.contents.length using Nat.strong_induction_on generalizing q with
  | _ n ihn =>
    induction hm : tally q.missing q.active using Nat.strong_induction_on generalizing q with
    | _ m ihm =>
      by_cases hactive : q.active = []
      · have hnone : q.pop.1 = none := by
          have hvisit : q.visit = .ret none q := by
            rw [visit, hactive]
          rw [pop_ret hvisit]
        have hflows : q.flows = [] := by
          rw [flows, hactive, List.filterMap_nil]
        rw [hflows]
        exact ⟨[], .done hnone, .idle _⟩
      · obtain ⟨q', hemits, hstarted, hflows, hfewer⟩ := turn_emits h hactive
        have hlen := (hemits.perm h).length_eq
        rw [List.length_append] at hlen
        have hrest : ∃ l, Drains q' l ∧ Serves q'.turnStarted q'.flows l := by
          by_cases hnil : (turn q.turnStarted q.flows).1 = []
          · rw [hnil, List.length_nil, Nat.zero_add] at hlen
            exact ihm _ (hm ▸ hfewer hnil) (hemits.wf h) (hlen ▸ hn) rfl
          · have hpos := List.length_pos_iff.mpr hnil
            exact ihn _ (by omega) (hemits.wf h) rfl
        obtain ⟨l, hdrains, hserves⟩ := hrest
        obtain ⟨key, rest, hcons⟩ := List.exists_cons_of_ne_nil hactive
        obtain ⟨tq, htq⟩ := h.exists_queue (k := key) (by rw [hcons]; exact List.mem_cons_self)
        refine ⟨_, hemits.drains h hdrains, ?_⟩
        rw [hstarted, hflows] at hserves
        rw [flows_cons hcons htq] at hserves ⊢
        exact .turn hserves

/-- From every state that calls lead to, popping until `None` returns the items that deficit
round robin by whole turns sends; what a flow keeps for its next turn is less than a unit. -/
theorem drains_serves {capacity : ℕ} {q : FairQueue K T}
    (h : Reachable {w | 0 < w} capacity q) :
    (∃ l, (∀ m, Drains q m ↔ m = l) ∧ ∀ m, Serves q.turnStarted q.flows m ↔ m = l) ∧
      ∀ f fs, q.flows = f :: fs → f.quota q.turnStarted < f.items.length →
        0 ≤ f.credit q.turnStarted - f.quota q.turnStarted ∧
          f.credit q.turnStarted - f.quota q.turnStarted < 1 := by
  have hwf := h.wf fun _ hw => hw
  constructor
  · obtain ⟨l, hdrains, hserves⟩ := hwf.serves_of_drains
    refine ⟨l, fun m => ⟨fun hm => hm.unique hdrains, ?_⟩,
      fun m => ⟨fun hm => hm.unique hserves, ?_⟩⟩
    · rintro rfl
      exact hdrains
    · rintro rfl
      exact hserves
  · intro f fs hflows hleft
    refine turn_remainder q.turnStarted f ?_ hleft
    cases hactive : q.active with
    | nil => simp [flows, hactive] at hflows
    | cons key rest =>
      obtain ⟨tq, htq⟩ := hwf.exists_queue (k := key) (by rw [hactive]; exact List.mem_cons_self)
      rw [flows_cons hactive htq, List.cons.injEq] at hflows
      rw [← hflows.1]
      exact (hwf.credited_bounds hactive htq).1

/-- A tenant of weight 5/2 with a turn begun, and one of weight 1. -/
theorem drains_serves_begun :
    let q : FairQueue ℕ ℕ :=
      ((((new 9).push 0 (5 / 2) 10).2.push 0 (5 / 2) 11).2.push 1 1 20).2.pop.2
    ∃ l, (∀ m, Drains q m ↔ m = l) ∧ ∀ m, Serves q.turnStarted q.flows m ↔ m = l :=
  (drains_serves ((((Reachable.new.push 0 (by norm_num) 10).push 0 (by norm_num) 11).push 1
    (by norm_num) 20).pop)).1

end FairQueue
end OxideGate
