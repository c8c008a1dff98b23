import OxideGate.FairQueueFifo
import OxideGate.Lib.Rotation
import OxideGate.FairQueueFairness

/-!
# Bounded wait in a `FairQueue`

With tier weights a turn serves at most one item. `Waits` is the measure of an item that waits
in the queue of tenant `b`: the tenants ahead of `b` in the rotation, the turns that `b` still
needs, and the items of `b` up to this one together bound the calls of `pop` until it is
returned. A round that passes does not raise the bound, a round that serves anything lowers it
(`Waits.next`, `Waits.ret`), and nobody who joins does so ahead of `b` (`Waits.push`).
-/

namespace OxideGate
namespace FairQueue

open Fifos Rotation

variable {K T : Type} [DecidableEq K]

/-! ## Queues with tier weights -/

/-- The weight is a tier's. -/
def Op.Tiered : Op K T → Prop
  | .push _ weight _ => ∃ tier : Tier, weight = tier.weight
  | .pop => True

omit [DecidableEq K] in
@[simp] theorem Op.tiered_push (key : K) (tier : Tier) (item : T) :
    (Op.push key tier.weight item).Tiered :=
  ⟨tier, rfl⟩

omit [DecidableEq K] in
@[simp] theorem Op.tiered_pop : (Op.pop : Op K T).Tiered := trivial

/-- A credit is at most one dispatch, and each queue holds items of its own key. -/
structure Light (q : FairQueue K (K × T)) : Prop where
  wf : q.WF
  weight_le : Weighted {w | 0 < w ∧ w ≤ 1} q
  tagged : ∀ k, ∀ x ∈ q.backlog k, x.1 = k

omit [DecidableEq K] in
/-- At weights up to 1 no turn is left open. -/
theorem Light.not_started {q : FairQueue K (K × T)} (h : Light q) : q.turnStarted = false :=
  h.wf.not_started fun k tq hk => (h.weight_le k tq hk).2

omit [DecidableEq K] in
/-- The empty queue. -/
theorem light_new (capacity : ℕ) : Light (new capacity : FairQueue K (K × T)) where
  wf := wf_new capacity
  weight_le := fun k tq hk => by simp [new] at hk
  tagged := fun k x hx => by simp [new, backlog] at hx

omit [DecidableEq K] in
/-- The items of a queue are of its key, as a property of the entries. -/
theorem Light.entries {q : FairQueue K (K × T)} (h : Light q) :
    Entries (fun k _ items => ∀ x ∈ items, x.1 = k) q :=
  fun k tq hk x hx => h.tagged k x (by rwa [backlog_of_some hk])

omit [DecidableEq K] in
theorem tagged_of_entries {q : FairQueue K (K × T)}
    (h : Entries (fun k _ items => ∀ x ∈ items, x.1 = k) q) : ∀ k, ∀ x ∈ q.backlog k, x.1 = k := by
  intro k x hx
  cases hk : q.queues k with
  | none =>
    rw [backlog, hk] at hx
    exact absurd hx List.not_mem_nil
  | some tq =>
    rw [backlog_of_some hk] at hx
    exact h k tq hk x hx

/-- A push at the weight of a tier. -/
theorem Light.push {q : FairQueue K (K × T)} (h : Light q) (key : K) {weight : ℚ}
    (hw : ∃ tier : Tier, weight = tier.weight) (item : T) :
    Light (q.push key weight (key, item)).2 := by
  obtain ⟨tier, rfl⟩ := hw
  refine ⟨push_wf h.wf key tier.weight_pos _,
    h.weight_le.push key ⟨tier.weight_pos, tier.weight_le_one⟩ _, tagged_of_entries ?_⟩
  exact h.entries.push key tier.weight (key, item)
    (fun _ _ => tagged_concat (List.forall_mem_nil _) item)
    fun _ _ _ hold => tagged_concat hold item

/-- A round that goes on. -/
theorem Light.next {q q' : FairQueue K (K × T)} (h : Light q) (hv : Visited q (.next q')) :
    Light q' where
  wf := hv.wf_next h.wf
  weight_le := h.weight_le.visit hv
  tagged := tagged_of_entries (h.entries.visit tagged_tail hv)

/-- A round that returns. -/
theorem Light.ret {q q' : FairQueue K (K × T)} {item : Option (K × T)} (h : Light q)
    (hv : Visited q (.ret item q')) : Light q' where
  wf := hv.wf h.wf
  weight_le := h.weight_le.visit hv
  tagged := tagged_of_entries (h.entries.visit tagged_tail hv)

/-- So `pop` keeps it. -/
theorem Light.pop {q : FairQueue K (K × T)} (h : Light q) : Light q.pop.2 :=
  pop_rule (P := Light) (Q := fun _ q' => Light q') (fun _ _ _ hl hv => hl.next hv)
    (fun _ _ _ _ hl hv => hl.ret hv) h.wf h

/-- Any call of a tiered run keeps it. -/
theorem Light.apply {q : FairQueue K (K × T)} (h : Light q) {op : Op K T} (hop : op.Tiered) :
    Light (q.apply op).2 := by
  cases op with
  | push key weight item => exact h.push key hop item
  | pop => exact h.pop

/-- A whole tiered run keeps it. -/
theorem Light.run {q : FairQueue K (K × T)} (h : Light q) {ops : List (Op K T)}
    (hops : ∀ op ∈ ops, op.Tiered) : Light (q.run ops) := by
  induction ops generalizing q with
  | nil => exact h
  | cons op ops ih =>
    exact ih (h.apply (hops op List.mem_cons_self)) fun o ho => hops o (List.mem_cons_of_mem op ho)

/-! ## The measure -/

/-- An item of `b`, of weight `w`, is the `r`-th of its tenant. After `m` more turns `b` has the
credit for it, and `p` more calls of `pop` return it, if never more than `n` others wait. -/
structure Waits (b : K) (w : ℚ) (n r p m : ℕ) (q : FairQueue K (K × T)) : Prop where
  light : Light q
  pos : 0 < r
  entry : ∃ tq, q.queues b = some tq ∧ tq.weight = w ∧ r ≤ tq.items.length ∧
    (r : ℚ) ≤ tq.deficit + m * w
  budget : rank b q.active + m * n + r ≤ p + n

omit [DecidableEq K] in
/-- Each turn starts with its credit. -/
theorem Light.credited {q : FairQueue K (K × T)} (h : Light q) (tq : TenantQueue (K × T)) :
    q.credited tq = tq.deficit + tq.weight := by
  rw [FairQueue.credited, h.not_started]
  rfl

omit [DecidableEq K] in
/-- Between calls less than one item's credit is left to a key. -/
theorem Light.deficit_lt_one {q : FairQueue K (K × T)} (h : Light q) {k : K}
    {tq : TenantQueue (K × T)} (hk : q.queues k = some tq) : 0 ≤ tq.deficit ∧ tq.deficit < 1 := by
  refine h.wf.resting k tq hk fun hs => ?_
  rw [h.not_started] at hs
  exact absurd hs.1 (by simp)

omit [DecidableEq K] in
/-- A turn does not serve a second item. -/
theorem Light.credited_lt {q : FairQueue K (K × T)} (h : Light q) {k : K}
    {tq : TenantQueue (K × T)} (hk : q.queues k = some tq) : q.credited tq < 2 := by
  have hd := (h.deficit_lt_one hk).2
  have hw := (h.weight_le k tq hk).2
  rw [h.credited]
  linarith

/-- The item still needs a turn. -/
theorem Waits.turns_pos {b : K} {w : ℚ} {n r p m : ℕ} {q : FairQueue K (K × T)}
    (h : Waits b w n r p m q) : 0 < m := by
  by_contra hm
  obtain ⟨tq, htq, -, -, hcredit⟩ := h.entry
  have hr : (1 : ℚ) ≤ r := by exact_mod_cast h.pos
  have hd := (h.light.deficit_lt_one htq).2
  rw [Nat.eq_zero_of_not_pos hm, Nat.cast_zero, zero_mul] at hcredit
  linarith

/-- A round that passes: nobody is overtaken. -/
theorem Waits.next {b : K} {w : ℚ} {n r p m : ℕ} {q q' : FairQueue K (K × T)}
    (h : Waits b w n r p m q) (hn : 1 < m → others b q.active ≤ n)
    (hv : Visited q (.next q')) :
    ∃ m' ≤ m, Waits b w n r p m' q' ∧ others b q'.active = others b q.active := by
  have hlight := h.light.next hv
  have hm := h.turns_pos
  have hbudget := h.budget
  obtain ⟨tb, htb, hw, hitems, hcredit⟩ := h.entry
  have hb := h.light.wf.mem_active htb
  cases hv with
  | pass key rest tq hactive htq hd =>
    have hothers : others b (rest ++ [key]) = others b q.active := by
      rw [hactive]
      exact others_perm List.perm_append_comm
    have hkey : key ∉ rest := (List.nodup_cons.mp (hactive ▸ h.light.wf.nodup)).1
    by_cases hk : key = b
    · -- the turn of `b`: it needs one turn less
      subst hk
      rw [htq, Option.some.injEq] at htb
      subst htb
      rw [h.light.credited, hw] at hd
      have hr : (1 : ℚ) ≤ r := by exact_mod_cast h.pos
      have hmore : (m : ℚ) ≠ 1 := by
        intro hm1
        rw [hm1] at hcredit
        linarith
      have hm1 : 1 < m := by
        have hne : m ≠ 1 := by exact_mod_cast hmore
        omega
      have hrank : rank key (rest ++ [key]) ≤ n := by
        rw [rank_concat hkey]
        have := hn hm1
        rwa [← hothers, others_concat_self] at this
      obtain ⟨m', rfl⟩ : ∃ m', m = m' + 1 := ⟨m - 1, by omega⟩
      refine ⟨m', by omega, ⟨hlight, h.pos, ?_, ?_⟩, hothers⟩
      · refine ⟨_, Function.update_self _ _ _, hw, hitems, ?_⟩
        push_cast at hcredit
        rw [h.light.credited, hw]
        linarith
      · rw [Nat.succ_mul] at hbudget
        show rank key (rest ++ [key]) + m' * n + r ≤ p + n
        omega
    · refine ⟨m, Nat.le_refl m, ⟨hlight, h.pos, ?_, ?_⟩, hothers⟩
      · exact ⟨tb, by rw [← htb]; exact Function.update_of_ne (Ne.symm hk) _ _, hw, hitems, hcredit⟩
      · rw [hactive] at hb hbudget
        have hbr : b ∈ rest := (List.mem_cons.mp hb).resolve_left (Ne.symm hk)
        rw [rank_cons_ne hk] at hbudget
        show rank b (rest ++ [key]) + m * n + r ≤ p + n
        rw [rank_append hbr]
        omega

/-- A tenant that `b` waited for is served. -/
theorem Waits.ret_other {b : K} {w : ℚ} {n r p m : ℕ} {q q' : FairQueue K (K × T)} {x : K × T}
    (h : Waits b w n r p m q) (hv : Visited q (.ret (some x) q')) (hx : x.1 ≠ b) :
    ∃ p' < p, Waits b w n r p' m q' := by
  have hlight := h.light.ret hv
  have hpos := h.turns_pos
  have hbudget := h.budget
  obtain ⟨tb, htb, hw, hitems, hcredit⟩ := h.entry
  have hb := h.light.wf.mem_active htb
  -- `b`'s entry stays, and the tenant in front, who is not `b`, is no longer ahead
  have hstep : ∀ (key : K) (rest : List K) (tq : TenantQueue (K × T)), q.active = key :: rest →
      q.queues key = some tq → x ∈ tq.items → key ≠ b ∧ b ∈ rest ∧
        rank b rest + 1 + m * n + r ≤ p + n := by
    intro key rest tq hactive htq hmem
    have hk : x.1 = key := h.light.tagged key x (by rwa [backlog_of_some htq])
    rw [hk] at hx
    rw [hactive] at hb hbudget
    rw [rank_cons_ne hx] at hbudget
    exact ⟨hx, (List.mem_cons.mp hb).resolve_left (Ne.symm hx), hbudget⟩
  have hn : n ≤ m * n := Nat.le_mul_of_pos_left n hpos
  cases hv with
  | drain key rest tq _ hactive htq hq hd =>
    obtain ⟨hk, hbr, hrank⟩ := hstep key rest tq hactive htq (by rw [hq]; exact List.mem_cons_self)
    refine ⟨p - 1, by omega, hlight, h.pos, ?_, ?_⟩
    · exact ⟨tb, by rw [← htb]; exact Function.update_of_ne (Ne.symm hk) _ _, hw, hitems, hcredit⟩
    · show rank b rest + m * n + r ≤ p - 1 + n
      omega
  | rotate key rest tq _ items hactive htq hq hne hd hlast =>
    obtain ⟨hk, hbr, hrank⟩ := hstep key rest tq hactive htq (by rw [hq]; exact List.mem_cons_self)
    refine ⟨p - 1, by omega, hlight, h.pos, ?_, ?_⟩
    · exact ⟨tb, by rw [← htb]; exact Function.update_of_ne (Ne.symm hk) _ _, hw, hitems, hcredit⟩
    · show rank b (rest ++ [key]) + m * n + r ≤ p - 1 + n
      rw [rank_append hbr]
      omega
  | stay key rest tq _ items hactive htq hq hne hmore =>
    have hlt := h.light.credited_lt htq
    linarith

/-- `b` is served, and the item was not the one in front: one less is ahead of it. -/
theorem Waits.ret_self {b : K} {w : ℚ} {n r p m : ℕ} {q q' : FairQueue K (K × T)} {x : K × T}
    (h : Waits b w n r p m q) (hn : 1 < m → others b q.active ≤ n)
    (hv : Visited q (.ret (some x) q')) (hx : x.1 = b) (hr : r ≠ 1) :
    ∃ m' ≤ m, ∃ p' < p, Waits b w n (r - 1) p' m' q' := by
  have hlight := h.light.ret hv
  have hr' : 2 ≤ r := by
    have := h.pos
    omega
  have hbudget := h.budget
  obtain ⟨tb, htb, hw, hitems, hcredit⟩ := h.entry
  have hfront : ∀ (key : K) (tq : TenantQueue (K × T)), q.queues key = some tq → x ∈ tq.items →
      key = b := by
    intro key tq htq hmem
    rw [← hx]
    exact (h.light.tagged key x (by rwa [backlog_of_some htq])).symm
  cases hv with
  | drain key rest tq _ hactive htq hq hd =>
    -- its last item would be this one
    obtain rfl := hfront key tq htq (by rw [hq]; exact List.mem_cons_self)
    rw [htq, Option.some.injEq] at htb
    rw [← htb, hq, List.length_singleton] at hitems
    omega
  | rotate key rest tq _ items hactive htq hq hne hd hlast =>
    obtain rfl := hfront key tq htq (by rw [hq]; exact List.mem_cons_self)
    have hkey : key ∉ rest := (List.nodup_cons.mp (hactive ▸ h.light.wf.nodup)).1
    rw [htq, Option.some.injEq] at htb
    subst htb
    -- two items need more than the credit of this turn
    have hm1 : 1 < m := by
      have hle := (h.light.weight_le key tq htq).2
      have hlt := (h.light.deficit_lt_one htq).2
      have hr2 : (2 : ℚ) ≤ r := by exact_mod_cast hr'
      rw [hw] at hle
      by_contra hm
      have hm' : (m : ℚ) ≤ 1 := by exact_mod_cast Nat.not_lt.mp hm
      have hmw : (m : ℚ) * w ≤ 1 := by
        have hw0 := (h.light.weight_le key tq htq).1
        rw [hw] at hw0
        calc (m : ℚ) * w ≤ 1 * w := mul_le_mul_of_nonneg_right hm' hw0.le
          _ ≤ 1 := by rw [one_mul]; exact hle
      linarith
    have hrank : rank key (rest ++ [key]) ≤ n := by
      have hothers := hn hm1
      rw [hactive, others, List.countP_cons_of_neg (by simp)] at hothers
      rw [rank_concat hkey]
      exact hothers
    obtain ⟨m', rfl⟩ : ∃ m', m = m' + 1 := ⟨m - 1, by omega⟩
    have hlen : r ≤ items.length + 1 := by
      rw [hq, List.length_cons] at hitems
      exact hitems
    have hm' : n ≤ m' * n := Nat.le_mul_of_pos_left n (by omega)
    rw [Nat.succ_mul] at hbudget
    refine ⟨m', by omega, p - 1, by omega, hlight, by omega, ?_, ?_⟩
    · refine ⟨_, Function.update_self _ _ _, hw, ?_, ?_⟩
      · show r - 1 ≤ items.length
        omega
      · push_cast [Nat.cast_sub (show 1 ≤ r by omega)] at hcredit ⊢
        rw [h.light.credited, hw]
        linarith
    · show rank key (rest ++ [key]) + m' * n + (r - 1) ≤ p - 1 + n
      omega
  | stay key rest tq _ items hactive htq hq hne hmore =>
    have hlt := h.light.credited_lt htq
    linarith

/-- A call of `pop`: either `b` is served, and the item is the one returned or has one item less
ahead of it, or another tenant is. -/
theorem Waits.pop {b : K} {w : ℚ} {n r p m : ℕ} {q : FairQueue K (K × T)}
    (h : Waits b w n r p m q) (hn : 1 < m → others b q.active ≤ n) :
    ∃ x, q.pop.1 = some x ∧
      ((x.1 = b ∧ (r = 1 ∨ ∃ m' ≤ m, ∃ p' < p, Waits b w n (r - 1) p' m' q.pop.2)) ∨
        (x.1 ≠ b ∧ ∃ m' ≤ m, ∃ p' < p, Waits b w n r p' m' q.pop.2)) := by
  refine pop_rule
    (P := fun q => ∃ m' ≤ m, Waits b w n r p m' q ∧ (1 < m' → others b q.active ≤ n))
    (Q := fun item q' => ∃ x, item = some x ∧
      ((x.1 = b ∧ (r = 1 ∨ ∃ m' ≤ m, ∃ p' < p, Waits b w n (r - 1) p' m' q')) ∨
        (x.1 ≠ b ∧ ∃ m' ≤ m, ∃ p' < p, Waits b w n r p' m' q')))
    ?_ ?_ h.light.wf ⟨m, Nat.le_refl m, h, hn⟩
  · intro q q' _ hP hv
    obtain ⟨m₁, hm₁, h₁, hn₁⟩ := hP
    obtain ⟨m₂, hm₂, h₂, hothers⟩ := h₁.next hn₁ hv
    refine ⟨m₂, hm₂.trans hm₁, h₂, fun hlt => ?_⟩
    rw [hothers]
    exact hn₁ (by omega)
  · intro q item q' _ hP hv
    obtain ⟨m₁, hm₁, h₁, hn₁⟩ := hP
    cases item with
    | none =>
      -- `b` has something queued
      obtain ⟨tb, htb, -⟩ := h₁.entry
      have hb := h₁.light.wf.mem_active htb
      cases hv with
      | idle hactive =>
        rw [hactive] at hb
        exact absurd hb List.not_mem_nil
    | some x =>
      refine ⟨x, rfl, ?_⟩
      by_cases hx : x.1 = b
      · refine Or.inl ⟨hx, ?_⟩
        by_cases hr : r = 1
        · exact Or.inl hr
        · obtain ⟨m', hm', p', hp', hwaits⟩ := h₁.ret_self hn₁ hv hx hr
          exact Or.inr ⟨m', hm'.trans hm₁, p', hp', hwaits⟩
      · obtain ⟨p', hp', hwaits⟩ := h₁.ret_other hv hx
        exact Or.inr ⟨hx, m₁, hm₁, p', hp', hwaits⟩

/-- Whoever pushes does so behind the item. -/
theorem Waits.push {b : K} {w : ℚ} {n r p m : ℕ} {q : FairQueue K (K × T)}
    (h : Waits b w n r p m q) (key : K) {weight : ℚ} (hw : ∃ tier : Tier, weight = tier.weight)
    (item : T) : Waits b w n r p m (q.push key weight (key, item)).2 := by
  have hlight := h.light.push key hw item
  obtain ⟨tb, htb, hweight, hitems, hcredit⟩ := h.entry
  have hb := h.light.wf.mem_active htb
  rcases push_cases q key weight (key, item) with ⟨-, he⟩ | ⟨-, q', he, hp⟩
  · rw [he]
    exact h
  · rw [he] at hlight ⊢
    cases hp with
    | grow tq htq =>
      refine ⟨hlight, h.pos, ?_, h.budget⟩
      by_cases hk : b = key
      · subst hk
        rw [htq, Option.some.injEq] at htb
        subst htb
        refine ⟨_, Function.update_self _ _ _, hweight, ?_, hcredit⟩
        rw [List.length_append]
        exact hitems.trans (Nat.le_add_right _ _)
      · exact ⟨tb, by rw [← htb]; exact Function.update_of_ne hk _ _, hweight, hitems, hcredit⟩
    | join hnone =>
      have hk : b ≠ key := by
        intro e
        rw [e, hnone] at htb
        exact absurd htb (by simp)
      refine ⟨hlight, h.pos, ?_, ?_⟩
      · exact ⟨tb, by rw [← htb]; exact Function.update_of_ne hk _ _, hweight, hitems, hcredit⟩
      · show rank b (q.active ++ [key]) + m * n + r ≤ p + n
        rw [rank_append hb]
        exact h.budget

/-! ## A run -/

def Op.isPop : Op K T → Bool
  | .push _ _ _ => false
  | .pop => true

/-- The calls of `pop` in a run. -/
def pops (ops : List (Op K T)) : ℕ := ops.countP Op.isPop

/-- Never more than `n` tenants but `b` wait, in any state of the run until `b` has been served
`r` items. -/
def Uncrowded (b : K) (n r : ℕ) (q : FairQueue K (K × T)) (ops : List (Op K T)) : Prop :=
  ∀ i ≤ ops.length, q.served (ops.take i) b < r → others b (q.run (ops.take i)).active ≤ n

theorem served_cons_countOf (q : FairQueue K (K × T)) (op : Op K T) (ops : List (Op K T)) (x : K) :
    q.served (op :: ops) x = countOf x (q.apply op).1 + (q.apply op).2.served ops x :=
  served_cons q op ops x

theorem Uncrowded.start {b : K} {n r : ℕ} {q : FairQueue K (K × T)} {ops : List (Op K T)}
    (h : Uncrowded b n r q ops) (hr : 0 < r) : others b q.active ≤ n :=
  h 0 (Nat.zero_le _) hr

theorem Uncrowded.tail {b : K} {n r : ℕ} {q : FairQueue K (K × T)} {op : Op K T}
    {ops : List (Op K T)} (h : Uncrowded b n r q (op :: ops)) :
    Uncrowded b n (r - countOf b (q.apply op).1) (q.apply op).2 ops := by
  intro i hi hserved
  have hnext := h (i + 1) (Nat.succ_le_succ hi)
  rw [List.take_succ_cons, served_cons_countOf] at hnext
  exact hnext (by omega)

/-- Once the run has enough calls of `pop`, the item has been returned. -/
theorem Waits.served_le {b : K} {w : ℚ} {n r p m : ℕ} {q : FairQueue K (K × T)}
    (h : Waits b w n r p m q) {ops : List (Op K T)} (hops : ∀ op ∈ ops, op.Tiered)
    (hn : 1 < m → Uncrowded b n r q ops) (hp : p ≤ pops ops) : r ≤ q.served ops b := by
  induction ops generalizing q r p m with
  | nil =>
    -- the budget is never used up while the item waits
    have hbudget := h.budget
    have hm : n ≤ m * n := Nat.le_mul_of_pos_left n h.turns_pos
    have hr := h.pos
    rw [pops, List.countP_nil] at hp
    omega
  | cons op ops ih =>
    have hrest : ∀ o ∈ ops, o.Tiered := fun o ho => hops o (List.mem_cons_of_mem op ho)
    have htail := fun hm => (hn hm).tail
    rw [served_cons_countOf]
    cases op with
    | push key weight item =>
      have hpops : pops (Op.push key weight item :: ops) = pops ops :=
        List.countP_cons_of_neg (by simp [Op.isPop])
      rw [hpops] at hp
      have hle := ih (h.push key (hops _ List.mem_cons_self) item) hrest htail hp
      exact hle.trans (Nat.le_add_left _ _)
    | pop =>
      have hpops : pops (Op.pop :: ops) = pops ops + 1 :=
        List.countP_cons_of_pos (by simp [Op.isPop])
      obtain ⟨x, hx, hcases⟩ := h.pop fun hm => (hn hm).start h.pos
      have hcount : countOf b (q.apply .pop).1 = if x.1 = b then 1 else 0 := by
        rw [apply, hx, countOf_some]
      rw [hcount] at htail ⊢
      rcases hcases with ⟨hxb, hr | ⟨m', hm', p', hp', hwaits⟩⟩ | ⟨hxb, m', hm', p', hp', hwaits⟩
      · rw [hr, if_pos hxb]
        exact Nat.le_add_right _ _
      · rw [if_pos hxb] at htail ⊢
        have hle := ih hwaits hrest (fun hm => htail (by omega)) (by omega)
        have hserved : (q.apply .pop).2 = q.pop.2 := rfl
        rw [hserved]
        omega
      · rw [if_neg hxb] at htail ⊢
        have hle := ih hwaits hrest (fun hm => htail (by omega)) (by omega)
        have hserved : (q.apply .pop).2 = q.pop.2 := rfl
        rw [hserved]
        omega

omit [DecidableEq K] in
theorem Op.Tiered.positive {op : Op K T} (h : op.Tiered) : op.Positive := by
  cases op with
  | push key weight item =>
    obtain ⟨tier, rfl⟩ := h
    exact tier.weight_pos
  | pop => trivial

/-- An item of `b` with `j` others ahead of it, whatever the deficit. -/
theorem Light.waits_at {q : FairQueue K (K × T)} (h : Light q) {b : K} {tq : TenantQueue (K × T)}
    (htq : q.queues b = some tq) {j n : ℕ} (hj : j + 1 ≤ tq.items.length)
    (hothers : others b q.active ≤ n) :
    Waits b tq.weight n (j + 1) (⌈((j : ℚ) + 1) / tq.weight⌉₊ * n + j + 1)
      ⌈((j : ℚ) + 1) / tq.weight⌉₊ q := by
  have hw := (h.weight_le b tq htq).1
  have hd := (h.deficit_lt_one htq).1
  refine ⟨h, Nat.succ_pos j, ⟨tq, htq, rfl, hj, ?_⟩, ?_⟩
  · have hceil := (div_le_iff₀ hw).mp (Nat.le_ceil (((j : ℚ) + 1) / tq.weight))
    push_cast
    linarith
  · have hrank := rank_le_others b q.active
    omega

/-- The only item of a tenant of weight 1 that has just joined: its first credit is enough, so
only those ahead of it count. -/
theorem Light.waits_joined {q : FairQueue K (K × T)} (h : Light q) {b : K} {item : K × T}
    {active : List K} (hentry : q.queues b = some ⟨[item], 1, 0⟩)
    (hactive : q.active = active ++ [b]) (hb : b ∉ active) :
    Waits b 1 0 1 (others b active + 1) 1 q := by
  refine ⟨h, Nat.one_pos, ⟨_, hentry, rfl, Nat.le_refl 1, ?_⟩, ?_⟩
  · norm_num
  · rw [hactive, rank_concat hb]

/-- An accepted item of tenant `b` with `j` items of `b` ahead of it is returned by the
`⌈(j + 1) / w⌉ * n + j + 1`-th `pop`, where `w` is the weight of `b`'s queue and never more than
`n` others wait until then. A paid tenant that had nothing queued waits for one turn of each
tenant that is waiting when it comes, whoever comes later. -/
theorem bounded_wait {capacity : ℕ} {before : List (Op K T)} (hbefore : ∀ op ∈ before, op.Tiered)
    (b : K) (tier : Tier) (item : T)
    (hok : (((new capacity).run before).push b tier.weight (b, item)).1 = .ok ())
    {ops : List (Op K T)} (hops : ∀ op ∈ ops, op.Tiered) :
    let q : FairQueue K (K × T) := (new capacity).run before
    let q' := (q.push b tier.weight (b, item)).2
    let j := (q.backlog b).length
    (∀ tq n, q'.queues b = some tq → Uncrowded b n (j + 1) q' ops →
        ⌈((j : ℚ) + 1) / tq.weight⌉₊ * n + j + 1 ≤ pops ops →
        (ofKey b (q'.popped ops))[j]? = some (b, item)) ∧
      (tier = .paid → j = 0 → others b q.active + 1 ≤ pops ops →
        (ofKey b (q'.popped ops))[j]? = some (b, item)) := by
  intro q q' j
  have hlight : Light q := (light_new capacity).run hbefore
  have hlight' : Light q' := hlight.push b ⟨tier, rfl⟩ item
  obtain ⟨l, -, href, -⟩ := (refines_new (K := K) (T := T) capacity).run
    fun op hop => (hbefore op hop).positive
  obtain ⟨l', -, href'⟩ := href.push b tier.weight_pos item
  -- the accepted item is the last of `j + 1`
  have hpushed : Pushed q b tier.weight (b, item) q' := by
    rcases push_cases q b tier.weight (b, item) with ⟨-, he⟩ | ⟨-, q₁, he, hp⟩
    · rw [show q.push b tier.weight (b, item) = _ from he] at hok
      exact absurd hok (by simp)
    · show Pushed q b tier.weight (b, item) (q.push b tier.weight (b, item)).2
      rw [he]
      exact hp
  have hbacklog : q'.backlog b = q.backlog b ++ [(b, item)] := hpushed.backlog.1
  have hlen : (q'.backlog b).length = j + 1 := by
    rw [hbacklog, List.length_append, List.length_singleton]
  have hreturned : j + 1 ≤ q'.served ops b → (ofKey b (q'.popped ops))[j]? = some (b, item) := by
    intro hserved
    have hj : j < (q'.backlog b).length := by omega
    have hpopped := href'.getElem_popped (fun op hop => (hops op hop).positive) hj hserved
    rw [hpopped]
    show (q'.backlog b)[j]? = _
    rw [hbacklog]
    exact List.getElem?_concat_length
  constructor
  · intro tq n htq hn hpops
    apply hreturned
    rw [backlog_of_some htq] at hlen
    have hwaits := hlight'.waits_at htq hlen.ge (hn.start (Nat.succ_pos j))
    exact hwaits.served_le hops (fun _ => hn) hpops
  · intro htier hj hpops
    apply hreturned
    have hnil : q.backlog b = [] := List.length_eq_zero_iff.mp hj
    have hb : b ∉ q.active := fun hb => (hlight.wf.mem_active_iff b).mp hb hnil
    have hnone : q.queues b = none := by
      by_contra hne
      exact hb ((hlight.wf.keys b).mpr hne)
    obtain ⟨hentry, hactive⟩ := hpushed.joined hnone
    rw [htier] at hentry
    have hwaits := hlight'.waits_joined hentry hactive hb
    rw [hj]
    exact hwaits.served_le hops (fun h => absurd h (by omega)) hpops

/-- A paid tenant comes while a free one waits; another one comes later. -/
theorem bounded_wait_paid :
    let q : FairQueue ℕ (ℕ × ℕ) :=
      (new 9).run [.push 1 Tier.free.weight 7, .push 1 Tier.free.weight 8]
    (ofKey 0 ((q.push 0 Tier.paid.weight (0, 5)).2.popped
      [.pop, .push 2 Tier.paid.weight 9, .pop]))[0]? = some (0, 5) :=
  (bounded_wait (by simp) 0 .paid 5 rfl (by simp)).2 rfl rfl (by decide)

end FairQueue
end OxideGate
