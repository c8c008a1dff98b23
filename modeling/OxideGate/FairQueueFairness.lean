import OxideGate.FairQueueRuns
import OxideGate.Lib.Rotation
import OxideGate.TenantsTheorems

/-!
# Weighted fairness of `FairQueue`

Over a window in which tenant `b` never runs out of work, no other tenant `a` gets ahead of
`b` by more than a constant, however the tenants push, drain and rejoin.

The argument counts the credits `na` and `nb` that the two tenants receive in the window.
What a tenant is served is paid from its credits (`Ledger.paid_a`, `Ledger.paid_b`), and the
rotation hands out the credits fairly: `na ≤ nb + 1`, and even `na ≤ nb` while `a` is the one
whose next credit comes first (`CreditFirst`).
-/

namespace OxideGate
namespace FairQueue

open Rotation

variable {K T : Type} [DecidableEq K]

/-! ## One turn of the rotation -/

/-- A round of `pop` in which `key` is in front and `s` items are served (none or one): `key`
pays with its credit, and its turn goes on, ends at the back of the rotation, or ends because
nothing of it is left. -/
structure Turn (w : K → ℚ) (q q' : FairQueue K T) (key : K) (s : ℕ) : Prop where
  front : q.active.head? = some key
  spent : s + q'.deficit key ≤ q.deficit key + if q.turnStarted then 0 else w key
  kept : key ∈ q'.active →
    s + q'.deficit key = q.deficit key + if q.turnStarted then 0 else w key
  others : ∀ k, k ≠ key → q'.deficit k = q.deficit k
  order : q'.turnStarted = true ∧ q'.active = q.active ∨
    q'.turnStarted = false ∧ (q'.active = q.active.tail ++ [key] ∨ q'.active = q.active.tail)

theorem deficit_update_ne {q : FairQueue K T} {key k : K} (hk : k ≠ key)
    (v : Option (TenantQueue T)) (active : List K) (started : Bool) (len capacity : ℕ) :
    deficit ⟨Function.update q.queues key v, active, started, len, capacity⟩ k
      = q.deficit k := by
  simp only [deficit, Function.update_of_ne hk]

theorem deficit_update_self {q : FairQueue K T} {key : K} (tq : TenantQueue T)
    (active : List K) (started : Bool) (len capacity : ℕ) :
    deficit ⟨Function.update q.queues key (some tq), active, started, len, capacity⟩ key
      = tq.deficit := by
  simp only [deficit, Function.update_self]

omit [DecidableEq K] in
/-- The credit at the front: what was left, and the weight if the turn has just begun. -/
theorem credited_eq {q : FairQueue K T} {key : K} {tq : TenantQueue T}
    (htq : q.queues key = some tq) :
    q.credited tq = q.deficit key + if q.turnStarted then 0 else tq.weight := by
  rw [deficit_of_some htq]
  unfold credited
  split
  · rw [add_zero]
  · rfl

/-- The front tenant keeps its place in the map, and pays for the `s` items that it was served. -/
theorem turn_of_update {w : K → ℚ} {q : FairQueue K T} {key : K} {tq : TenantQueue T} {s : ℕ}
    {active : List K} {started : Bool} {len : ℕ} (hfront : q.active.head? = some key)
    (hspent : s + tq.deficit = q.deficit key + if q.turnStarted then 0 else w key)
    (horder : started = true ∧ active = q.active ∨
      started = false ∧ active = q.active.tail ++ [key]) :
    Turn w q ⟨Function.update q.queues key (some tq), active, started, len, q.capacity⟩ key s where
  front := hfront
  spent := by
    rw [deficit_update_self]
    exact hspent.le
  kept := fun _ => by
    rw [deficit_update_self]
    exact hspent
  others := fun k hk => deficit_update_ne hk _ _ _ _ _
  order := horder.imp_right fun h => ⟨h.1, Or.inl h.2⟩

/-- A round that passes is a turn without service. -/
theorem Visited.turn_next {w : K → ℚ} {q q' : FairQueue K (K × T)} (hl : Labelled w q)
    (hv : Visited q (.next q')) : ∃ key, Turn w q q' key 0 := by
  cases hv with
  | pass key rest tq hactive htq hd =>
    have hc := credited_eq htq
    rw [(hl key tq htq).1] at hc
    refine ⟨key, turn_of_update ?_ ?_ ?_⟩
    · rw [hactive, List.head?_cons]
    · rw [Nat.cast_zero, zero_add, hc]
    · exact Or.inr ⟨rfl, by rw [hactive, List.tail_cons]⟩

/-- A round that returns an item is a turn of the item's tenant. -/
theorem Visited.turn_ret {w : K → ℚ} {q q' : FairQueue K (K × T)} (h : q.WF)
    (hl : Labelled w q) {x : K × T} (hv : Visited q (.ret (some x) q')) : Turn w q q' x.1 1 := by
  have hfront : q.active.head? = some x.1 := (hl.visit.2 (some x) hv).2 x rfl
  -- what is left of the credit after one dispatch
  have hpay : ∀ (key : K) (rest : List K) (tq : TenantQueue (K × T)), q.active = key :: rest →
      q.queues key = some tq → x.1 = key ∧
        q.credited tq = q.deficit x.1 + if q.turnStarted then 0 else w x.1 := by
    intro key rest tq hactive htq
    rw [hactive, List.head?_cons, Option.some.injEq] at hfront
    refine ⟨hfront.symm, ?_⟩
    rw [← hfront, credited_eq htq, (hl key tq htq).1]
  cases hv with
  | drain key rest tq _ hactive htq hitems hd =>
    obtain ⟨rfl, hc⟩ := hpay key rest tq hactive htq
    have hgone : deficit { q with
        queues := Function.update q.queues x.1 none
        active := rest
        turnStarted := false
        len := q.len - 1 } x.1 = 0 := deficit_of_none (Function.update_self _ _ _)
    exact
      { front := hfront
        spent := by
          rw [hgone, ← hc, Nat.cast_one, add_zero]
          exact hd
        kept := fun hk => absurd hk (List.nodup_cons.mp (hactive ▸ h.nodup)).1
        others := fun k hk => deficit_update_ne hk _ _ _ _ _
        order := Or.inr ⟨rfl, Or.inr (by rw [hactive, List.tail_cons])⟩ }
  -- the credit is used up, and `key` goes to the back
  | rotate key rest tq _ items hactive htq hitems hne hd hlast =>
    obtain ⟨rfl, hc⟩ := hpay key rest tq hactive htq
    refine turn_of_update hfront ?_ (Or.inr ⟨rfl, by rw [hactive, List.tail_cons]⟩)
    rw [← hc, Nat.cast_one]
    ring
  | stay key rest tq _ items hactive htq hitems hne hmore =>
    obtain ⟨rfl, hc⟩ := hpay key rest tq hactive htq
    refine turn_of_update hfront ?_ (Or.inl ⟨rfl, rfl⟩)
    rw [← hc, Nat.cast_one]
    ring

/-! ## The ledger of two tenants -/

/-- Tenant `a`'s next credit comes before tenant `b`'s: `b` has the credit of its running
turn, or `a` is ahead of `b` and not the one whose turn is running. -/
def CreditFirst (a b : K) (q : FairQueue K T) : Prop :=
  (q.turnStarted = true ∧ q.active.head? = some b) ∨
    (Ahead a b q.active ∧ ¬ (q.turnStarted = true ∧ q.active.head? = some a))

/-- The ledger of a window: `Sa` and `Sb` items served, `na` and `nb` credits received, from
the deficits `da` and `db` at its start. -/
structure Ledger (w : K → ℚ) (a b : K) (da db : ℚ) (q : FairQueue K T) (Sa Sb na nb : ℕ) :
    Prop where
  paid_a : Sa + q.deficit a ≤ da + na * w a
  paid_b : Sb + q.deficit b = db + nb * w b
  le_succ : na ≤ nb + 1
  le : CreditFirst a b q → na ≤ nb

/-- The books are balanced when they are opened. -/
theorem ledger_start (w : K → ℚ) (a b : K) (q : FairQueue K T) :
    Ledger w a b (q.deficit a) (q.deficit b) q 0 0 0 0 where
  paid_a := by simp
  paid_b := by simp
  le_succ := by omega
  le := fun _ => by omega

/-- The credits that the tenant `x` has received after a turn of `key`. -/
def creditsAfter (q : FairQueue K T) (key x : K) (n : ℕ) : ℕ :=
  if key = x ∧ q.turnStarted = false then n + 1 else n

/-- One more credit for the key at the front when its turn begins. -/
theorem creditsAfter_self (q : FairQueue K T) (x : K) (n : ℕ) (w : ℚ) :
    (creditsAfter q x x n : ℚ) * w = n * w + if q.turnStarted then 0 else w := by
  unfold creditsAfter
  cases q.turnStarted
  · simp only [and_self, if_true, Bool.false_eq_true, if_false]
    push_cast
    ring
  · simp

/-- No credit for the others. -/
theorem creditsAfter_ne {q : FairQueue K T} {key x : K} (h : key ≠ x) (n : ℕ) :
    creditsAfter q key x n = n :=
  if_neg fun hk => h hk.1

/-- After a turn in which `b` stays in the rotation, `a` comes first only if `b` has had its
credit since, or `a` came first before and has had none since. -/
theorem Turn.creditFirst {w : K → ℚ} {a b : K} {q q' : FairQueue K T} (h : q.WF)
    {key : K} {s : ℕ} (ht : Turn w q q' key s) (hb : b ∈ q.active)
    (hcf : CreditFirst a b q') :
    (key = b ∧ (q.turnStarted = true → CreditFirst a b q)) ∨
      (key ≠ b ∧ CreditFirst a b q ∧ (key = a → q.turnStarted = true)) := by
  obtain ⟨rest, hactive⟩ : ∃ rest, q.active = key :: rest := by
    have hf := ht.front
    cases hq : q.active with
    | nil => simp [hq] at hf
    | cons c rest =>
      rw [hq, List.head?_cons, Option.some.injEq] at hf
      exact ⟨rest, by rw [hf]⟩
  by_cases hkb : key = b
  · refine Or.inl ⟨hkb, fun hs => Or.inl ⟨hs, ?_⟩⟩
    rw [ht.front, hkb]
  · refine Or.inr ⟨hkb, ?_⟩
    have hbr : b ∈ rest := by
      rw [hactive] at hb
      exact (List.mem_cons.mp hb).resolve_left (Ne.symm hkb)
    have hkr : key ∉ rest := (List.nodup_cons.mp (hactive ▸ h.nodup)).1
    rcases ht.order with ⟨hs', ho⟩ | ⟨hs', ho⟩
    · -- the turn goes on: `key`, in front, is neither `b` nor `a`
      rw [CreditFirst, hs', ho, ht.front] at hcf
      simp only [true_and, Option.some.injEq] at hcf
      obtain ⟨hahead, hka⟩ := hcf.resolve_left hkb
      refine ⟨Or.inr ⟨hahead, fun hs => hka ?_⟩, fun e => absurd e hka⟩
      rw [ht.front, Option.some.injEq] at hs
      exact hs.2
    · -- the turn is over: `a` is ahead of `b` among those behind `key`
      have hahead : Ahead a b rest := by
        rw [CreditFirst, hs'] at hcf
        simp only [Bool.false_eq_true, false_and, false_or, not_false_eq_true, and_true] at hcf
        rcases ho with ho | ho
        · rw [ho, hactive, List.tail_cons, ahead_append hbr] at hcf
          exact hcf
        · rw [ho, hactive, List.tail_cons] at hcf
          exact hcf
      have hka : key ≠ a := fun e => hkr (e ▸ hahead.mem)
      refine ⟨Or.inr ⟨?_, fun hs => hka ?_⟩, fun e => absurd e hka⟩
      · rw [hactive, ahead_cons hkb]
        exact Or.inr hahead
      · rw [ht.front, Option.some.injEq] at hs
        exact hs.2

/-- The front tenant `a` whose turn is about to start gets its credit first. -/
theorem Turn.creditFirst_front {w : K → ℚ} {a b : K} {q q' : FairQueue K T} {key : K} {s : ℕ}
    (ht : Turn w q q' key s) (hkey : key = a) (hs : q.turnStarted = false) (hb : b ∈ q.active)
    (hab : a ≠ b) : CreditFirst a b q := by
  have hf := ht.front
  refine Or.inr ⟨?_, fun hs' => absurd hs'.1 (by simp [hs])⟩
  cases hq : q.active with
  | nil => simp [hq] at hb
  | cons c rest =>
    rw [hq, List.head?_cons, Option.some.injEq, hkey] at hf
    rw [hf, ahead_cons hab]
    exact Or.inl rfl

/-- One turn keeps the ledger. -/
theorem Ledger.turn {w : K → ℚ} {a b : K} (hab : a ≠ b) {da db : ℚ} {q q' : FairQueue K T}
    (h : q.WF) {Sa Sb na nb : ℕ} (hl : Ledger w a b da db q Sa Sb na nb) {key : K} {s : ℕ}
    (ht : Turn w q q' key s) (hb : b ∈ q.active) (hb' : b ∈ q'.active) :
    Ledger w a b da db q' (Sa + if key = a then s else 0) (Sb + if key = b then s else 0)
      (creditsAfter q key a na) (creditsAfter q key b nb) := by
  have hna : key = a → q.turnStarted = false → na ≤ nb := fun hk hs =>
    hl.le (ht.creditFirst_front hk hs hb hab)
  exact
    { paid_a := by
        have hpaid := hl.paid_a
        by_cases hk : key = a
        · subst hk
          have hspent := ht.spent
          rw [creditsAfter_self, if_pos rfl]
          push_cast
          linarith
        · rw [creditsAfter_ne hk, if_neg hk, ht.others a (Ne.symm hk), add_zero]
          exact hpaid
      -- `b` stays in the rotation, so it forfeits nothing
      paid_b := by
        have hpaid := hl.paid_b
        by_cases hk : key = b
        · subst hk
          have hspent := ht.kept hb'
          rw [creditsAfter_self, if_pos rfl]
          push_cast
          linarith
        · rw [creditsAfter_ne hk, if_neg hk, ht.others b (Ne.symm hk), add_zero]
          exact hpaid
      le_succ := by
        have hle := hl.le_succ
        unfold creditsAfter
        by_cases hk : key = a ∧ q.turnStarted = false
        · -- a new credit for `a`, whose turn it was before `b`'s
          have := hna hk.1 hk.2
          rw [if_pos hk]
          split <;> omega
        · rw [if_neg hk]
          split <;> omega
      le := by
        intro hcf
        have hle := hl.le_succ
        rcases ht.creditFirst h hb hcf with ⟨hk, hprev⟩ | ⟨hk, hprev, hka⟩
        · have hne : key ≠ a := fun e => hab (e.symm.trans hk)
          rw [creditsAfter_ne hne]
          cases hs : q.turnStarted
          · rw [creditsAfter, if_pos ⟨hk, hs⟩]
            exact hle
          · rw [creditsAfter, hs, if_neg (by simp)]
            exact hl.le (hprev hs)
        · have hsame : creditsAfter q key a na = na := if_neg fun hc => by
            rw [hka hc.1] at hc
            exact absurd hc.2 (by simp)
          rw [creditsAfter_ne hk, hsame]
          exact hl.le hprev }

/-! ## The ledger over a window -/

/-- A push gives no credit. -/
theorem Pushed.deficit {q q' : FairQueue K T} {key : K} {weight : ℚ} {item : T}
    (hp : Pushed q key weight item q') (k : K) : q'.deficit k = q.deficit k := by
  cases hp with
  | grow tq htq =>
    by_cases hk : k = key
    · rw [hk, deficit_update_self, deficit_of_some htq]
    · exact deficit_update_ne hk _ _ _ _ _
  | join hnone =>
    by_cases hk : k = key
    · rw [hk, deficit_update_self, deficit_of_none hnone]
    · exact deficit_update_ne hk _ _ _ _ _

/-- `push` gives no credit and moves nobody forward. -/
theorem Ledger.push {w : K → ℚ} {a b : K} {da db : ℚ} {q : FairQueue K T}
    {Sa Sb na nb : ℕ} (hl : Ledger w a b da db q Sa Sb na nb) (hb : b ∈ q.active) (key : K)
    (weight : ℚ) (item : T) :
    b ∈ (q.push key weight item).2.active ∧
      Ledger w a b da db (q.push key weight item).2 Sa Sb na nb := by
  rcases push_cases q key weight item with ⟨-, he⟩ | ⟨-, q', he, hp⟩
  · rw [he]
    exact ⟨hb, hl⟩
  · rw [he]
    have horder : b ∈ q'.active ∧ (CreditFirst a b q' → CreditFirst a b q) := by
      cases hp with
      | grow tq htq => exact ⟨hb, id⟩
      | join hnone =>
        -- whoever joins does so behind `b`
        refine ⟨List.mem_append_left _ hb, fun hcf => ?_⟩
        obtain ⟨c, rest, hc⟩ := List.exists_cons_of_ne_nil (List.ne_nil_of_mem hb)
        simp only [CreditFirst, ahead_append hb] at hcf
        rw [hc, List.cons_append, List.head?_cons] at hcf
        rw [CreditFirst, hc, List.head?_cons]
        exact hcf
    refine ⟨horder.1, ?_⟩
    exact
      { paid_a := by
          rw [hp.deficit]
          exact hl.paid_a
        paid_b := by
          rw [hp.deficit]
          exact hl.paid_b
        le_succ := hl.le_succ
        le := fun hcf => hl.le (horder.2 hcf) }

/-- The items of tenant `x` among the one that a call may return. -/
abbrev countOf (x : K) (r : Option (K × T)) : ℕ := r.toList.countP fun p => p.1 = x

theorem countOf_some (x : K) (r : K × T) : countOf x (some r) = if r.1 = x then 1 else 0 := by
  by_cases h : r.1 = x <;> simp [countOf, h]

/-- The ledger holds with some number of credits. -/
def Balanced (w : K → ℚ) (a b : K) (da db : ℚ) (q : FairQueue K T) (Sa Sb : ℕ) : Prop :=
  ∃ na nb, Ledger w a b da db q Sa Sb na nb

/-- A `pop` before and after which `b` is active keeps the books balanced. -/
theorem Balanced.pop {w : K → ℚ} {a b : K} (hab : a ≠ b) {da db : ℚ}
    {q : FairQueue K (K × T)} (h : Reached w q) {Sa Sb : ℕ}
    (hl : Balanced w a b da db q Sa Sb) (hb : b ∈ q.active) (hb' : b ∈ q.pop.2.active) :
    Balanced w a b da db q.pop.2 (Sa + countOf a q.pop.1) (Sb + countOf b q.pop.1) := by
  refine pop_rule
    (P := fun q => Labelled w q ∧ b ∈ q.active ∧ Balanced w a b da db q Sa Sb)
    (Q := fun r q' => b ∈ q'.active →
      Balanced w a b da db q' (Sa + countOf a r) (Sb + countOf b r))
    ?_ ?_ h.wf ⟨h.labelled, hb, hl⟩ hb'
  · intro q q' hwf hp hv
    obtain ⟨hlab, hb, na, nb, hl⟩ := hp
    obtain ⟨key, ht⟩ := hv.turn_next hlab
    have hb' : b ∈ q'.active := by
      cases hv with
      | pass key rest tq hactive htq hd =>
        rw [hactive] at hb
        have hperm : ([key] ++ rest).Perm (rest ++ [key]) := List.perm_append_comm
        exact hperm.subset hb
    have hl' := hl.turn hab hwf ht hb hb'
    simp only [ite_self, add_zero] at hl'
    exact ⟨hlab.visit.1 hv, hb', _, _, hl'⟩
  · intro q r q' hwf hp hv hb'
    obtain ⟨hlab, hb, na, nb, hl⟩ := hp
    -- an item that is returned is the front tenant's, which pays for it
    cases r with
    | none =>
      cases hv with
      | idle hactive => exact ⟨na, nb, hl⟩
    | some x =>
      rw [countOf_some, countOf_some]
      exact ⟨_, _, hl.turn hab hwf (hv.turn_ret hwf hlab) hb hb'⟩

/-- So does any call. -/
theorem Balanced.apply {w : K → ℚ} {a b : K} (hab : a ≠ b) {da db : ℚ}
    {q : FairQueue K (K × T)} (h : Reached w q) {Sa Sb : ℕ}
    (hl : Balanced w a b da db q Sa Sb) (op : Op K T) (hb : b ∈ q.active)
    (hb' : b ∈ (q.apply op).2.active) :
    Balanced w a b da db (q.apply op).2 (Sa + countOf a (q.apply op).1)
      (Sb + countOf b (q.apply op).1) := by
  cases op with
  | push key weight item =>
    obtain ⟨na, nb, hl⟩ := hl
    exact ⟨na, nb, (hl.push hb key weight (key, item)).2⟩
  | pop => exact hl.pop hab h hb hb'

/-- `b` has something queued before, between and after the calls of `ops`. -/
def Stays (b : K) (q : FairQueue K (K × T)) (ops : List (Op K T)) : Prop :=
  ∀ i ≤ ops.length, (q.run (ops.take i)).backlog b ≠ []

theorem stays_cons {b : K} {q : FairQueue K (K × T)} {op : Op K T} {ops : List (Op K T)} :
    Stays b q (op :: ops) ↔ q.backlog b ≠ [] ∧ Stays b (q.apply op).2 ops := by
  constructor
  · intro h
    refine ⟨h 0 (Nat.zero_le _), fun i hi => ?_⟩
    exact h (i + 1) (Nat.succ_le_succ hi)
  · intro h i hi
    cases i with
    | zero => exact h.1
    | succ i => exact h.2 i (Nat.le_of_succ_le_succ hi)

/-- Something of `b` is queued to begin with. -/
theorem Stays.start {b : K} {q : FairQueue K (K × T)} {ops : List (Op K T)}
    (h : Stays b q ops) : q.backlog b ≠ [] :=
  h 0 (Nat.zero_le _)

/-- Over a run in which `b` stays the books stay balanced. -/
theorem Balanced.run {w : K → ℚ} (hw : ∀ k, 0 < w k) {a b : K} (hab : a ≠ b) {da db : ℚ}
    {ops : List (Op K T)} {q : FairQueue K (K × T)} (h : Reached w q)
    (hops : ∀ op ∈ ops, op.Follows w) {Sa Sb : ℕ} (hl : Balanced w a b da db q Sa Sb)
    (hb : Stays b q ops) :
    Balanced w a b da db (q.run ops) (Sa + q.served ops a) (Sb + q.served ops b) := by
  induction ops generalizing q Sa Sb with
  | nil => exact hl
  | cons op ops ih =>
    obtain ⟨hb, hrest⟩ := stays_cons.mp hb
    have hop := hops op List.mem_cons_self
    have hstep := hl.apply hab h op ((h.wf.mem_active_iff b).mpr hb)
      (((h.apply hw hop).wf.mem_active_iff b).mpr hrest.start)
    rw [served_cons, served_cons, ← Nat.add_assoc, ← Nat.add_assoc]
    exact ih (h.apply hw hop) (fun o ho => hops o (List.mem_cons_of_mem op ho)) hstep hrest

/-- What the ledger says about the lead of `a` over `b`. -/
theorem Balanced.lead_le {w : K → ℚ} (hw : ∀ k, 0 < w k) {a b : K} {da db : ℚ}
    {q : FairQueue K T} (h : q.WF) {Sa Sb : ℕ} (hl : Balanced w a b da db q Sa Sb) :
    Sa / w a - Sb / w b ≤ 1 + da / w a - db / w b + q.deficit b / w b := by
  obtain ⟨na, nb, hl⟩ := hl
  have ha := hw a
  have hb := hw b
  have hpaid_a : (Sa : ℚ) / w a ≤ da / w a + na := by
    rw [div_le_iff₀ ha, add_mul, div_mul_cancel₀ _ ha.ne']
    linarith [hl.paid_a, h.deficit_nonneg a]
  have hpaid_b : (Sb : ℚ) / w b = db / w b + nb - q.deficit b / w b := by
    rw [eq_sub_iff_add_eq, ← add_div, hl.paid_b, add_div, mul_div_cancel_right₀ _ hb.ne']
  have hle : (na : ℚ) ≤ nb + 1 := by exact_mod_cast hl.le_succ
  rw [hpaid_b]
  linarith

/-! ## Credit left over at the ends of a window -/

omit [DecidableEq K] in
/-- Nothing is left to a key that is not active. -/
theorem WF.deficit_of_notMem {q : FairQueue K T} (h : q.WF) {k : K} (hk : k ∉ q.active) :
    q.deficit k = 0 :=
  deficit_of_none (not_not.mp fun hne => hk ((h.keys k).mpr hne))

omit [DecidableEq K] in
/-- Unspent credit is less than one dispatch or less than one credit. -/
theorem Reached.deficit_lt {w : K → ℚ} {q : FairQueue K (K × T)} (h : Reached w q) (k : K) :
    q.deficit k < 1 ∨ q.deficit k < w k := by
  cases htq : q.queues k with
  | none =>
    rw [deficit_of_none htq]
    exact Or.inl one_pos
  | some tq =>
    rw [deficit_of_some htq, ← (h.labelled k tq htq).1]
    by_cases hs : q.turnStarted = true ∧ q.active.head? = some k
    · exact Or.inr (h.wf.serving k tq htq hs.1 hs.2).2
    · exact Or.inl (h.wf.resting k tq htq hs).2

omit [DecidableEq K] in
/-- In turns, what is left to a key is less than one turn or one item. -/
theorem Reached.deficit_div_lt {w : K → ℚ} (hw : ∀ k, 0 < w k) {q : FairQueue K (K × T)}
    (h : Reached w q) (k : K) : q.deficit k / w k < max 1 (1 / w k) := by
  rcases h.deficit_lt k with hlt | hlt
  · exact lt_max_of_lt_right (div_lt_div_of_pos_right hlt (hw k))
  · exact lt_max_of_lt_left ((div_lt_one (hw k)).mpr hlt)

/-- Credit of the tenant `x` comes in whole multiples of its weight. -/
def Granular (w : K → ℚ) (x : K) (q : FairQueue K T) : Prop := ∃ n : ℤ, q.deficit x = n * w x

/-- A turn keeps credit in multiples of a weight that divides one dispatch. -/
theorem Granular.turn {w : K → ℚ} {x : K} {m : ℕ} (hm : m * w x = 1) {q q' : FairQueue K T}
    (h' : q'.WF) (hg : Granular w x q) {key : K} {s : ℕ} (ht : Turn w q q' key s) :
    Granular w x q' := by
  obtain ⟨n, hn⟩ := hg
  by_cases hx : x = key
  · subst hx
    by_cases hmem : x ∈ q'.active
    · have hkept := ht.kept hmem
      refine ⟨n + (if q.turnStarted then 0 else 1) - s * m, ?_⟩
      have hs : (s : ℚ) = s * m * w x := by rw [mul_assoc, hm, mul_one]
      cases hq : q.turnStarted
      · rw [hq, if_neg (by simp), hn] at hkept
        simp only [Bool.false_eq_true, if_false]
        push_cast
        linarith
      · rw [hq, if_pos rfl, hn] at hkept
        simp only [if_true]
        push_cast
        linarith
    · -- it has left the rotation and forfeited its credit
      exact ⟨0, by rw [h'.deficit_of_notMem hmem, Int.cast_zero, zero_mul]⟩
  · exact ⟨n, by rw [ht.others x hx, hn]⟩

/-- With a weight of one part in `m` the credit stays a multiple of it. -/
theorem Granular.apply {w : K → ℚ} {x : K} {m : ℕ} (hm : m * w x = 1)
    {q : FairQueue K (K × T)} (h : Reached w q) (hg : Granular w x q) (op : Op K T) :
    Granular w x (q.apply op).2 := by
  cases op with
  | push key weight item =>
    have hsame : (q.push key weight (key, item)).2.deficit x = q.deficit x := by
      rcases push_cases q key weight (key, item) with ⟨-, he⟩ | ⟨-, q', he, hp⟩
      · rw [he]
      · rw [he, hp.deficit]
    obtain ⟨n, hn⟩ := hg
    exact ⟨n, hsame.trans hn⟩
  | pop =>
    refine pop_rule (P := fun q => Labelled w q ∧ Granular w x q)
      (Q := fun _ q' => Granular w x q') ?_ ?_ h.wf ⟨h.labelled, hg⟩
    · intro q q' hwf hp hv
      obtain ⟨key, ht⟩ := hv.turn_next hp.1
      exact ⟨hp.1.visit.1 hv, hp.2.turn hm (hv.wf_next hwf) ht⟩
    · intro q r q' hwf hp hv
      cases r with
      | none =>
        cases hv with
        | idle hactive => exact hp.2
      | some y => exact hp.2.turn hm (hv.wf hwf) (hv.turn_ret hwf hp.1)

/-- Over a whole run too. -/
theorem Granular.run {w : K → ℚ} (hw : ∀ k, 0 < w k) {x : K} {m : ℕ} (hm : m * w x = 1)
    {ops : List (Op K T)} {q : FairQueue K (K × T)} (h : Reached w q) (hg : Granular w x q)
    (hops : ∀ op ∈ ops, op.Follows w) : Granular w x (q.run ops) := by
  induction ops generalizing q with
  | nil => exact hg
  | cons op ops ih =>
    exact ih (h.apply hw (hops op List.mem_cons_self)) (hg.apply hm h op)
      fun o ho => hops o (List.mem_cons_of_mem op ho)

omit [DecidableEq K] in
/-- A tenant whose weight divides one dispatch never keeps more than `1 - w` of credit. -/
theorem Reached.deficit_le {w : K → ℚ} {q : FairQueue K (K × T)} (h : Reached w q) {x : K}
    {m : ℕ} (hm : m * w x = 1) (hwx : 0 < w x) (hg : Granular w x q) :
    q.deficit x ≤ 1 - w x := by
  obtain ⟨n, hn⟩ := hg
  have hle : w x ≤ 1 := by
    have hone : (1 : ℚ) ≤ m := by
      have hpos : 0 < m := by
        by_contra hm0
        rw [Nat.eq_zero_of_not_pos hm0] at hm
        simp at hm
      exact_mod_cast hpos
    calc w x = 1 * w x := (one_mul _).symm
      _ ≤ m * w x := mul_le_mul_of_nonneg_right hone hwx.le
      _ = 1 := hm
  -- a multiple of `w x` below 1 is at most the one before it
  have hlt : q.deficit x < 1 := (h.deficit_lt x).elim id fun hlt => lt_of_lt_of_le hlt hle
  rw [hn, ← hm] at hlt
  have hnm : n < m := by exact_mod_cast lt_of_mul_lt_mul_right hlt hwx.le
  have hnm' : (n : ℚ) ≤ m - 1 := by exact_mod_cast Int.le_sub_one_of_lt hnm
  calc q.deficit x = n * w x := hn
    _ ≤ (m - 1) * w x := mul_le_mul_of_nonneg_right hnm' hwx.le
    _ = 1 - w x := by rw [sub_mul, hm, one_mul]

/-! ## Windows in which `b` is backlogged -/

/-- `b` has something queued in every state between the calls of the window. -/
def Backlogged (b : K) (q : FairQueue K (K × T)) (window : List (Op K T)) : Prop :=
  ∀ i < window.length, 0 < i → (q.run (window.take i)).backlog b ≠ []

instance (b : K) (q : FairQueue K (K × T)) (window : List (Op K T)) :
    Decidable (Backlogged b q window) :=
  inferInstanceAs (Decidable (∀ i < window.length, 0 < i → (q.run (window.take i)).backlog b ≠ []))

/-- How far `a` gets ahead of `b` in the window, in turns of their weights. -/
def lead (w : K → ℚ) (q : FairQueue K (K × T)) (window : List (Op K T)) (a b : K) : ℚ :=
  q.served window a / w a - q.served window b / w b

omit [DecidableEq K] in
/-- The active keys are those with something queued. -/
theorem Reached.mem_active_iff {w : K → ℚ} {q : FairQueue K (K × T)} (h : Reached w q) (k : K) :
    k ∈ q.active ↔ ∃ x ∈ q.contents, x.1 = k := by
  have hlab : ∀ k, ∀ x ∈ q.backlog k, x.1 = k := by
    intro k x hx
    cases htq : q.queues k with
    | none => simp [backlog, htq] at hx
    | some tq => exact (h.labelled k tq htq).2 x (by rwa [backlog_of_some htq] at hx)
  constructor
  · intro hk
    obtain ⟨x, hx⟩ := List.exists_mem_of_ne_nil _ ((h.wf.mem_active_iff k).mp hk)
    exact ⟨x, List.mem_flatMap.mpr ⟨k, hk, hx⟩, hlab k x hx⟩
  · intro hk
    obtain ⟨x, hx, rfl⟩ := hk
    obtain ⟨k, hk, hxk⟩ := List.mem_flatMap.mp hx
    rw [hlab k x hxk]
    exact hk

/-- A call after which `b` is newly waiting returns nothing: it is a `push`. -/
theorem Reached.enters {w : K → ℚ} (hw : ∀ k, 0 < w k) {q : FairQueue K (K × T)}
    (h : Reached w q) {op : Op K T} (hop : op.Follows w) {b : K} (hb : b ∉ q.active)
    (hb' : b ∈ (q.apply op).2.active) : (q.apply op).1 = none := by
  have h' := h.apply hw hop
  cases op with
  | push key weight item => rfl
  | pop =>
    have hperm := pop_perm h.wf
    show q.pop.1 = none
    cases hr : q.pop.1 with
    | none => rfl
    | some x =>
      rw [hr] at hperm
      -- what is left after a pop was there before
      obtain ⟨y, hy, hyb⟩ := (h'.mem_active_iff b).mp hb'
      have hmem := (h.mem_active_iff b).mpr ⟨y, hperm.symm.subset (List.mem_cons_of_mem x hy), hyb⟩
      exact absurd hmem hb

/-- A call after which `b` is no longer waiting pops an item of `b`. -/
theorem Reached.leaves {w : K → ℚ} (hw : ∀ k, 0 < w k) {q : FairQueue K (K × T)}
    (h : Reached w q) {op : Op K T} (hop : op.Follows w) {b : K} (hb : b ∈ q.active)
    (hb' : b ∉ (q.apply op).2.active) : ∃ x, (q.apply op).1 = some x ∧ x.1 = b := by
  have h' := h.apply hw hop
  obtain ⟨y, hy, hyb⟩ := (h.mem_active_iff b).mp hb
  have hgone : y ∉ (q.apply op).2.contents := fun hy' =>
    hb' ((h'.mem_active_iff b).mpr ⟨y, hy', hyb⟩)
  cases op with
  | push key weight item =>
    have hsub : y ∈ (q.push key weight (key, item)).2.contents := by
      rcases push_cases q key weight (key, item) with ⟨-, he⟩ | ⟨-, q', he, hp⟩
      · rw [he]
        exact hy
      · rw [he]
        exact (hp.perm h.wf).symm.subset (List.mem_cons_of_mem _ hy)
    exact absurd hsub hgone
  | pop =>
    have hperm := pop_perm h.wf
    show ∃ x, q.pop.1 = some x ∧ x.1 = b
    cases hr : q.pop.1 with
    | none =>
      rw [hr] at hperm
      rw [hperm.1] at hy
      exact absurd hy List.not_mem_nil
    | some x =>
      rw [hr] at hperm
      have hyx : y = x := (List.mem_cons.mp (hperm.subset hy)).resolve_right hgone
      exact ⟨x, rfl, by rw [← hyx, hyb]⟩

theorem served_singleton (q : FairQueue K (K × T)) (op : Op K T) (x : K) :
    q.served [op] x = countOf x (q.apply op).1 := by
  rw [served_cons]
  rfl

/-- One call serves a tenant at most once. -/
theorem served_singleton_le (q : FairQueue K (K × T)) (op : Op K T) (x : K) :
    q.served [op] x ≤ 1 := by
  rw [served_singleton]
  cases hr : (q.apply op).1 with
  | none => simp [countOf]
  | some y =>
    rw [countOf_some]
    split <;> omega

/-- The first call of a window may be the one that makes `b` wait and the last one the one
that takes its last item. Neither serves `a`, and without them `b` waits throughout. -/
theorem Backlogged.trim {w : K → ℚ} (hw : ∀ k, 0 < w k) {q : FairQueue K (K × T)}
    (h : Reached w q) {a b : K} (hab : a ≠ b) {window : List (Op K T)}
    (hops : ∀ op ∈ window, op.Follows w) (hb : Backlogged b q window)
    (hlen : 2 ≤ window.length) :
    ∃ before mid after, window = before ++ mid ++ after ∧ Stays b (q.run before) mid ∧
      q.served before a = 0 ∧ (q.run (before ++ mid)).served after a = 0 := by
  have hreach : ∀ i, Reached w (q.run (window.take i)) := fun i =>
    h.run hw fun op ho => hops op (List.mem_of_mem_take ho)
  -- the calls before `b` waits
  obtain ⟨before, rest, hsplit, hrest, hstays, hnone⟩ : ∃ before rest, window = before ++ rest ∧
      rest ≠ [] ∧ (∀ i < rest.length, ((q.run before).run (rest.take i)).backlog b ≠ []) ∧
      q.served before a = 0 := by
    by_cases hq : q.backlog b = []
    · match window, hlen with
      | op :: rest, hlen =>
        have hone := hb 1 (by omega) Nat.one_pos
        refine ⟨[op], rest, rfl, ?_, ?_, ?_⟩
        · intro hnil
          rw [hnil] at hlen
          simp at hlen
        · intro i hi
          exact hb (i + 1) (Nat.succ_lt_succ hi) (Nat.succ_pos i)
        · have hin := (((hreach 1).wf.mem_active_iff b).mpr hone)
          have hout : b ∉ q.active := fun hm => (h.wf.mem_active_iff b).mp hm hq
          rw [served_singleton,
            h.enters hw (hops op List.mem_cons_self) hout hin]
          rfl
    · refine ⟨[], window, rfl, fun hnil => by simp [hnil] at hlen, ?_, rfl⟩
      intro i hi
      rcases Nat.eq_zero_or_pos i with rfl | hpos
      · exact hq
      · exact hb i hi hpos
  -- the call after which `b` no longer waits
  obtain ⟨mid, op, rfl⟩ := List.eq_nil_or_concat'  rest |>.resolve_left hrest
  have hmid : Stays b (q.run before) mid := by
    intro i hi
    have := hstays i (by rw [List.length_append, List.length_singleton]; omega)
    rwa [List.take_append_of_le_length hi] at this
  by_cases hend : ((q.run before).run (mid ++ [op])).backlog b = []
  · refine ⟨before, mid, [op], by rw [hsplit, List.append_assoc], hmid, hnone, ?_⟩
    have hr : Reached w (q.run (before ++ mid)) := h.run hw fun o ho =>
      hops o (by rw [hsplit, ← List.append_assoc]; exact List.mem_append_left _ ho)
    have hop : op.Follows w := hops op (by simp [hsplit])
    have hlast := hmid mid.length le_rfl
    rw [List.take_length, ← run_append] at hlast
    rw [← run_append, ← List.append_assoc, run_append] at hend
    obtain ⟨x, hx, hxb⟩ := hr.leaves hw hop ((hr.wf.mem_active_iff b).mpr hlast)
      fun hm => ((hr.apply hw hop).wf.mem_active_iff b).mp hm hend
    rw [served_singleton, hx, countOf_some, if_neg fun e => hab (e.symm.trans hxb)]
  · refine ⟨before, mid ++ [op], [], by rw [hsplit, List.append_nil], ?_, hnone, rfl⟩
    intro i hi
    rw [List.length_append, List.length_singleton] at hi
    rcases Nat.lt_or_ge i (mid.length + 1) with hlt | hge
    · exact hstays i (by rw [List.length_append, List.length_singleton]; exact hlt)
    · have hall : (mid ++ [op]).take i = mid ++ [op] := by
        rw [List.take_of_length_le]
        rw [List.length_append, List.length_singleton]
        omega
      rw [hall]
      exact hend

/-- The lead in a window is one dispatch at most, or it is the lead in a part of the window in
which `b` waits throughout. -/
theorem Backlogged.lead_cases {w : K → ℚ} (hw : ∀ k, 0 < w k) {q : FairQueue K (K × T)}
    (h : Reached w q) {a b : K} (hab : a ≠ b) {window : List (Op K T)}
    (hops : ∀ op ∈ window, op.Follows w) (hb : Backlogged b q window) :
    lead w q window a b ≤ 1 / w a ∨ ∃ before mid, (∀ op ∈ before ++ mid, op.Follows w) ∧
      Stays b (q.run before) mid ∧ lead w q window a b ≤ lead w (q.run before) mid a b := by
  have hwa := hw a
  have hwb := hw b
  rcases Nat.lt_or_ge window.length 2 with hlen | hlen
  · left
    have hle : q.served window a ≤ 1 := by
      match window, hlen with
      | [], _ => exact Nat.zero_le _
      | [op], _ => exact served_singleton_le q op a
    have hle' : (q.served window a : ℚ) ≤ 1 := by exact_mod_cast hle
    have hpos : 0 ≤ (q.served window b : ℚ) / w b := by positivity
    unfold lead
    have := div_le_div_of_nonneg_right hle' hwa.le
    linarith
  · right
    obtain ⟨before, mid, after, rfl, hstays, hbefore, hafter⟩ := hb.trim hw h hab hops hlen
    refine ⟨before, mid, fun op ho => hops op (List.mem_append_left _ ho), hstays, ?_⟩
    have hle : (q.run before).served mid b ≤ q.served (before ++ mid ++ after) b := by
      rw [served_append, served_append]
      omega
    have hle' : ((q.run before).served mid b : ℚ) ≤ q.served (before ++ mid ++ after) b := by
      exact_mod_cast hle
    have hsame : q.served (before ++ mid ++ after) a = (q.run before).served mid a := by
      rw [served_append, served_append, hbefore, hafter]
      omega
    unfold lead
    rw [hsame]
    have := div_le_div_of_nonneg_right hle' hwb.le
    linarith

/-- The lead in a window in which `b` waits throughout, from the ledger. -/
theorem Stays.lead_le {w : K → ℚ} (hw : ∀ k, 0 < w k) {q : FairQueue K (K × T)}
    (h : Reached w q) {a b : K} (hab : a ≠ b) {ops : List (Op K T)}
    (hops : ∀ op ∈ ops, op.Follows w) (hb : Stays b q ops) :
    lead w q ops a b
      ≤ 1 + q.deficit a / w a - q.deficit b / w b + (q.run ops).deficit b / w b := by
  have hl : Balanced w a b (q.deficit a) (q.deficit b) q 0 0 := ⟨0, 0, ledger_start w a b q⟩
  have hend := (hl.run hw hab h hops hb).lead_le hw (h.run hw hops).wf
  rw [Nat.zero_add, Nat.zero_add] at hend
  exact hend

/-- Whatever the weights, the lead is bounded by the weights alone. -/
theorem Backlogged.lead_lt {w : K → ℚ} (hw : ∀ k, 0 < w k) {q : FairQueue K (K × T)}
    (h : Reached w q) {a b : K} (hab : a ≠ b) {window : List (Op K T)}
    (hops : ∀ op ∈ window, op.Follows w) (hb : Backlogged b q window) :
    lead w q window a b < 1 + max 1 (1 / w a) + max 1 (1 / w b) := by
  have hma : 1 / w a ≤ max 1 (1 / w a) := le_max_right _ _
  have hmb : (1 : ℚ) ≤ max 1 (1 / w b) := le_max_left _ _
  rcases hb.lead_cases hw h hab hops with hle | ⟨before, mid, hops', hstays, hle⟩
  · linarith
  · have hr : Reached w (q.run before) :=
      h.run hw fun op ho => hops' op (List.mem_append_left _ ho)
    have hmid : ∀ op ∈ mid, op.Follows w := fun op ho => hops' op (List.mem_append_right _ ho)
    have hda := hr.deficit_div_lt hw a
    have hdb := (hr.run hw hmid).deficit_div_lt hw b
    have hdb0 : 0 ≤ (q.run before).deficit b / w b :=
      div_nonneg (hr.wf.deficit_nonneg b) (hw b).le
    have := hstays.lead_le hw hr hab hmid
    linarith

/-! ## Tier weights -/

/-- Two free tenants: their dispatches are whole, so a bound of 3 is one of 2. -/
theorem two_mul_sub_le {m n : ℕ} (h : (m : ℚ) / (1 / 2) - n / (1 / 2) ≤ 3) :
    (m : ℚ) / (1 / 2) - n / (1 / 2) ≤ 2 := by
  have h3 : (2 * m : ℚ) ≤ 3 + 2 * n := by linarith
  have h3' : 2 * m ≤ 3 + 2 * n := by exact_mod_cast h3
  have h1 : m ≤ n + 1 := by omega
  have h1' : (m : ℚ) ≤ n + 1 := by exact_mod_cast h1
  linarith

/-- With tier weights the lead is at most two turns. -/
theorem Backlogged.lead_le_two {w : K → ℚ} (htier : ∀ k, ∃ t : Tier, w k = t.weight)
    {q : FairQueue K (K × T)} (h : Reached w q) (hg : ∀ k, Granular w k q) {a b : K}
    (hab : a ≠ b) {window : List (Op K T)} (hops : ∀ op ∈ window, op.Follows w)
    (hb : Backlogged b q window) : lead w q window a b ≤ 2 := by
  have hw : ∀ k, 0 < w k := by
    intro k
    obtain ⟨t, ht⟩ := htier k
    rw [ht]
    exact Tier.weight_pos t
  have hdiv : ∀ k, ∃ m : ℕ, m * w k = 1 := by
    intro k
    obtain ⟨t, ht⟩ := htier k
    rw [ht]
    exact Tier.exists_mul_weight t
  obtain ⟨ta, hta⟩ := htier a
  obtain ⟨tb, htb⟩ := htier b
  rcases hb.lead_cases hw h hab hops with hle | ⟨before, mid, hops', hstays, hle⟩
  · refine hle.trans ?_
    rw [hta]
    cases ta <;> norm_num [Tier.weight]
  · refine hle.trans ?_
    have hbefore : ∀ op ∈ before, op.Follows w := fun op ho =>
      hops' op (List.mem_append_left _ ho)
    have hmid : ∀ op ∈ mid, op.Follows w := fun op ho => hops' op (List.mem_append_right _ ho)
    have hr := h.run hw hbefore
    obtain ⟨ma, hma⟩ := hdiv a
    obtain ⟨mb, hmb⟩ := hdiv b
    have hga := (hg a).run hw hma h hbefore
    have hgb := ((hg b).run hw hmb h hbefore).run hw hmb hr hmid
    have hda := hr.deficit_le hma (hw a) hga
    have hdb := (hr.run hw hmid).deficit_le hmb (hw b) hgb
    have hdb0 := hr.wf.deficit_nonneg b
    have hlead := hstays.lead_le hw hr hab hmid
    unfold lead at hlead ⊢
    rw [hta] at hda hlead ⊢
    rw [htb] at hdb hlead ⊢
    cases ta <;> cases tb <;> simp only [Tier.weight, div_one] at *
    -- only between two free tenants does the ledger leave 3
    · exact two_mul_sub_le (by linarith)
    · linarith
    · linarith
    · linarith

/-- Weighted fairness over every window of every run that starts from an empty queue. -/
theorem window_fair {w : K → ℚ} (hw : ∀ k, 0 < w k) (capacity : ℕ) (ops window : List (Op K T))
    (hops : ∀ op ∈ ops ++ window, op.Follows w) {a b : K} (hab : a ≠ b)
    (hb : Backlogged b (run (new capacity) ops) window) :
    lead w (run (new capacity) ops) window a b < 1 + max 1 (1 / w a) + max 1 (1 / w b) ∧
    ((∀ k, ∃ t : Tier, w k = t.weight) →
      lead w (run (new capacity) ops) window a b ≤ 2 ∧
      (w a = Tier.paid.weight → w b = Tier.free.weight →
        Backlogged a (run (new capacity) ops) window →
        |(served (run (new capacity) ops) window a : ℚ)
          - 2 * served (run (new capacity) ops) window b| ≤ 2)) := by
  have hbefore : ∀ op ∈ ops, op.Follows w := fun op ho => hops op (List.mem_append_left _ ho)
  have hwindow : ∀ op ∈ window, op.Follows w := fun op ho => hops op (List.mem_append_right _ ho)
  have hr := (reached_new (T := T) w capacity).run hw hbefore
  refine ⟨hb.lead_lt hw hr hab hwindow, fun htier => ?_⟩
  have hg : ∀ k, Granular w k (run (new capacity : FairQueue K (K × T)) ops) := by
    intro k
    obtain ⟨t, ht⟩ := htier k
    obtain ⟨m, hm⟩ := Tier.exists_mul_weight t
    rw [← ht] at hm
    exact Granular.run hw hm (reached_new w capacity) ⟨0, by simp [new, deficit]⟩ hbefore
  have hab2 := hb.lead_le_two htier hr hg hab hwindow
  refine ⟨hab2, fun hwa hwb ha => ?_⟩
  have hba2 := ha.lead_le_two htier hr hg (Ne.symm hab) hwindow
  unfold lead at hab2 hba2
  rw [hwa, hwb] at hab2 hba2
  simp only [Tier.weight, div_one] at hab2 hba2
  rw [abs_le]
  constructor <;> linarith

/-- A paid and a free tenant, both busy, over three dispatches. -/
theorem window_fair_busy :
    let w : Bool → ℚ := fun paid => (if paid then Tier.paid else Tier.free).weight
    let q : FairQueue Bool (Bool × ℕ) := run (new 8)
      [.push true 1 0, .push false (1 / 2) 0, .push true 1 1, .push false (1 / 2) 1,
        .push true 1 2]
    Backlogged false q [.pop, .pop, .pop] ∧ lead w q [.pop, .pop, .pop] true false ≤ 2 ∧
      |(served q [.pop, .pop, .pop] true : ℚ) - 2 * served q [.pop, .pop, .pop] false| ≤ 2 := by
  have hbusy := (window_fair
    (w := fun paid : Bool => (if paid then Tier.paid else Tier.free).weight)
    (fun paid => Tier.weight_pos _) 8
    [.push true 1 0, .push false (1 / 2) 0, .push true 1 1, .push false (1 / 2) 1,
      .push true 1 2] [.pop, .pop, .pop]
    (by simp [Op.Follows, Tier.weight]) (a := true) (b := false) (by decide)
    (by decide +kernel)).2 fun paid => ⟨_, rfl⟩
  exact ⟨by decide +kernel, hbusy.1, hbusy.2 rfl rfl (by decide +kernel)⟩

end FairQueue
end OxideGate
