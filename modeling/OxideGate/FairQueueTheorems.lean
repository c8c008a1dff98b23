import OxideGate.FairQueue
import Mathlib.Tactic.Linarith
import Mathlib.Tactic.Ring

/-!
# The representation invariant of `FairQueue`

* `FairQueue.WF` is what `push` and `pop` rely on without checking it: the rotation lists
  exactly the keys of the map, every queue of the map is non-empty, the length counter is
  right, and deficits stay in their range;
* `visit_cases` says once what a round of `pop`'s loop can do to such a queue;
* `pop_rule` is the induction over the rounds of `pop`, termination included: whatever a
  round preserves holds at the round that returns.
-/

namespace OxideGate
namespace FairQueue

open Tally

variable {K T : Type}

/-- The representation invariant. -/
structure WF (q : FairQueue K T) : Prop where
  nodup : q.active.Nodup
  keys : ∀ k, k ∈ q.active ↔ q.queues k ≠ none
  items_ne : ∀ k tq, q.queues k = some tq → tq.items ≠ []
  weight_pos : ∀ k tq, q.queues k = some tq → 0 < tq.weight
  /-- A tenant whose turn is not running keeps less than one dispatch of credit. -/
  resting : ∀ k tq, q.queues k = some tq →
    ¬ (q.turnStarted = true ∧ q.active.head? = some k) → 0 ≤ tq.deficit ∧ tq.deficit < 1
  /-- The tenant whose turn is running has credit left from this turn. -/
  serving : ∀ k tq, q.queues k = some tq →
    q.turnStarted = true → q.active.head? = some k → 1 ≤ tq.deficit ∧ tq.deficit < tq.weight
  started : q.turnStarted = true → q.active ≠ []
  len_eq : q.len = q.contents.length
  len_le : q.len ≤ q.capacity

/-- The empty queue is well formed. -/
theorem wf_new (capacity : ℕ) : (new capacity : FairQueue K T).WF where
  nodup := List.nodup_nil
  keys := by simp [new]
  items_ne := by simp [new]
  weight_pos := by simp [new]
  resting := by simp [new]
  serving := by simp [new]
  started := by simp [new]
  len_eq := rfl
  len_le := Nat.zero_le _

/-! ## Reading the map -/

theorem backlog_of_some {q : FairQueue K T} {k : K} {tq : TenantQueue T}
    (h : q.queues k = some tq) : q.backlog k = tq.items := by
  simp only [backlog, h]

theorem deficit_of_some {q : FairQueue K T} {k : K} {tq : TenantQueue T}
    (h : q.queues k = some tq) : q.deficit k = tq.deficit := by
  simp only [deficit, h]

theorem deficit_of_none {q : FairQueue K T} {k : K} (h : q.queues k = none) :
    q.deficit k = 0 := by
  simp only [deficit, h]

/-- An active key has a queue. -/
theorem WF.exists_queue {q : FairQueue K T} (h : q.WF) {k : K} (hk : k ∈ q.active) :
    ∃ tq, q.queues k = some tq :=
  Option.ne_none_iff_exists'.mp ((h.keys k).mp hk)

/-- A key with a queue is active. -/
theorem WF.mem_active {q : FairQueue K T} (h : q.WF) {k : K} {tq : TenantQueue T}
    (hk : q.queues k = some tq) : k ∈ q.active :=
  (h.keys k).mpr (by simp [hk])

/-- A key is in the rotation exactly while it has something queued. -/
theorem WF.mem_active_iff {q : FairQueue K T} (h : q.WF) (k : K) :
    k ∈ q.active ↔ q.backlog k ≠ [] := by
  constructor
  · intro hk
    obtain ⟨tq, htq⟩ := h.exists_queue hk
    rw [backlog_of_some htq]
    exact h.items_ne k tq htq
  · intro hk
    cases htq : q.queues k with
    | none => simp [backlog, htq] at hk
    | some tq => exact h.mem_active htq

/-- No key is in debt. -/
theorem WF.deficit_nonneg {q : FairQueue K T} (h : q.WF) (k : K) : 0 ≤ q.deficit k := by
  cases hk : q.queues k with
  | none => rw [deficit_of_none hk]
  | some tq =>
    rw [deficit_of_some hk]
    by_cases hs : q.turnStarted = true ∧ q.active.head? = some k
    · have := (h.serving k tq hk hs.1 hs.2).1
      linarith
    · exact (h.resting k tq hk hs).1

/-- The front tenant's credit in this round: never negative, and less than one dispatch
plus its weight. -/
theorem WF.credited_bounds {q : FairQueue K T} (h : q.WF) {key : K} {rest : List K}
    {tq : TenantQueue T} (hactive : q.active = key :: rest) (htq : q.queues key = some tq) :
    0 ≤ q.credited tq ∧ q.credited tq - 1 < tq.weight := by
  have hw := h.weight_pos key tq htq
  unfold credited
  split
  · rename_i hs
    have := h.serving key tq htq hs (by rw [hactive, List.head?_cons])
    exact ⟨by linarith, by linarith⟩
  · rename_i hs
    have := h.resting key tq htq fun hs' => hs hs'.1
    exact ⟨by linarith, by linarith⟩

/-- A round that passes the turn on has just given the credit of that turn. -/
theorem WF.not_started_of_pass {q : FairQueue K T} (h : q.WF) {key : K} {rest : List K}
    {tq : TenantQueue T} (hactive : q.active = key :: rest) (htq : q.queues key = some tq)
    (hd : q.credited tq < 1) : q.turnStarted = false := by
  by_contra hs
  rw [Bool.not_eq_false] at hs
  have := h.serving key tq htq hs (by rw [hactive, List.head?_cons])
  rw [credited, if_pos hs] at hd
  linarith

variable [DecidableEq K]

theorem update_eq_some {V : Type} {f : K → Option V} {key k : K} {v w : V} :
    Function.update f key (some v) k = some w ↔ (k = key ∧ v = w) ∨ (k ≠ key ∧ f k = some w) := by
  by_cases hk : k = key
  · subst hk
    simp
  · simp [hk]

theorem update_ne_none {V : Type} {f : K → Option V} {key k : K} {v : V} :
    Function.update f key (some v) k ≠ none ↔ k = key ∨ f k ≠ none := by
  by_cases hk : k = key
  · subst hk
    simp
  · simp [hk]

/-- What holds of every entry of the map holds after an update, if it does of the new entry. -/
theorem forall_update {V : Type} {f : K → Option V} {P : K → V → Prop}
    (h : ∀ k v, f k = some v → P k v) {key : K} {v : V} (hkey : P key v) (k : K) (w : V)
    (hk : Function.update f key (some v) k = some w) : P k w := by
  rcases update_eq_some.mp hk with ⟨rfl, rfl⟩ | ⟨-, hk⟩
  · exact hkey
  · exact h k w hk

/-- Updating the queue of one key leaves what the other keys wait for. -/
theorem flatMap_backlog_update (queues : K → Option (TenantQueue T)) {key : K} {l : List K}
    (hl : key ∉ l) (v : Option (TenantQueue T)) (q : FairQueue K T) (hq : q.queues = queues)
    (active : List K) (started : Bool) (len capacity : ℕ) :
    l.flatMap (backlog ⟨Function.update queues key v, active, started, len, capacity⟩)
      = l.flatMap q.backlog := by
  refine List.flatMap_congr fun k hk => ?_
  have hne : k ≠ key := fun e => hl (e ▸ hk)
  simp only [backlog, Function.update_of_ne hne, hq]

/-! ## `push` -/

/-- What an accepted `push` does. -/
inductive Pushed (q : FairQueue K T) (key : K) (weight : ℚ) (item : T) : FairQueue K T → Prop
  /-- The tenant is waiting already: its queue grows. -/
  | grow (tq : TenantQueue T) (htq : q.queues key = some tq) :
      Pushed q key weight item { q with
        len := q.len + 1
        queues := Function.update q.queues key (some { tq with items := tq.items ++ [item] }) }
  /-- The tenant joins the rotation at the back. -/
  | join (hnone : q.queues key = none) :
      Pushed q key weight item { q with
        len := q.len + 1
        queues := Function.update q.queues key (some ⟨[item], weight, 0⟩)
        active := q.active ++ [key] }

/-- `push` hands the item back when the queue is full, or appends it to the queue of its key. -/
theorem push_cases (q : FairQueue K T) (key : K) (weight : ℚ) (item : T) :
    (q.capacity ≤ q.len ∧ q.push key weight item = (.error item, q)) ∨
    (q.len < q.capacity ∧
      ∃ q', q.push key weight item = (.ok (), q') ∧ Pushed q key weight item q') := by
  unfold push
  by_cases hfull : q.capacity ≤ q.len
  · exact Or.inl ⟨hfull, if_pos hfull⟩
  · refine Or.inr ⟨Nat.lt_of_not_le hfull, ?_⟩
    rw [if_neg hfull]
    cases htq : q.queues key with
    | some tq => exact ⟨_, rfl, .grow tq htq⟩
    | none => exact ⟨_, rfl, .join htq⟩

/-- A push adds its item to the contents. -/
theorem Pushed.perm {q q' : FairQueue K T} {key : K} {weight : ℚ} {item : T} (h : q.WF)
    (hp : Pushed q key weight item q') : q'.contents.Perm (item :: q.contents) := by
  cases hp with
  | grow tq htq =>
    obtain ⟨u, v, huv⟩ := List.append_of_mem (h.mem_active htq)
    have hnd := h.nodup
    rw [huv, List.nodup_append] at hnd
    obtain ⟨-, hv, huv'⟩ := hnd
    have hu : key ∉ u := fun hk => huv' key hk key List.mem_cons_self rfl
    have hkv : key ∉ v := (List.nodup_cons.mp hv).1
    unfold contents
    simp only [huv, List.flatMap_append, List.flatMap_cons]
    rw [flatMap_backlog_update q.queues hu _ q rfl, flatMap_backlog_update q.queues hkv _ q rfl,
      backlog_of_some htq]
    simp only [backlog, Function.update_self, List.append_assoc]
    refine (List.Perm.append_left _ ?_).trans List.perm_middle
    have hcomm : (item :: v.flatMap q.backlog).Perm (v.flatMap q.backlog ++ [item]) :=
      (List.perm_append_singleton _ _).symm
    refine (List.Perm.append_left _ hcomm).trans ?_
    rw [← List.append_assoc]
    exact List.perm_append_comm
  | join hnone =>
    have hk : key ∉ q.active := fun hk => (h.keys key).mp hk hnone
    unfold contents
    simp only [List.flatMap_append, List.flatMap_cons, List.flatMap_nil]
    rw [flatMap_backlog_update q.queues hk _ q rfl]
    simp only [backlog, Function.update_self, List.append_nil]
    exact List.perm_append_comm

/-- Pushing at a positive weight keeps the queue well formed. -/
theorem Pushed.wf {q q' : FairQueue K T} {key : K} {weight : ℚ} {item : T} (h : q.WF)
    (hw : 0 < weight) (hroom : q.len < q.capacity) (hp : Pushed q key weight item q') :
    q'.WF := by
  have hlen : q.len + 1 = q'.contents.length := by
    rw [(hp.perm h).length_eq, List.length_cons, ← h.len_eq]
  cases hp with
  | grow tq htq =>
    exact
      { nodup := h.nodup
        keys := fun k => by
          rw [update_ne_none, h.keys k]
          exact ⟨Or.inr, fun hk => hk.elim (fun e => by rw [e, htq]; simp) id⟩
        items_ne := forall_update h.items_ne (by simp)
        weight_pos := forall_update h.weight_pos (h.weight_pos key tq htq)
        resting := forall_update h.resting (h.resting key tq htq)
        serving := forall_update h.serving (h.serving key tq htq)
        started := h.started
        len_eq := hlen
        len_le := hroom }
  | join hnone =>
    have hkey : key ∉ q.active := fun hk => (h.keys key).mp hk hnone
    -- a running turn belongs to somebody already in the rotation, who stays in front
    have hfront : q.turnStarted = true → (q.active ++ [key]).head? = q.active.head? := by
      intro hs
      obtain ⟨c, rest, hc⟩ := List.exists_cons_of_ne_nil (h.started hs)
      rw [hc, List.cons_append, List.head?_cons, List.head?_cons]
    exact
      { nodup := by
          refine List.nodup_append.mpr ⟨h.nodup, List.nodup_singleton _, ?_⟩
          intro a ha b hb hab
          rw [List.mem_singleton] at hb
          exact hkey (hb ▸ hab ▸ ha)
        keys := fun k => by
          rw [update_ne_none, ← h.keys k, List.mem_append, List.mem_singleton, or_comm]
        items_ne := forall_update h.items_ne (by simp)
        weight_pos := forall_update h.weight_pos hw
        resting := fun k tq' hk hs => by
          rcases update_eq_some.mp hk with ⟨-, rfl⟩ | ⟨-, hk⟩
          · simp
          · exact h.resting k tq' hk fun hs' => hs ⟨hs'.1, (hfront hs'.1).trans hs'.2⟩
        serving := fun k tq' hk hs hf => by
          have hf' := (hfront hs).symm.trans hf
          rcases update_eq_some.mp hk with ⟨rfl, -⟩ | ⟨-, hk⟩
          · exact absurd (List.mem_of_mem_head? hf') hkey
          · exact h.serving k tq' hk hs hf'
        started := fun _ => by simp
        len_eq := hlen
        len_le := hroom }

/-- So does `push`, whether there is room or not. -/
theorem push_wf {q : FairQueue K T} (h : q.WF) (key : K) {weight : ℚ} (hw : 0 < weight)
    (item : T) : (q.push key weight item).2.WF := by
  rcases push_cases q key weight item with ⟨-, he⟩ | ⟨hroom, q', he, hp⟩
  · rw [he]
    exact h
  · rw [he]
    exact hp.wf h hw hroom

/-! ## One round of `pop` -/

/-- What one round of `pop` does to a queue in the representation invariant. -/
inductive Visited (q : FairQueue K T) : Visit K T → Prop
  | idle (hactive : q.active = []) : Visited q (.ret none q)
  /-- The tenant's last item: it leaves the rotation and forfeits its credit. -/
  | drain (key : K) (rest : List K) (tq : TenantQueue T) (item : T)
      (hactive : q.active = key :: rest) (htq : q.queues key = some tq)
      (hitems : tq.items = [item]) (hd : 1 ≤ q.credited tq) :
      Visited q (.ret (some item) { q with
        queues := Function.update q.queues key none
        active := rest
        turnStarted := false
        len := q.len - 1 })
  /-- An item is served and the credit is used up: the turn ends. -/
  | rotate (key : K) (rest : List K) (tq : TenantQueue T) (item : T) (items : List T)
      (hactive : q.active = key :: rest) (htq : q.queues key = some tq)
      (hitems : tq.items = item :: items) (hne : items ≠ []) (hd : 1 ≤ q.credited tq)
      (hlast : q.credited tq - 1 < 1) :
      Visited q (.ret (some item) { q with
        queues := Function.update q.queues key (some ⟨items, tq.weight, q.credited tq - 1⟩)
        active := rest ++ [key]
        turnStarted := false
        len := q.len - 1 })
  /-- An item is served and there is credit for more: the turn goes on. -/
  | stay (key : K) (rest : List K) (tq : TenantQueue T) (item : T) (items : List T)
      (hactive : q.active = key :: rest) (htq : q.queues key = some tq)
      (hitems : tq.items = item :: items) (hne : items ≠ []) (hmore : 1 ≤ q.credited tq - 1) :
      Visited q (.ret (some item) { q with
        queues := Function.update q.queues key (some ⟨items, tq.weight, q.credited tq - 1⟩)
        turnStarted := true
        len := q.len - 1 })
  /-- Too little credit: the turn passes on. -/
  | pass (key : K) (rest : List K) (tq : TenantQueue T)
      (hactive : q.active = key :: rest) (htq : q.queues key = some tq)
      (hd : q.credited tq < 1) :
      Visited q (.next { q with
        queues := Function.update q.queues key (some ⟨tq.items, tq.weight, q.credited tq⟩)
        active := rest ++ [key]
        turnStarted := false })

/-- What a round does, by the state of the queue at the front of the rotation. -/
theorem visit_cases {q : FairQueue K T} (h : q.WF) : Visited q q.visit := by
  unfold visit
  cases hactive : q.active with
  | nil => exact .idle hactive
  | cons key rest =>
    obtain ⟨tq, htq⟩ := h.exists_queue (k := key) (by rw [hactive]; exact List.mem_cons_self)
    obtain ⟨item, items, hitems⟩ := List.exists_cons_of_ne_nil (h.items_ne key tq htq)
    have hrot : (key :: rest).rotate 1 = rest ++ [key] := by
      rw [List.rotate_cons_succ, List.rotate_zero]
    simp only [htq, hitems, hrot, List.head?_cons, List.tail_cons]
    by_cases hd : 1 ≤ q.credited tq
    · rw [if_pos hd]
      by_cases hnil : items = []
      · rw [if_pos hnil]
        exact .drain key rest tq item hactive htq (by rw [hitems, hnil]) hd
      · rw [if_neg hnil]
        by_cases hlast : q.credited tq - 1 < 1
        · rw [if_pos hlast]
          exact .rotate key rest tq item items hactive htq hitems hnil hd hlast
        · rw [if_neg hlast, ← hactive]
          exact .stay key rest tq item items hactive htq hitems hnil (le_of_not_gt hlast)
    · rw [if_neg hd, ← hitems]
      exact .pass key rest tq hactive htq (lt_of_not_ge hd)

/-- A served item is the head of the front tenant's queue and leaves the rest. -/
theorem Visited.perm {q q' : FairQueue K T} {item : T} (h : q.WF)
    (hv : Visited q (.ret (some item) q')) : q.contents.Perm (item :: q'.contents) := by
  cases hv with
  | drain key rest tq _ hactive htq hitems hd =>
    have hkey : key ∉ rest := (List.nodup_cons.mp (hactive ▸ h.nodup)).1
    unfold contents
    simp only [hactive, List.flatMap_cons]
    rw [backlog_of_some htq, hitems, flatMap_backlog_update q.queues hkey _ q rfl]
    exact List.Perm.refl _
  | rotate key rest tq _ items hactive htq hitems hne hd hlast =>
    have hkey : key ∉ rest := (List.nodup_cons.mp (hactive ▸ h.nodup)).1
    unfold contents
    simp only [hactive, List.flatMap_cons, List.flatMap_append, List.flatMap_nil, List.append_nil]
    rw [backlog_of_some htq, hitems, flatMap_backlog_update q.queues hkey _ q rfl]
    simp only [backlog, Function.update_self, List.cons_append]
    exact List.Perm.cons _ List.perm_append_comm
  | stay key rest tq _ items hactive htq hitems hne hmore =>
    have hkey : key ∉ rest := (List.nodup_cons.mp (hactive ▸ h.nodup)).1
    unfold contents
    simp only [hactive, List.flatMap_cons]
    rw [backlog_of_some htq, hitems, flatMap_backlog_update q.queues hkey _ q rfl]
    simp only [backlog, Function.update_self, List.cons_append]
    exact List.Perm.refl _

/-- A round that goes on keeps all items. -/
theorem Visited.perm_next {q q' : FairQueue K T} (h : q.WF) (hv : Visited q (.next q')) :
    q.contents.Perm q'.contents := by
  cases hv with
  | pass key rest tq hactive htq hd =>
    have hkey : key ∉ rest := (List.nodup_cons.mp (hactive ▸ h.nodup)).1
    unfold contents
    simp only [hactive, List.flatMap_cons, List.flatMap_append, List.flatMap_nil, List.append_nil]
    rw [backlog_of_some htq, flatMap_backlog_update q.queues hkey _ q rfl]
    simp only [backlog, Function.update_self]
    exact List.perm_append_comm

/-- The front tenant's queue gets a new content and a new deficit, and its turn either
ends, which moves it to the back, or goes on. -/
theorem WF.replace_front {q : FairQueue K T} (h : q.WF) {key : K} {rest : List K}
    {tq : TenantQueue T} (hactive : q.active = key :: rest) (htq : q.queues key = some tq)
    {items : List T} (hne : items ≠ []) {d : ℚ} {active : List K} {started : Bool} {len : ℕ}
    (hturn : started = false ∧ active = rest ++ [key] ∧ 0 ≤ d ∧ d < 1 ∨
      started = true ∧ active = key :: rest ∧ 1 ≤ d ∧ d < tq.weight)
    (hlen : len = (FairQueue.mk (Function.update q.queues key (some ⟨items, tq.weight, d⟩)) active
      started len q.capacity).contents.length) (hle : len ≤ q.capacity) :
    (FairQueue.mk (Function.update q.queues key (some ⟨items, tq.weight, d⟩)) active
      started len q.capacity).WF := by
  have hnd : (key :: rest).Nodup := hactive ▸ h.nodup
  -- either way the rotation has the same keys
  have hperm : active.Perm (key :: rest) := by
    rcases hturn with ⟨-, rfl, -⟩ | ⟨-, rfl, -⟩
    · exact List.perm_append_comm
    · exact List.Perm.refl _
  exact
    { nodup := hperm.nodup_iff.mpr hnd
      keys := fun k => by
        rw [hperm.mem_iff, ← hactive, update_ne_none, h.keys k]
        exact ⟨Or.inr, fun hk => hk.elim (fun e => by rw [e, htq]; simp) id⟩
      items_ne := forall_update h.items_ne hne
      weight_pos := forall_update h.weight_pos (h.weight_pos key tq htq)
      resting := fun k tq' hk hs => by
        rcases update_eq_some.mp hk with ⟨rfl, rfl⟩ | ⟨hke, hk⟩
        · rcases hturn with ⟨-, -, hd⟩ | ⟨rfl, rfl, -⟩
          · exact hd
          · exact absurd ⟨rfl, rfl⟩ hs
        · refine h.resting k tq' hk fun hs' => ?_
          rw [hactive, List.head?_cons, Option.some.injEq] at hs'
          exact hke hs'.2.symm
      serving := fun k tq' hk hs hf => by
        rcases hturn with ⟨rfl, -⟩ | ⟨-, rfl, hd⟩
        · exact absurd hs (by simp)
        · rcases update_eq_some.mp hk with ⟨rfl, rfl⟩ | ⟨hke, hk⟩
          · exact hd
          · simp only [List.head?_cons, Option.some.injEq] at hf
            exact absurd hf.symm hke
      started := fun _ hnil => by
        have hmem : key ∈ active := hperm.symm.subset List.mem_cons_self
        rw [show active = [] from hnil] at hmem
        exact absurd hmem List.not_mem_nil
      len_eq := hlen
      len_le := hle }

/-- A round that returns leaves the queue well formed. -/
theorem Visited.wf {q q' : FairQueue K T} {item : Option T} (h : q.WF)
    (hv : Visited q (.ret item q')) : q'.WF := by
  cases item with
  | none =>
    cases hv with
    | idle _ => exact h
  | some item =>
    have hlen : q.len - 1 = q'.contents.length := by
      rw [h.len_eq, (hv.perm h).length_eq, List.length_cons, Nat.add_sub_cancel]
    have hle : q.len - 1 ≤ q.capacity := (Nat.sub_le _ _).trans h.len_le
    cases hv with
    | drain key rest tq _ hactive htq hitems hd =>
      have hnd := List.nodup_cons.mp (hactive ▸ h.nodup)
      have hback : ∀ k tq', Function.update q.queues key none k = some tq' →
          k ≠ key ∧ q.queues k = some tq' := by
        intro k tq' hk
        by_cases hke : k = key
        · simp [hke] at hk
        · exact ⟨hke, by simpa [hke] using hk⟩
      exact
        { nodup := hnd.2
          keys := fun k => by
            show k ∈ rest ↔ Function.update q.queues key none k ≠ none
            by_cases hke : k = key
            · simp [hke, hnd.1]
            · rw [Function.update_of_ne hke, ← h.keys k, hactive, List.mem_cons]
              exact ⟨Or.inr, fun hk => hk.resolve_left hke⟩
          items_ne := fun k tq' hk => h.items_ne k tq' (hback k tq' hk).2
          weight_pos := fun k tq' hk => h.weight_pos k tq' (hback k tq' hk).2
          resting := fun k tq' hk _ => by
            refine h.resting k tq' (hback k tq' hk).2 fun hs => ?_
            rw [hactive, List.head?_cons, Option.some.injEq] at hs
            exact (hback k tq' hk).1 hs.2.symm
          serving := fun _ _ _ hs _ => absurd hs (by simp)
          started := fun hs => absurd hs (by simp)
          len_eq := hlen
          len_le := hle }
    | rotate key rest tq _ items hactive htq hitems hne hd hlast =>
      exact h.replace_front hactive htq hne
        (Or.inl ⟨rfl, rfl, sub_nonneg.mpr hd, hlast⟩) hlen hle
    | stay key rest tq _ items hactive htq hitems hne hmore =>
      exact h.replace_front hactive htq hne
        (Or.inr ⟨rfl, hactive, hmore, (h.credited_bounds hactive htq).2⟩) hlen hle

/-- So does one that goes on. -/
theorem Visited.wf_next {q q' : FairQueue K T} (h : q.WF) (hv : Visited q (.next q')) :
    q'.WF := by
  have hlen : q.len = q'.contents.length := by
    rw [h.len_eq, (hv.perm_next h).length_eq]
  cases hv with
  | pass key rest tq hactive htq hd =>
    exact h.replace_front hactive htq (h.items_ne key tq htq)
      (Or.inl ⟨rfl, rfl, (h.credited_bounds hactive htq).1, hd⟩) hlen h.len_le

/-! ## The loop of `pop` -/

/-- The credit a passing turn gives is one of those the tenant misses, and not the last. -/
theorem Visited.missing_pass {q q' : FairQueue K T} (h : q.WF) (hv : Visited q (.next q')) :
    ∃ key rest, q.active = key :: rest ∧ q'.active = rest ++ [key] ∧
      q.missing key = q'.missing key + 1 ∧ 1 ≤ q'.missing key ∧
      ∀ k ∈ rest, q'.missing k = q.missing k := by
  cases hv with
  | pass key rest tq hactive htq hd =>
    have hkey : key ∉ rest := (List.nodup_cons.mp (hactive ▸ h.nodup)).1
    have hw := h.weight_pos key tq htq
    have hc : q.credited tq = tq.deficit + tq.weight := by
      rw [credited, h.not_started_of_pass hactive htq hd]
      rfl
    have hceil : ⌈(1 - tq.deficit) / tq.weight⌉₊ = ⌈(1 - q.credited tq) / tq.weight⌉₊ + 1 := by
      rw [← Nat.ceil_add_one (div_nonneg (by linarith) hw.le), hc]
      congr 1
      field_simp
      ring
    have hlast : 1 ≤ ⌈(1 - q.credited tq) / tq.weight⌉₊ :=
      Nat.one_le_ceil_iff.mpr (div_pos (by linarith) hw)
    refine ⟨key, rest, hactive, rfl, ?_, ?_, fun k hk => ?_⟩
    · simp only [missing, htq, Function.update_self]
      exact hceil
    · simp only [missing, Function.update_self]
      exact hlast
    · have hne : k ≠ key := fun e => hkey (e ▸ hk)
      simp only [missing, Function.update_of_ne hne]

/-- Each round that goes on brings some key closer to its next item. -/
theorem Visited.missing_next {q q' : FairQueue K T} (h : q.WF) (hv : Visited q (.next q')) :
    tally q.missing q.active = tally q'.missing q'.active + 1 := by
  obtain ⟨key, rest, hactive, hactive', hkey, -, hrest⟩ := hv.missing_pass h
  rw [hactive, hactive', tally_cons, tally_append, tally_cons, tally_nil, hkey,
    tally_congr hrest]
  omega

/-- The loop of `pop` returns within `rounds` rounds. -/
theorem popLoop_rounds {q : FairQueue K T} (h : q.WF) : popLoop q.rounds q = some q.pop := by
  have hsome : ∃ r, popLoop q.rounds q = some r := by
    -- one credit less is missing after each round
    induction hm : tally q.missing q.active generalizing q with
    | zero =>
      have hv := visit_cases h
      rw [rounds, popLoop]
      cases hq : q.visit with
      | ret item q' => exact ⟨(item, q'), rfl⟩
      | next q' =>
        have hnext := (hq ▸ hv).missing_next h
        omega
    | succ m ih =>
      have hv := visit_cases h
      rw [rounds, popLoop]
      cases hq : q.visit with
      | ret item q' => exact ⟨(item, q'), rfl⟩
      | next q' =>
        rw [hq] at hv
        have hnext := hv.missing_next h
        rw [hnext]
        exact ih (hv.wf_next h) (by omega)
  obtain ⟨r, hr⟩ := hsome
  rw [pop, hr, Option.getD_some]

/-- When the first round returns, `pop` returns what it does. -/
theorem pop_ret {q q' : FairQueue K T} {item : Option T} (hq : q.visit = .ret item q') :
    q.pop = (item, q') := by
  rw [pop, rounds, popLoop, hq]
  rfl

/-- A round that passes leaves the rest of `pop` to the rounds after it. -/
theorem pop_next {q q' : FairQueue K T} (h : q.WF) (hq : q.visit = .next q') :
    q.pop = q'.pop := by
  have hv := hq ▸ visit_cases h
  have hrounds : q.rounds = q'.rounds + 1 := by
    rw [rounds, hv.missing_next h]
    rfl
  rw [pop, hrounds, popLoop, hq]
  dsimp only
  rw [popLoop_rounds (hv.wf_next h), Option.getD_some]

/-- The induction over the rounds of `pop`: what every round that passes preserves holds in
the round that returns, and some round returns. -/
theorem pop_rule {P : FairQueue K T → Prop} {Q : Option T → FairQueue K T → Prop}
    (hnext : ∀ q q', q.WF → P q → Visited q (.next q') → P q')
    (hret : ∀ q item q', q.WF → P q → Visited q (.ret item q') → Q item q')
    {q : FairQueue K T} (h : q.WF) (hP : P q) : Q q.pop.1 q.pop.2 := by
  induction hm : tally q.missing q.active using Nat.strong_induction_on generalizing q with
  | _ m ih =>
    have hv := visit_cases h
    cases hq : q.visit with
    | ret item q' =>
      rw [pop_ret hq]
      exact hret q item q' h hP (hq ▸ hv)
    | next q' =>
      rw [hq] at hv
      have hfewer := hv.missing_next h
      rw [pop_next h hq]
      exact ih _ (by omega) (hv.wf_next h) (hnext q q' h hP hv) rfl

/-- `pop` keeps the queue well formed. -/
theorem pop_wf {q : FairQueue K T} (h : q.WF) : q.pop.2.WF :=
  pop_rule (P := fun _ => True) (Q := fun _ q' => q'.WF) (fun _ _ _ _ _ => trivial)
    (fun _ _ _ hwf _ hv => hv.wf hwf) h trivial

/-- `pop` takes out the item it returns and nothing else; it returns nothing only when
nothing is queued. -/
theorem pop_perm {q : FairQueue K T} (h : q.WF) :
    match q.pop.1 with
    | some item => q.contents.Perm (item :: q.pop.2.contents)
    | none => q.contents = [] ∧ q.pop.2.contents = [] := by
  refine pop_rule (P := fun q' => q.contents.Perm q'.contents)
    (Q := fun item q' => match item with
      | some item => q.contents.Perm (item :: q'.contents)
      | none => q.contents = [] ∧ q'.contents = [])
    (fun _ _ hwf hp hv => hp.trans (hv.perm_next hwf)) ?_ h (List.Perm.refl _)
  intro q₁ item q' hwf hp hv
  cases item with
  | some item => exact hp.trans (hv.perm hwf)
  | none =>
    cases hv with
    | idle hactive =>
      have hnil : q₁.contents = [] := by rw [contents, hactive, List.flatMap_nil]
      exact ⟨List.perm_nil.mp (hnil ▸ hp), hnil⟩

/-- `len` goes down by one when an item is returned. -/
theorem pop_len {q : FairQueue K T} (h : q.WF) :
    q.len = q.pop.2.len + if q.pop.1.isSome then 1 else 0 := by
  have hperm := pop_perm h
  rw [h.len_eq, (pop_wf h).len_eq]
  cases hpop : q.pop.1 with
  | some item =>
    rw [hpop] at hperm
    exact hperm.length_eq
  | none =>
    rw [hpop] at hperm
    rw [hperm.1, hperm.2]
    rfl

/-- `pop` does not change the capacity. -/
theorem pop_capacity {q : FairQueue K T} (h : q.WF) : q.pop.2.capacity = q.capacity := by
  refine pop_rule (P := fun q' => q'.capacity = q.capacity)
    (Q := fun _ q' => q'.capacity = q.capacity) ?_ ?_ h rfl
  · intro q₁ q₂ _ hcapacity hv
    cases hv with
    | pass => exact hcapacity
  · intro q₁ item q₂ _ hcapacity hv
    cases hv <;> exact hcapacity

/-- A push counts its item. -/
theorem Pushed.len {q q' : FairQueue K T} {key : K} {weight : ℚ} {item : T}
    (hp : Pushed q key weight item q') : q'.len = q.len + 1 ∧ q'.capacity = q.capacity := by
  cases hp <;> exact ⟨rfl, rfl⟩

/-- A tenant that had nothing queued joins at the back, with no credit. -/
theorem Pushed.joined {q q' : FairQueue K T} {key : K} {weight : ℚ} {item : T}
    (hp : Pushed q key weight item q') (hnone : q.queues key = none) :
    q'.queues key = some ⟨[item], weight, 0⟩ ∧ q'.active = q.active ++ [key] := by
  cases hp with
  | grow tq htq => exact absurd (hnone.symm.trans htq) (by simp)
  | join _ => exact ⟨Function.update_self _ _ _, rfl⟩

/-! ## What holds of every entry of the map -/

/-- Every entry's weight and items meet `P`. -/
def Entries (P : K → ℚ → List T → Prop) (q : FairQueue K T) : Prop :=
  ∀ k tq, q.queues k = some tq → P k tq.weight tq.items

theorem Entries.update {P : K → ℚ → List T → Prop} {q : FairQueue K T} (h : Entries P q) {key : K}
    {weight : ℚ} {items : List T} (hkey : P key weight items) (d : ℚ) (k : K)
    (tq : TenantQueue T) (hk : Function.update q.queues key (some ⟨items, weight, d⟩) k = some tq) :
    P k tq.weight tq.items :=
  forall_update (P := fun k (tq : TenantQueue T) => P k tq.weight tq.items) h hkey k tq hk

/-- A push needs to be checked for the entry of its key: a new one, or one that grows. -/
theorem Pushed.entries {P : K → ℚ → List T → Prop} {q q' : FairQueue K T} {key : K} {weight : ℚ}
    {item : T} (hp : Pushed q key weight item q') (h : Entries P q)
    (hjoin : q.queues key = none → P key weight [item])
    (hgrow : ∀ tq, q.queues key = some tq → P key tq.weight tq.items →
      P key tq.weight (tq.items ++ [item])) : Entries P q' := by
  cases hp with
  | grow tq htq => exact h.update (hgrow tq htq (h key tq htq)) tq.deficit
  | join hnone => exact h.update (hjoin hnone) 0

/-- A property of the entries is kept by a push that keeps it for its own key. -/
theorem Entries.push {P : K → ℚ → List T → Prop} {q : FairQueue K T} (h : Entries P q) (key : K)
    (weight : ℚ) (item : T)
    (hjoin : q.len < q.capacity → q.queues key = none → P key weight [item])
    (hgrow : q.len < q.capacity → ∀ tq, q.queues key = some tq → P key tq.weight tq.items →
      P key tq.weight (tq.items ++ [item])) : Entries P (q.push key weight item).2 := by
  rcases push_cases q key weight item with ⟨-, he⟩ | ⟨hroom, q', he, hp⟩
  · rw [he]
    exact h
  · rw [he]
    exact hp.entries h (hjoin hroom) (hgrow hroom)

/-- A round of `pop` keeps what an entry does not lose with its first item. -/
theorem Entries.visit {P : K → ℚ → List T → Prop} {q : FairQueue K T} (h : Entries P q)
    (htail : ∀ k w item items, P k w (item :: items) → P k w items) {v : Visit K T}
    (hv : Visited q v) : match v with
      | .ret _ q' => Entries P q'
      | .next q' => Entries P q' := by
  cases hv with
  | idle hactive => exact h
  | drain key rest tq item hactive htq hitems hd =>
    intro k tq' hk
    by_cases hke : k = key
    · simp [hke] at hk
    · exact h k tq' (by simpa [hke] using hk)
  | rotate key rest tq item items hactive htq hitems hne hd hlast =>
    exact h.update (htail key tq.weight item items (hitems ▸ h key tq htq)) _
  | stay key rest tq item items hactive htq hitems hne hmore =>
    exact h.update (htail key tq.weight item items (hitems ▸ h key tq htq)) _
  | pass key rest tq hactive htq hd => exact h.update (h key tq htq) _

/-- It is kept by `pop` if it does not depend on the front item. -/
theorem Entries.pop {P : K → ℚ → List T → Prop} {q : FairQueue K T} (h : Entries P q) (hwf : q.WF)
    (htail : ∀ k w item items, P k w (item :: items) → P k w items) : Entries P q.pop.2 :=
  pop_rule (P := Entries P) (Q := fun _ q' => Entries P q')
    (fun _ _ _ hp hv => hp.visit htail hv) (fun _ _ _ _ hp hv => hp.visit htail hv) hwf h

end FairQueue
end OxideGate
