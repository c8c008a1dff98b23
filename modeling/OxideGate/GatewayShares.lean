import OxideGate.FairQueueMap
import OxideGate.FairQueueWait
import OxideGate.GatewayOrder

/-!
# The shares of the tenants

A run of the gateway is a run of the queue (`callsAlong`, `Tracks.exec`), and the requests that
leave the queue are those that the run pops (`Tracks.taken_exec`). What is proved of every run of
a `FairQueue` is so true of the gateway, whatever its handlers, its dispatch tasks and the clients
do in between: busy tenants share the backend by their weights (`shares_fair`), and nobody starves
(`taken_within`).
-/

namespace OxideGate
namespace Gateway

open Runs Rotation

variable {R : Type}

/-- How many requests of a key have left the queue. -/
def State.takenFor (cfg : Config) (s : State R) (key : String) : ℕ :=
  (s.mine cfg key s.taken).length

/-- The queue with its items tagged by the keys that they are pushed under. -/
abbrev TaggedQueue := FairQueue String (String × QueuedRequest)

/-- The tagged queue `q` is the queue of the gateway, and `w` are the weights of the tenants. -/
structure Tracks (cfg : Config) (w : String → ℚ) (q : TaggedQueue) (s : State R) : Prop where
  inLine : InLine cfg s
  weighs : ∀ n ∈ s.names, w n.1 = n.2.weight
  reached : FairQueue.Reached w q
  queue : q.map Prod.snd = s.queue

theorem tracks_init (cfg : Config) {w : String → ℚ} {tenants : List (Tenant R)}
    (hw : ∀ t ∈ tenants, w t.id = t.tier.weight) :
    Tracks cfg w (.new cfg.queueDepth) (init cfg tenants) where
  inLine := inLine_init cfg tenants
  weighs := by
    intro n hn
    obtain ⟨t, ht, rfl⟩ := List.mem_map.mp hn
    exact hw t ht
  reached := FairQueue.reached_new w cfg.queueDepth
  queue := rfl

theorem Tracks.backlog {cfg : Config} {w : String → ℚ} {q : TaggedQueue} {s : State R}
    (h : Tracks cfg w q s) (key : String) :
    s.queue.backlog key = (q.backlog key).map Prod.snd := by
  rw [← h.queue, FairQueue.backlog_map]

/-- A tag is the key of the request. -/
theorem Tracks.keyOf_popped {cfg : Config} {w : String → ℚ} {q : TaggedQueue} {s : State R}
    (h : Tracks cfg w q s) {x : String × QueuedRequest} (hx : q.pop.1 = some x) :
    s.keyOf cfg x.2.respondTo = some x.1 := by
  have hpop := FairQueue.pop_backlog h.reached.wf
  rw [hx] at hpop
  obtain ⟨key, hfront, -⟩ := hpop
  have hmem : x ∈ q.backlog key := by
    rw [hfront]
    exact List.mem_cons_self
  have htag : x.1 = key := by
    unfold FairQueue.backlog at hmem
    split at hmem
    · rename_i tq htq
      exact (h.reached.labelled key tq htq).2 x hmem
    · exact absurd hmem List.not_mem_nil
  rw [htag]
  apply h.inLine.waiting
  rw [State.waitingFor, h.backlog]
  exact List.mem_map_of_mem (List.mem_map_of_mem hmem)

/-- Who waits is a tenant. -/
theorem InLine.active_subset {cfg : Config} (hfair : cfg.fair = true) {s : State R}
    (h : InLine cfg s) : s.queue.active ⊆ s.names.map Prod.fst := by
  intro key hkey
  obtain ⟨item, hitem⟩ := List.exists_mem_of_ne_nil _ ((h.wf.mem_active_iff key).mp hkey)
  have hk := h.waiting key item.respondTo (List.mem_map_of_mem hitem)
  rw [State.keyOf, Option.bind_eq_some_iff] at hk
  obtain ⟨r, -, hk⟩ := hk
  rw [Option.map_eq_some_iff] at hk
  obtain ⟨n, hn, hk⟩ := hk
  rw [if_pos hfair] at hk
  rw [← hk]
  exact List.mem_map_of_mem (List.mem_of_getElem? hn)

/-- The tenants besides one of them. -/
theorem InLine.others_le {cfg : Config} (hfair : cfg.fair = true) {s : State R}
    (h : InLine cfg s) {key : String} (hkey : key ∈ s.names.map Prod.fst) :
    others key s.queue.active ≤ s.names.length - 1 := by
  have hnodup : (key :: s.queue.active.filter (· ≠ key)).Nodup :=
    List.nodup_cons.mpr ⟨by simp, h.wf.nodup.filter _⟩
  have hsub : key :: s.queue.active.filter (· ≠ key) ⊆ s.names.map Prod.fst := by
    intro k hk
    rcases List.mem_cons.mp hk with rfl | hk
    · exact hkey
    · exact h.active_subset hfair (List.mem_of_mem_filter hk)
  have hlen := (hnodup.subperm hsub).length_le
  rw [List.length_cons, List.length_map] at hlen
  rw [others, List.countP_eq_length_filter]
  omega

/-- A step is what its calls are on the queue, and a request that leaves the queue is popped. -/
theorem LineMove.run {cfg : Config} (hfair : cfg.fair = true) {w : String → ℚ} {q : TaggedQueue}
    {s s' : State R} (h : Tracks cfg w q s) {calls : List (FairQueue.Op String QueuedRequest)}
    (hm : LineMove cfg s s' calls) :
    (∀ op ∈ calls, op.Follows w) ∧ (q.run calls).map Prod.snd = s'.queue ∧
      (∀ x ∈ q.popped calls, s.keyOf cfg x.2.respondTo = some x.1) ∧
      s'.taken.Perm (s.taken ++ (q.popped calls).map fun x => x.2.respondTo) := by
  have hpop : s.queue.pop = (q.pop.1.map Prod.snd, q.pop.2.map Prod.snd) := by
    rw [← h.queue, FairQueue.pop_map]
  cases hm with
  | stay hline =>
    simp only [State.line, Prod.mk.injEq] at hline
    obtain ⟨hspawned, hskipped, hhand, -, hqueue⟩ := hline
    refine ⟨List.forall_mem_nil _, h.queue.trans hqueue.symm, List.forall_mem_nil _, ?_⟩
    simp only [State.taken, hspawned, hskipped, hhand, FairQueue.popped, List.map_nil,
      List.append_nil]
    exact List.Perm.refl _
  | push i r t queue hr ht hq hroom hline =>
    simp only [State.line, Prod.mk.injEq] at hline
    obtain ⟨hspawned, hskipped, hhand, -, hqueue⟩ := hline
    have hweight : w (State.queueKey cfg t).1 = (State.queueKey cfg t).2 := by
      rw [State.queueKey, if_pos hfair]
      exact h.weighs _ (List.mem_of_getElem? (exists_name ht))
    refine ⟨List.forall_mem_singleton.mpr hweight.symm, ?_, List.forall_mem_nil _, ?_⟩
    · rw [hqueue, ← hq.push_eq hroom, ← h.queue]
      exact (FairQueue.push_map Prod.snd q _ _ (_, _)).symm
    · simp only [State.taken, hspawned, hskipped, hhand, FairQueue.popped, FairQueue.apply,
        Option.toList_none, List.append_nil, List.map_nil]
      exact List.Perm.refl _
  | pop item hq hline =>
    simp only [State.line, Prod.mk.injEq] at hline
    obtain ⟨hspawned, hskipped, hhand, -, hqueue⟩ := hline
    rw [hpop] at hq hqueue
    obtain ⟨x, hx, rfl⟩ := Option.map_eq_some_iff.mp hq
    have hpopped : q.popped [.pop] = [x] := by
      simp only [FairQueue.popped, FairQueue.apply, hx, Option.toList_some, List.append_nil]
    rw [hpopped]
    refine ⟨List.forall_mem_singleton.mpr trivial, hqueue.symm,
      List.forall_mem_singleton.mpr (h.keyOf_popped hx), ?_⟩
    simp only [State.taken, hspawned, hskipped, hhand, List.map_singleton, List.append_assoc]
    exact List.Perm.refl _
  | popEmpty hq hline =>
    simp only [State.line, Prod.mk.injEq] at hline
    obtain ⟨hspawned, hskipped, hhand, -, hqueue⟩ := hline
    rw [hpop] at hq hqueue
    have hpopped : q.popped [.pop] = [] := by
      simp only [FairQueue.popped, FairQueue.apply, Option.map_eq_none_iff.mp hq,
        Option.toList_none, List.append_nil]
    rw [hpopped]
    refine ⟨List.forall_mem_singleton.mpr trivial, hqueue.symm, List.forall_mem_nil _, ?_⟩
    simp only [State.taken, hspawned, hskipped, hhand, List.append_nil, List.map_nil]
    exact List.Perm.refl _
  | skip i rest hhand hline =>
    simp only [State.line, Prod.mk.injEq] at hline
    obtain ⟨hspawned, hskipped, hhand', -, hqueue⟩ := hline
    refine ⟨List.forall_mem_nil _, h.queue.trans hqueue.symm, List.forall_mem_nil _, ?_⟩
    simp only [State.taken, hspawned, hskipped, hhand, hhand', FairQueue.popped, List.map_nil,
      List.append_nil, List.append_assoc, List.singleton_append]
    exact List.Perm.refl _
  | spawn i rest hhand hline =>
    simp only [State.line, Prod.mk.injEq] at hline
    obtain ⟨hspawned, hskipped, hhand', -, hqueue⟩ := hline
    refine ⟨List.forall_mem_nil _, h.queue.trans hqueue.symm, List.forall_mem_nil _, ?_⟩
    simp only [State.taken, hspawned, hskipped, hhand, hhand', FairQueue.popped, List.map_nil,
      List.append_nil, List.append_assoc, List.singleton_append]
    exact List.perm_middle.symm.append_left s.spawned

theorem LineMove.length_le {cfg : Config} {s s' : State R}
    {calls : List (FairQueue.Op String QueuedRequest)} (hm : LineMove cfg s s' calls) :
    calls.length ≤ 1 := by
  cases hm <;> simp

/-! ## A run -/

theorem pops_calls (cfg : Config) (s : State R) (a : Action) :
    FairQueue.pops (s.calls cfg a) = [a].count .pop := by
  cases a with
  | push i =>
    rw [State.calls]
    split
    · rfl
    · cases s.requests[i]? with
      | none => rfl
      | some r =>
        rw [Option.bind_some]
        cases s.tenants[r.tenant]? <;> rfl
  | _ => rfl

variable [Add R] [Sub R] [Mul R] [Min R] [LT R] [DecidableLT R] [NatCast R] [RatCast R]

/-- The calls on the queue in a run. -/
def callsAlong (cfg : Config) : State R → List Action → List (FairQueue.Op String QueuedRequest) :=
  outputs (step cfg) fun s a => s.calls cfg a

theorem Tracks.step {cfg : Config} (hfair : cfg.fair = true) {w : String → ℚ}
    (hw : ∀ k, 0 < w k) {q : TaggedQueue} {s s' : State R} {a : Action} (h : Tracks cfg w q s)
    (hs : Stepped cfg s a s') : Tracks cfg w (q.run (s.calls cfg a)) s' := by
  obtain ⟨hfollows, hqueue, -, -⟩ := (line_cases hs).run hfair h
  refine ⟨h.inLine.step hs, ?_, h.reached.run hw hfollows, hqueue⟩
  rw [names_step hs]
  exact h.weighs

/-- Each request that a step pops leaves the queue of its key. -/
theorem Tracks.takenFor_step {cfg : Config} (hfair : cfg.fair = true) {w : String → ℚ}
    {q : TaggedQueue} {s s' : State R} {a : Action} (h : Tracks cfg w q s)
    (hs : Stepped cfg s a s') (key : String) :
    s'.takenFor cfg key = s.takenFor cfg key + q.served (s.calls cfg a) key := by
  obtain ⟨-, -, hkeys, htaken⟩ := (line_cases hs).run hfair h
  have hbefore : s'.mine cfg key s.taken = s.mine cfg key s.taken :=
    mine_step hs key fun i hi => h.inLine.keyed i (List.mem_append_right _ hi)
  have hpopped : (s'.mine cfg key ((q.popped (s.calls cfg a)).map fun x => x.2.respondTo)).length
      = q.served (s.calls cfg a) key := by
    rw [State.mine, ← List.countP_eq_length_filter, List.countP_map, FairQueue.served]
    apply List.countP_congr
    intro x hx
    rw [Function.comp_apply, keyOf_step hs (hkeys x hx)]
    simp
  rw [State.takenFor, State.mine, (htaken.filter _).length_eq]
  show (s'.mine cfg key _).length = _
  rw [mine_append, List.length_append, hbefore, hpopped, State.takenFor]

theorem callsAlong_cons {cfg : Config} {s s' : State R} {a : Action}
    (hstep : Gateway.step cfg s a = some s') (as : List Action) :
    callsAlong cfg s (a :: as) = s.calls cfg a ++ callsAlong cfg s' as :=
  outputs_cons hstep as

/-- A run of the gateway is a run of the queue. -/
theorem Tracks.exec {cfg : Config} (hfair : cfg.fair = true) {w : String → ℚ}
    (hw : ∀ k, 0 < w k) {q : TaggedQueue} {s s' : State R} {as : List Action}
    (h : Tracks cfg w q s) (hrun : Runs.exec (Gateway.step cfg) s as = some s') :
    (∀ op ∈ callsAlong cfg s as, op.Follows w) ∧ Tracks cfg w (q.run (callsAlong cfg s as)) s' ∧
      FairQueue.pops (callsAlong cfg s as) = as.count .pop := by
  induction as generalizing q s with
  | nil =>
    rw [exec_nil, Option.some.injEq] at hrun
    exact ⟨List.forall_mem_nil _, hrun ▸ h, rfl⟩
  | cons a as ih =>
    obtain ⟨u, hu, hrest⟩ := (exec_cons _).mp hrun
    have hs := step_cases hu
    obtain ⟨hfollows, hend, hpops⟩ := ih (h.step hfair hw hs) hrest
    rw [callsAlong_cons hu, FairQueue.run_append]
    refine ⟨List.forall_mem_append.mpr ⟨((line_cases hs).run hfair h).1, hfollows⟩, hend, ?_⟩
    rw [FairQueue.pops, List.countP_append]
    show FairQueue.pops _ + FairQueue.pops _ = _
    rw [pops_calls, hpops, ← List.singleton_append (l := as), List.count_append]

/-- The requests that have left the queue in a run are those that it popped. -/
theorem Tracks.taken_exec {cfg : Config} (hfair : cfg.fair = true) {w : String → ℚ}
    (hw : ∀ k, 0 < w k) {q : TaggedQueue} {s s' : State R} {as : List Action}
    (h : Tracks cfg w q s) (hrun : Runs.exec (Gateway.step cfg) s as = some s') :
    (∀ key, s'.takenFor cfg key
      = s.takenFor cfg key + q.served (callsAlong cfg s as) key) ∧
    s.taken ⊆ s'.taken ∧ ∀ x ∈ q.popped (callsAlong cfg s as), x.2.respondTo ∈ s'.taken := by
  induction as generalizing q s with
  | nil =>
    rw [exec_nil, Option.some.injEq] at hrun
    subst hrun
    exact ⟨fun key => rfl, List.Subset.refl _, List.forall_mem_nil _⟩
  | cons a as ih =>
    obtain ⟨u, hu, hrest⟩ := (exec_cons _).mp hrun
    have hs := step_cases hu
    obtain ⟨-, -, -, hperm⟩ := (line_cases hs).run hfair h
    obtain ⟨hcount, hsub, hpopped⟩ := ih (h.step hfair hw hs) hrest
    rw [callsAlong_cons hu]
    refine ⟨fun key => ?_, fun i hi => hsub ?_, fun x hx => ?_⟩
    · rw [hcount, h.takenFor_step hfair hs, FairQueue.served_append, Nat.add_assoc]
    · exact hperm.symm.subset (List.mem_append_left _ hi)
    · rw [FairQueue.popped_append, List.mem_append] at hx
      rcases hx with hx | hx
      · apply hsub
        apply hperm.symm.subset
        exact List.mem_append_right _ (List.mem_map_of_mem (f := fun x => x.2.respondTo) hx)
      · exact hpopped x hx

/-- The calls of a run up to one of them are those of a beginning of the run. -/
theorem take_callsAlong {cfg : Config} {s s' : State R} {as : List Action}
    (hrun : exec (step cfg) s as = some s') {i : ℕ} (hi : i ≤ (callsAlong cfg s as).length) :
    ∃ as₁ as₂ u, as = as₁ ++ as₂ ∧ exec (step cfg) s as₁ = some u ∧
      (callsAlong cfg s as).take i = callsAlong cfg s as₁ ∧
      (i < (callsAlong cfg s as).length → as₂ ≠ []) := by
  induction as generalizing s i with
  | nil =>
    refine ⟨[], [], s, rfl, rfl, ?_, fun hlt => absurd hlt (Nat.not_lt_zero i)⟩
    rw [callsAlong, outputs, List.take_nil]
  | cons a as ih =>
    obtain ⟨u, hu, hrest⟩ := (exec_cons _).mp hrun
    have hlen := (line_cases (step_cases hu)).length_le
    rw [callsAlong_cons hu] at hi ⊢
    rw [List.length_append] at hi
    by_cases hfirst : i < (s.calls cfg a).length
    · -- an action makes one call at most
      obtain rfl : i = 0 := by omega
      exact ⟨[], a :: as, s, rfl, rfl, rfl, fun _ => List.cons_ne_nil a as⟩
    · obtain ⟨as₁, as₂, v, rfl, hv, htake, hne⟩ := ih hrest
        (i := i - (s.calls cfg a).length) (by omega)
      refine ⟨a :: as₁, as₂, v, rfl, (exec_cons _).mpr ⟨u, hu, hv⟩, ?_, fun hlt => hne ?_⟩
      · rw [List.take_append, List.take_of_length_le (by omega), htake, callsAlong_cons hu]
      · rw [List.length_append] at hlt
        omega

/-- Something is queued for the key at each step of the run. -/
def Busy (cfg : Config) (key : String) : State R → List Action → Prop :=
  Along (step cfg) fun s _ => s.queue.backlog key ≠ []

instance (cfg : Config) (key : String) (s : State R) (as : List Action) :
    Decidable (Busy cfg key s as) :=
  inferInstanceAs (Decidable (Along (step cfg) (fun s _ => s.queue.backlog key ≠ []) s as))

/-- A key with something queued at each step is backlogged in the run of the queue. -/
theorem Tracks.backlogged {cfg : Config} (hfair : cfg.fair = true) {w : String → ℚ}
    (hw : ∀ k, 0 < w k) {q : TaggedQueue} {s s' : State R} {as : List Action}
    (h : Tracks cfg w q s) (hrun : Runs.exec (Gateway.step cfg) s as = some s') {key : String}
    (hbusy : Busy cfg key s as) : FairQueue.Backlogged key q (callsAlong cfg s as) := by
  intro i hi _
  obtain ⟨as₁, as₂, u, rfl, hu, htake, hne⟩ := take_callsAlong hrun hi.le
  obtain ⟨a, as₂, rfl⟩ := List.exists_cons_of_ne_nil (hne hi)
  have hqueued := (along_iff _).mp hbusy as₁ a as₂ u rfl hu
  obtain ⟨-, htracks, -⟩ := h.exec hfair hw hu
  rw [htracks.backlog] at hqueued
  rw [htake]
  exact fun hnil => hqueued (by rw [hnil]; rfl)

theorem names_of_exec {cfg : Config} {s s' : State R} {as : List Action}
    (hrun : Runs.exec (step cfg) s as = some s') : s'.names = s.names := by
  have hkept : ∀ (u : State R) (a : Action) (v : State R), u.names = s.names →
      Gateway.step cfg u a = some v → v.names = s.names := by
    intro u a v hu hstep
    rw [names_step (step_cases hstep)]
    exact hu
  exact exec_invariant hkept rfl hrun

/-! ## What the tenants get -/

omit [Add R] [Sub R] [Mul R] [Min R] [LT R] [DecidableLT R] [NatCast R] [RatCast R] in
/-- Tenants with different ids have weights by id. -/
theorem exists_weights {tenants : List (Tenant R)} (hids : (tenants.map Tenant.id).Nodup) :
    ∃ w : String → ℚ, (∀ k, ∃ tier : Tier, w k = tier.weight) ∧
      ∀ t ∈ tenants, w t.id = t.tier.weight := by
  induction tenants with
  | nil => exact ⟨fun _ => Tier.paid.weight, fun _ => ⟨_, rfl⟩, List.forall_mem_nil _⟩
  | cons t ts ih =>
    rw [List.map_cons, List.nodup_cons] at hids
    obtain ⟨w, htier, hw⟩ := ih hids.2
    refine ⟨Function.update w t.id t.tier.weight, fun k => ?_, fun t' ht' => ?_⟩
    · by_cases hk : k = t.id
      · rw [hk, Function.update_self]
        exact ⟨_, rfl⟩
      · rw [Function.update_of_ne hk]
        exact htier k
    · rcases List.mem_cons.mp ht' with rfl | ht'
      · exact Function.update_self _ _ _
      · have hne : t'.id ≠ t.id := fun he => hids.1 (he ▸ List.mem_map_of_mem ht')
        rw [Function.update_of_ne hne]
        exact hw t' ht'

omit [Add R] [Sub R] [Mul R] [Min R] [LT R] [DecidableLT R] [NatCast R] [RatCast R] in
/-- With the weights of the tiers, credits come in steps that add up to 1. -/
theorem granular_of_tier {w : String → ℚ} (hpos : ∀ k, 0 < w k)
    (htier : ∀ k, ∃ tier : Tier, w k = tier.weight) (capacity : ℕ)
    {ops : List (FairQueue.Op String QueuedRequest)} (hops : ∀ op ∈ ops, op.Follows w)
    (k : String) : FairQueue.Granular w k (FairQueue.run (.new capacity) ops) := by
  obtain ⟨tier, hk⟩ := htier k
  obtain ⟨m, hm⟩ := tier.exists_mul_weight
  rw [← hk] at hm
  exact FairQueue.Granular.run hpos hm (FairQueue.reached_new w capacity)
    ⟨0, by simp [FairQueue.new, FairQueue.deficit]⟩ hops

/-- With fair queueing and distinct ids: over any stretch of a run in which something of `b` is
always queued, no other tenant gets more than two turns ahead of it, by weight; a busy paid tenant
and a busy free one leave the queue two to one. -/
theorem shares_fair (cfg : Config) (hfair : cfg.fair = true) (tenants : List (Tenant R))
    (hids : (tenants.map Tenant.id).Nodup) (before window : List Action) (s s' : State R)
    (hbefore : exec (step cfg) (init cfg tenants) before = some s)
    (hwindow : exec (step cfg) s window = some s') (a b : Tenant R) (ha : a ∈ tenants)
    (hb : b ∈ tenants) (hab : a.id ≠ b.id) (hbusy : Busy cfg b.id s window) :
    ((s'.takenFor cfg a.id : ℚ) - s.takenFor cfg a.id) / a.tier.weight
      - ((s'.takenFor cfg b.id : ℚ) - s.takenFor cfg b.id) / b.tier.weight ≤ 2 ∧
    (a.tier = .paid → b.tier = .free → Busy cfg a.id s window →
      |((s'.takenFor cfg a.id : ℚ) - s.takenFor cfg a.id)
        - 2 * ((s'.takenFor cfg b.id : ℚ) - s.takenFor cfg b.id)| ≤ 2) := by
  obtain ⟨w, htier, hw⟩ := exists_weights hids
  have hpos : ∀ k, 0 < w k := by
    intro k
    obtain ⟨tier, hk⟩ := htier k
    rw [hk]
    exact tier.weight_pos
  obtain ⟨hops, htracks, -⟩ := (tracks_init cfg hw).exec hfair hpos hbefore
  obtain ⟨hops', -, -⟩ := htracks.exec hfair hpos hwindow
  obtain ⟨hcount, -, -⟩ := htracks.taken_exec hfair hpos hwindow
  have hlead : ∀ {k l : String}, k ≠ l → Busy cfg l s window → FairQueue.lead w
      (FairQueue.run (.new cfg.queueDepth) (callsAlong cfg (init cfg tenants) before))
      (callsAlong cfg s window) k l ≤ 2 := by
    intro k l hkl hbusy'
    refine (htracks.backlogged hfair hpos hwindow hbusy').lead_le_two htier
      ((FairQueue.reached_new w cfg.queueDepth).run hpos hops) (fun k => ?_) hkl hops'
    exact granular_of_tier hpos htier _ hops k
  have hgrown : ∀ key, (s'.takenFor cfg key : ℚ) - s.takenFor cfg key = (FairQueue.served
      (FairQueue.run (.new cfg.queueDepth) (callsAlong cfg (init cfg tenants) before))
      (callsAlong cfg s window) key : ℕ) := by
    intro key
    rw [hcount key, Nat.cast_add]
    ring
  rw [hgrown, hgrown, ← hw a ha, ← hw b hb]
  refine ⟨hlead hab hbusy, fun hpaid hfree hbusy' => ?_⟩
  have hahead := hlead hab hbusy
  have hbehind := hlead (Ne.symm hab) hbusy'
  unfold FairQueue.lead at hahead hbehind
  rw [hw a ha, hw b hb, hpaid, hfree] at hahead hbehind
  simp only [Tier.weight, div_one] at hahead hbehind
  rw [abs_le]
  constructor <;> linarith

/-- Three dispatches with a paid and a free tenant, both busy. -/
theorem shares_fair_two :
    let cfg : Config := ⟨8, 0, 0, true, 16⟩
    let tenants : List (Tenant ℚ) := [.fromConfig ⟨"acme", "k1", .paid, 600, 5, 4⟩ 0,
      .fromConfig ⟨"beta", "k2", .free, 600, 5, 4⟩ 0]
    let before : List Action := [.arrive 0 ⟨none, false⟩, .arrive 0 ⟨none, false⟩,
      .arrive 0 ⟨none, false⟩, .arrive 1 ⟨none, false⟩, .arrive 1 ⟨none, false⟩, .admission 0 0,
      .admission 1 0, .admission 2 0, .admission 3 0, .admission 4 0, .push 0, .push 3, .push 1,
      .push 4, .push 2]
    let window : List Action := [.acquire, .pop, .dispatchNext, .dispatchNext, .acquire, .pop,
      .dispatchNext, .dispatchNext, .acquire, .pop]
    ∃ s s', exec (step cfg) (init cfg tenants) before = some s ∧
      exec (step cfg) s window = some s' ∧ s'.takenFor cfg "acme" = 2 ∧
      s'.takenFor cfg "beta" = 1 ∧ ((2 : ℚ) - 0) / 1 - ((1 : ℚ) - 0) / (1 / 2) ≤ 2 := by
  intro cfg tenants before window
  have hrun : (exec (step cfg) (init cfg tenants) before).map (fun s => (s.takenFor cfg "acme",
      s.takenFor cfg "beta", decide (Busy cfg "beta" s window),
      (exec (step cfg) s window).map fun s' => (s'.takenFor cfg "acme", s'.takenFor cfg "beta")))
      = some (0, 0, true, some (2, 1)) := by
    decide +kernel
  obtain ⟨s, hs, hl⟩ := Option.map_eq_some_iff.mp hrun
  simp only [Prod.mk.injEq, Option.map_eq_some_iff, decide_eq_true_eq] at hl
  obtain ⟨ha, hb, hbusy, s', hs', ha', hb'⟩ := hl
  have hfair := (shares_fair cfg rfl tenants (by decide) before window s s' hs hs' _ _
    (List.mem_cons_self) (List.mem_cons_of_mem _ List.mem_cons_self) (by decide) hbusy).1
  simp only [Tenant.fromConfig, ha, hb, ha', hb', Tier.weight] at hfair
  exact ⟨s, s', hs, hs', ha', hb', by exact_mod_cast hfair⟩

/-- With fair queueing and distinct ids nobody starves: a request with `j` others of its tenant
ahead of it leaves the queue within a number of pops that depends on `j`, the weight and the number
of tenants only. -/
theorem taken_within (cfg : Config) (hfair : cfg.fair = true) (tenants : List (Tenant R))
    (hids : (tenants.map Tenant.id).Nodup) (before window : List Action) (s s' : State R)
    (hbefore : exec (step cfg) (init cfg tenants) before = some s)
    (hwindow : exec (step cfg) s window = some s') (t : Tenant R) (ht : t ∈ tenants) (i j : ℕ)
    (hi : (s.waitingFor t.id)[j]? = some i)
    (hpops : ⌈((j : ℚ) + 1) / t.tier.weight⌉₊ * (tenants.length - 1) + j + 1 ≤ window.count .pop) :
    i ∈ s'.taken := by
  obtain ⟨w, htier, hw⟩ := exists_weights hids
  have hpos : ∀ k, 0 < w k := by
    intro k
    obtain ⟨tier, hk⟩ := htier k
    rw [hk]
    exact tier.weight_pos
  obtain ⟨hops, htracks, -⟩ := (tracks_init cfg hw).exec hfair hpos hbefore
  obtain ⟨hops', -, hcount⟩ := htracks.exec hfair hpos hwindow
  obtain ⟨-, -, hpopped⟩ := htracks.taken_exec hfair hpos hwindow
  set q := FairQueue.run (.new cfg.queueDepth) (callsAlong cfg (init cfg tenants) before)
  have htiered : ∀ op : FairQueue.Op String QueuedRequest, op.Follows w → op.Tiered := by
    intro op hop
    cases op with
    | push key weight item =>
      obtain ⟨tier, hk⟩ := htier key
      exact ⟨tier, (show weight = w key from hop).trans hk⟩
    | pop => trivial
  -- the item that carries the request
  rw [State.waitingFor, htracks.backlog, List.map_map, List.getElem?_map,
    Option.map_eq_some_iff] at hi
  obtain ⟨x, hx, rfl⟩ := hi
  have hj := (List.getElem?_eq_some_iff.mp hx).1
  obtain ⟨tq, htq⟩ : ∃ tq, q.queues t.id = some tq := by
    cases hq : q.queues t.id with
    | none => simp [FairQueue.backlog, hq] at hj
    | some tq => exact ⟨tq, rfl⟩
  have hweight : tq.weight = t.tier.weight := by
    rw [(htracks.reached.labelled t.id tq htq).1, hw t ht]
  have hothers : ∀ {as : List Action} {u : State R} {q' : TaggedQueue},
      exec (step cfg) s as = some u → Tracks cfg w q' u →
      others t.id q'.active ≤ tenants.length - 1 := by
    intro as u q' hu hq'
    have hnames : u.names = (init cfg tenants).names :=
      (names_of_exec hu).trans (names_of_exec hbefore)
    have hmem : t.id ∈ u.names.map Prod.fst := by
      rw [hnames]
      simp only [State.names, init, List.map_map]
      exact List.mem_map_of_mem (f := Tenant.id) ht
    have hle := hq'.inLine.others_le hfair hmem
    rw [hnames, ← hq'.queue] at hle
    simpa [State.names, init, FairQueue.map] using hle
  have hwaits := (FairQueue.light_new _).run (fun op hop => htiered op (hops op hop)) |>.waits_at
    (n := tenants.length - 1) htq (j := j) (by rwa [FairQueue.backlog_of_some htq] at hj)
    (hothers (exec_nil _ s) htracks)
  have huncrowded : FairQueue.Uncrowded t.id (tenants.length - 1) (j + 1) q
      (callsAlong cfg s window) := by
    intro k hk _
    obtain ⟨as₁, as₂, u, rfl, hu, htake, -⟩ := take_callsAlong hwindow hk
    rw [htake]
    exact hothers hu (htracks.exec hfair hpos hu).2.1
  have hserved := hwaits.served_le (fun op hop => htiered op (hops' op hop))
    (fun _ => huncrowded) (by rw [hcount, hweight]; exact hpops)
  obtain ⟨l, -, hrefines, -⟩ := (FairQueue.refines_new cfg.queueDepth).run
    fun op hop => (htiered op (hops op hop)).positive
  have hfirst := hrefines.getElem_popped (fun op hop => (htiered op (hops' op hop)).positive) hj
    hserved
  rw [hx] at hfirst
  exact hpopped x (List.mem_filter.mp (List.mem_of_getElem? hfirst)).1

/-- The request of a free tenant behind one of a paid one. -/
theorem taken_within_free :
    let cfg : Config := ⟨8, 0, 0, true, 16⟩
    let tenants : List (Tenant ℚ) := [.fromConfig ⟨"acme", "k1", .paid, 600, 5, 4⟩ 0,
      .fromConfig ⟨"beta", "k2", .free, 600, 5, 4⟩ 0]
    let before : List Action := [.arrive 0 ⟨none, false⟩, .arrive 1 ⟨none, false⟩,
      .admission 0 0, .admission 1 0, .push 0, .push 1]
    let window : List Action := [.acquire, .pop, .dispatchNext, .dispatchNext, .acquire, .pop,
      .dispatchNext, .dispatchNext, .acquire, .pop]
    ∃ s s', exec (step cfg) (init cfg tenants) before = some s ∧
      exec (step cfg) s window = some s' ∧ s.waitingFor "beta" = [1] ∧ 1 ∈ s'.taken := by
  intro cfg tenants before window
  have hrun : (exec (step cfg) (init cfg tenants) before).map (fun s => (s.waitingFor "beta",
      (exec (step cfg) s window).isSome)) = some ([1], true) := by
    decide +kernel
  obtain ⟨s, hs, hl⟩ := Option.map_eq_some_iff.mp hrun
  simp only [Prod.mk.injEq, Option.isSome_iff_exists] at hl
  obtain ⟨hwaits, s', hs'⟩ := hl
  have htaken := taken_within cfg rfl tenants (by decide) before window s s' hs hs' _
    (List.mem_cons_of_mem _ List.mem_cons_self) 1 0
    (by show (s.waitingFor "beta")[0]? = some 1; rw [hwaits]; rfl) (by decide +kernel)
  exact ⟨s, s', hs, hs', hwaits, htaken⟩

end Gateway
end OxideGate
