import OxideGate.FairQueueReachable
import OxideGate.GatewayCap
import OxideGate.GatewayWaiting
import OxideGate.TenantsTheorems

/-!
# A queue for each tenant

A request goes through four places before it waits: `from_configs` and `resolve` say whose it is,
`serve` names the tenant by its `id`, `submit` passes the name on in fair mode, and `push` uses it
as the key of a queue. The tenants file has one API key for each tenant, which `from_configs`
checks, and one `id`, which it does not.

* `Call` and `run` put the four together, with items tagged by the API key they came with;
* `Belongs` is the invariant of a queue when the tenants have different ids;
* `Gateway.own_queue_of_exec` is the same for the queue of the running gateway.
-/

namespace OxideGate
namespace TenantQueues

open Gateway

variable {R : Type}

/-- A call on the scheduler's queue. -/
inductive Call where
  /-- A request that came with an API key; the reply goes to `respondTo`. -/
  | submit (apiKey : String) (req : ChatCompletionRequest) (respondTo : ℕ)
  | pop
deriving DecidableEq

/-- `authenticate`, and `serve` and `submit` up to `push`; or `Shared::pop`. -/
def apply (cfg : Config) (tenants : Tenants R) (q : FairQueue String (String × QueuedRequest)) :
    Call → FairQueue String (String × QueuedRequest)
  | .submit k req respondTo =>
    match tenants.resolve (some k) with
    | some t =>
      let key := State.queueKey cfg t
      (q.push key.1 key.2 (k, ⟨req, respondTo, t.tier.asStr⟩)).2
    -- `Unauthorized`
    | none => q
  | .pop => q.pop.2

/-- The queue after a list of calls, in the order in which they got the lock. -/
def run (cfg : Config) (tenants : Tenants R) (calls : List Call) :
    FairQueue String (String × QueuedRequest) :=
  calls.foldl (apply cfg tenants) (.new cfg.queueDepth)

/-- Every queue holds requests of a single configured tenant, at the weight of its tier. -/
def OwnQueues (tenants : Tenants R) (q : FairQueue String (String × QueuedRequest)) : Prop :=
  ∀ id tq, q.queues id = some tq → ∃ k t, tenants.resolve (some k) = some t ∧
    tq.weight = t.tier.weight ∧ ∀ x ∈ tq.items, x.1 = k

/-- The queue of `id` is that of the tenant with API key `k`. -/
def Belongs (tenants : Tenants R) (id : String) (weight : ℚ)
    (items : List (String × QueuedRequest)) : Prop :=
  ∃ k t, tenants.resolve (some k) = some t ∧ t.id = id ∧ weight = t.tier.weight ∧
    ∀ x ∈ items, x.1 = k

/-- With fair queueing a tenant has its id for a key, and the weight of its tier. -/
theorem queueKey_fair {cfg : Config} (hfair : cfg.fair = true) (t : Tenant R) :
    State.queueKey cfg t = (t.id, t.tier.weight) :=
  if_pos hfair

/-! ## Calls -/

theorem apply_submit (cfg : Config) {tenants : Tenants R} {k : String} {t : Tenant R}
    (h : tenants.resolve (some k) = some t) (q : FairQueue String (String × QueuedRequest))
    (req : ChatCompletionRequest) (respondTo : ℕ) :
    apply cfg tenants q (.submit k req respondTo)
      = (q.push (State.queueKey cfg t).1 (State.queueKey cfg t).2
          (k, ⟨req, respondTo, t.tier.asStr⟩)).2 := by
  simp only [apply, h]

/-- What a call needs to be checked for: a push for a tenant, and `pop`. -/
theorem apply_rule {cfg : Config} {tenants : Tenants R}
    {P : FairQueue String (String × QueuedRequest) → Prop}
    (hpush : ∀ q k t item, P q → tenants.resolve (some k) = some t →
      P (q.push (State.queueKey cfg t).1 (State.queueKey cfg t).2 (k, item)).2)
    (hpop : ∀ q, P q → P q.pop.2) {q : FairQueue String (String × QueuedRequest)} (h : P q)
    (c : Call) : P (apply cfg tenants q c) := by
  cases c with
  | submit k req respondTo =>
    cases ht : tenants.resolve (some k) with
    | some t =>
      rw [apply_submit cfg ht]
      exact hpush q k t _ h ht
    | none =>
      simp only [apply, ht]
      exact h
  | pop => exact hpop q h

/-- The rule for runs: what every push for a tenant and every `pop` keep. -/
theorem run_rule {cfg : Config} {tenants : Tenants R}
    {P : FairQueue String (String × QueuedRequest) → Prop} (hnew : P (.new cfg.queueDepth))
    (hpush : ∀ q k t item, q.WF → q.capacity = cfg.queueDepth → P q →
      tenants.resolve (some k) = some t →
      P (q.push (State.queueKey cfg t).1 (State.queueKey cfg t).2 (k, item)).2)
    (hpop : ∀ q, q.WF → P q → P q.pop.2) (calls : List Call) : P (run cfg tenants calls) := by
  have hall : (run cfg tenants calls).WF ∧ (run cfg tenants calls).capacity = cfg.queueDepth ∧
      P (run cfg tenants calls) := by
    refine List.foldlRecOn (motive := fun q => q.WF ∧ q.capacity = cfg.queueDepth ∧ P q) calls
      (apply cfg tenants) ⟨FairQueue.wf_new _, rfl, hnew⟩ fun q hq c _ => ?_
    apply apply_rule (P := fun q => q.WF ∧ q.capacity = cfg.queueDepth ∧ P q) _ _ hq
    · intro q k t item ⟨hwf, hcapacity, hP⟩ ht
      exact ⟨FairQueue.push_wf hwf _ (queueKey_weight_pos cfg t) _,
        (FairQueue.push_capacity _ _ _ _).trans hcapacity, hpush q k t item hwf hcapacity hP ht⟩
    · intro q ⟨hwf, hcapacity, hP⟩
      exact ⟨FairQueue.pop_wf hwf, (FairQueue.pop_capacity hwf).trans hcapacity, hpop q hwf hP⟩
  exact hall.2.2

theorem belongs_tail {tenants : Tenants R} (id : String) (weight : ℚ) (x : String × QueuedRequest)
    (items : List (String × QueuedRequest)) (h : Belongs tenants id weight (x :: items)) :
    Belongs tenants id weight items := by
  obtain ⟨k, t, ht, hid, hw, hitems⟩ := h
  exact ⟨k, t, ht, hid, hw, fun y hy => hitems y (List.mem_cons_of_mem x hy)⟩

/-- An item belongs to the tenant that has pushed it. -/
theorem belongs_singleton {tenants : Tenants R} {k : String} {t : Tenant R}
    (ht : tenants.resolve (some k) = some t) (item : QueuedRequest) :
    Belongs tenants t.id t.tier.weight [(k, item)] := by
  refine ⟨k, t, ht, rfl, rfl, fun x hx => ?_⟩
  rw [List.mem_singleton.mp hx]

/-- Entries that belong to tenants are queues of their own. -/
theorem ownQueues_of_belongs {tenants : Tenants R} {q : FairQueue String (String × QueuedRequest)}
    (h : FairQueue.Entries (Belongs tenants) q) : OwnQueues tenants q := by
  intro id tq htq
  obtain ⟨k, t, ht, -, hw, hitems⟩ := h id tq htq
  exact ⟨k, t, ht, hw, hitems⟩

/-- In a queue with room for one request nobody is joined. -/
theorem belongs_of_queueDepth (tenants : Tenants R) {cfg : Config} (hfair : cfg.fair = true)
    (hdepth : cfg.queueDepth ≤ 1) (calls : List Call) :
    FairQueue.Entries (Belongs tenants) (run cfg tenants calls) := by
  refine run_rule (fun id tq htq => by simp [FairQueue.new] at htq) ?_
    (fun q hwf hq => hq.pop hwf belongs_tail) calls
  intro q k t item hwf hcapacity hq ht
  rw [queueKey_fair hfair]
  refine hq.push _ _ _ (fun _ _ => belongs_singleton ht item) fun hroom tq htq _ => ?_
  -- an entry has an item, and then the queue is full
  have hmem := (hwf.mem_active_iff t.id).mp (hwf.mem_active htq)
  have hempty : q.contents = [] := by
    rw [← List.length_eq_zero_iff, ← hwf.len_eq]
    omega
  exact absurd (List.flatMap_eq_nil_iff.mp hempty t.id (hwf.mem_active htq)) hmem

/-- Two requests for one id are in one queue, at the weight of the first. -/
theorem run_two {cfg : Config} (hfair : cfg.fair = true) (hdepth : 1 < cfg.queueDepth)
    {tenants : Tenants R} {k k' : String} {t t' : Tenant R}
    (ht : tenants.resolve (some k) = some t) (ht' : tenants.resolve (some k') = some t')
    (hid : t'.id = t.id) (req : ChatCompletionRequest) :
    (run cfg tenants [.submit k req 0, .submit k' req 1]).queues t.id
      = some ⟨[(k, ⟨req, 0, t.tier.asStr⟩), (k', ⟨req, 1, t'.tier.asStr⟩)], t.tier.weight, 0⟩ := by
  simp only [run, List.foldl_cons, List.foldl_nil, apply_submit cfg ht, apply_submit cfg ht',
    queueKey_fair hfair, hid]
  have hzero : ¬ cfg.queueDepth ≤ 0 := by omega
  have hone : ¬ cfg.queueDepth ≤ 0 + 1 := by omega
  simp [FairQueue.push, FairQueue.new, hzero, hone]

section Configured

variable [Max R] [Div R] [LT R] [DecidableLT R] [NatCast R]
variable {configs : List (TenantConfig R)} {now : Instant} {tenants : Tenants R}

/-- With different ids, an id belongs to one API key. -/
theorem apiKey_unique (h : Tenants.fromConfigs configs now = .ok tenants)
    (hids : (configs.map TenantConfig.id).Nodup) {k k' : String} {t t' : Tenant R}
    (ht : tenants.resolve (some k) = some t) (ht' : tenants.resolve (some k') = some t')
    (hid : t.id = t'.id) : k = k' := by
  obtain ⟨cfg, hcfg, rfl, rfl⟩ := (Tenants.resolve_fromConfigs h k t).mp ht
  obtain ⟨cfg', hcfg', rfl, rfl⟩ := (Tenants.resolve_fromConfigs h k' t').mp ht'
  rw [List.inj_on_of_nodup_map hids hcfg hcfg' hid]

/-- With distinct ids each entry belongs to one tenant, in every run of calls. -/
theorem belongs_of_ids (h : Tenants.fromConfigs configs now = .ok tenants)
    (hids : (configs.map TenantConfig.id).Nodup) {cfg : Config} (hfair : cfg.fair = true)
    (calls : List Call) : FairQueue.Entries (Belongs tenants) (run cfg tenants calls) := by
  refine run_rule (fun id tq htq => by simp [FairQueue.new] at htq) ?_
    (fun q hwf hq => hq.pop hwf belongs_tail) calls
  intro q k t item _ _ hq ht
  rw [queueKey_fair hfair]
  refine hq.push _ _ _ (fun _ _ => belongs_singleton ht item) fun _ tq _ hold => ?_
  obtain ⟨k', t', ht', hid, hw, hitems⟩ := hold
  refine ⟨k', t', ht', hid, hw, fun x hx => ?_⟩
  rcases List.mem_append.mp hx with hx | hx
  · exact hitems x hx
  · rw [List.mem_singleton.mp hx]
    exact apiKey_unique h hids ht ht' hid.symm

/-- Every tenant of an accepted list has its own queue at its own weight, in every run of submits
and pops in fair mode, exactly when no two tenants have one id, or nobody can wait behind
another. -/
theorem own_queues_iff (cfg : Config) (hfair : cfg.fair = true) (configs : List (TenantConfig R))
    (now : Instant) (tenants : Tenants R) (h : Tenants.fromConfigs configs now = .ok tenants) :
    (∀ calls, OwnQueues tenants (run cfg tenants calls)) ↔
      (configs.map TenantConfig.id).Nodup ∨ cfg.queueDepth ≤ 1 := by
  constructor
  · intro hown
    by_cases hdepth : cfg.queueDepth ≤ 1
    · exact Or.inr hdepth
    left
    -- two tenants with one id would be one tenant: their requests wait in one queue
    have hinj : ∀ c ∈ configs, ∀ c' ∈ configs, c.id = c'.id → c.apiKey = c'.apiKey := by
      intro c hc c' hc' hid
      have ht := (Tenants.resolve_fromConfigs h c.apiKey _).mpr ⟨c, hc, rfl, rfl⟩
      have ht' := (Tenants.resolve_fromConfigs h c'.apiKey _).mpr ⟨c', hc', rfl, rfl⟩
      obtain ⟨k, -, -, -, hitems⟩ := hown [.submit c.apiKey ⟨none, false⟩ 0,
        .submit c'.apiKey ⟨none, false⟩ 1] _ _
        (run_two hfair (Nat.lt_of_not_le hdepth) ht ht' hid.symm ⟨none, false⟩)
      have hc := hitems _ List.mem_cons_self
      have hc' := hitems _ (List.mem_cons_of_mem _ List.mem_cons_self)
      exact hc.trans hc'.symm
    have hkeys := (Tenants.fromConfigs_ok h).2.1
    rw [List.Nodup, List.pairwise_map] at hkeys ⊢
    exact hkeys.imp_of_mem fun hc hc' hne hid => hne (hinj _ hc _ hc' hid)
  · rintro (hids | hdepth) calls
    · exact ownQueues_of_belongs (belongs_of_ids h hids hfair calls)
    · exact ownQueues_of_belongs (belongs_of_queueDepth tenants hfair hdepth calls)

end Configured

/-- Two tenants with ids of their own. -/
theorem own_queues_iff_pair : ∃ tenants : Tenants ℚ,
    Tenants.fromConfigs [⟨"acme", "k1", .free, 600, 5, 4⟩, ⟨"bolt", "k2", .paid, 600, 5, 4⟩] 0
      = .ok tenants ∧ ∀ calls, OwnQueues tenants (run ⟨4, 0, 1, true, 16⟩ tenants calls) := by
  obtain ⟨tenants, h⟩ := (Tenants.fromConfigs_ok_iff (R := ℚ)
    [⟨"acme", "k1", .free, 600, 5, 4⟩, ⟨"bolt", "k2", .paid, 600, 5, 4⟩] 0).mpr
      (by decide +kernel)
  exact ⟨tenants, h, (own_queues_iff ⟨4, 0, 1, true, 16⟩ rfl _ 0 tenants h).mpr
    (Or.inl (by decide))⟩

/-- Two entries of the tenants file have the id "acme", one on each tier: a request of the paid one
waits behind one of the free one, in the queue that the free one has opened. -/
theorem own_queues_shared :
    ¬ ∀ (cfg : Config) (configs : List (TenantConfig ℚ)) (now : Instant) (tenants : Tenants ℚ),
      cfg.fair = true → Tenants.fromConfigs configs now = .ok tenants →
      ∀ calls, OwnQueues tenants (run cfg tenants calls) := by
  intro hall
  obtain ⟨tenants, h⟩ := (Tenants.fromConfigs_ok_iff (R := ℚ)
    [⟨"acme", "k1", .free, 600, 5, 4⟩, ⟨"acme", "k2", .paid, 600, 5, 4⟩] 0).mpr
      (by decide +kernel)
  have hfree := (Tenants.resolve_fromConfigs h "k1" _).mpr ⟨_, List.mem_cons_self, rfl, rfl⟩
  have hpaid := (Tenants.resolve_fromConfigs h "k2" _).mpr
    ⟨_, List.mem_cons_of_mem _ List.mem_cons_self, rfl, rfl⟩
  obtain ⟨k, -, -, -, hitems⟩ := hall ⟨4, 0, 1, true, 16⟩ _ 0 tenants rfl h
    [.submit "k1" ⟨none, false⟩ 0, .submit "k2" ⟨none, false⟩ 1] "acme" _
    (run_two rfl (by decide) hfree hpaid rfl ⟨none, false⟩)
  have hk₁ : "k1" = k := hitems _ List.mem_cons_self
  have hk₂ : "k2" = k := hitems _ (List.mem_cons_of_mem _ List.mem_cons_self)
  exact absurd (hk₁.trans hk₂.symm) (by decide)

end TenantQueues

/-! ## In the gateway -/

namespace Gateway

open Runs

variable {R : Type}

/-- What requests are queued by: the id and the tier of each tenant. -/
def State.names (s : State R) : List (String × Tier) := s.tenants.map fun t => (t.id, t.tier)

/-- The queue of `id` is that of tenant `n`. -/
def State.Belongs (s : State R) (id : String) (weight : ℚ) (items : List QueuedRequest) : Prop :=
  ∃ (n : ℕ) (tier : Tier), s.names[n]? = some (id, tier) ∧ weight = tier.weight ∧
    ∀ item ∈ items, s.requests[item.respondTo]?.any fun r => decide (r.tenant = n)

/-- Different ids, and a queue for each. -/
structure Separate (s : State R) : Prop extends Placed s where
  ids : (s.names.map Prod.fst).Nodup
  entries : FairQueue.Entries s.Belongs s.queue

theorem names_set {tenants : List (Tenant R)} {n : ℕ} {t t' : Tenant R}
    (ht : tenants[n]? = some t) (hid : t'.id = t.id) (htier : t'.tier = t.tier) :
    (tenants.set n t').map (fun t => (t.id, t.tier)) = tenants.map fun t => (t.id, t.tier) := by
  ext m : 1
  rw [List.getElem?_map, List.getElem?_map, List.getElem?_set]
  split
  · rename_i hnm
    subst hnm
    rw [ht, if_pos (List.getElem?_eq_some_iff.mp ht).1, Option.map_some, Option.map_some, hid,
      htier]
  · rfl

theorem exists_name {s : State R} {n : ℕ} {t : Tenant R} (ht : s.tenants[n]? = some t) :
    s.names[n]? = some (t.id, t.tier) := by
  rw [State.names, List.getElem?_map, ht, Option.map_some]

/-- An id is the name of one tenant. -/
theorem Separate.name_unique {s : State R} (h : Separate s) {m n : ℕ} {id : String}
    {tier tier' : Tier} (hm : s.names[m]? = some (id, tier)) (hn : s.names[n]? = some (id, tier')) :
    m = n := by
  have hm' : (s.names.map Prod.fst)[m]? = some id := by rw [List.getElem?_map, hm, Option.map_some]
  have hn' : (s.names.map Prod.fst)[n]? = some id := by rw [List.getElem?_map, hn, Option.map_some]
  exact (List.getElem?_inj (List.getElem?_eq_some_iff.mp hm').1 h.ids).mp (hm'.trans hn'.symm)

/-- The tenants of an accepted file, with different ids. -/
theorem separate_init [Max R] [Div R] [LT R] [DecidableLT R] [NatCast R] (cfg : Config)
    {configs : List (TenantConfig R)} {now : Instant} {tenants : Tenants R}
    (h : Tenants.fromConfigs configs now = .ok tenants)
    (hids : (configs.map TenantConfig.id).Nodup) : Separate (init cfg tenants.toList) where
  toPlaced := placed_init cfg _
  ids := by
    obtain ⟨-, -, hanon, hentries⟩ := Tenants.fromConfigs_ok h
    have hnames : (init cfg tenants.toList).names.map Prod.fst
        = (configs.map TenantConfig.id).reverse := by
      simp only [State.names, init, Tenants.toList, hanon, hentries, Option.toList_none,
        List.nil_append, List.map_map, List.map_reverse]
      rfl
    rw [hnames]
    exact List.nodup_reverse.mpr hids
  entries := fun id tq htq => by simp [init, FairQueue.new] at htq

theorem dropLease_names [Add R] [Sub R] [Mul R] [Min R] [NatCast R] [RatCast R] (s : State R)
    (r : Request) (now : Instant) :
    (s.dropLease r now).map (fun t => (t.id, t.tier)) = s.names := by
  unfold State.dropLease
  split
  · rename_i l t hl ht
    exact names_set ht rfl rfl
  · rfl

variable [Add R] [Sub R] [Mul R] [Min R] [LT R] [DecidableLT R] [NatCast R] [RatCast R]

/-- No step renames a tenant. -/
theorem names_step {cfg : Config} {s s' : State R} {a : Action} (hs : Stepped cfg s a s') :
    s'.names = s.names := by
  cases hs with
  | granted i now r t reserve l hr hpc ht hreserve hl =>
    exact names_set ht (t.admitLease_name now _).1 (t.admitLease_name now _).2
  | denied i now r t reserve e hr hpc ht hreserve he =>
    exact names_set ht (t.admitLease_name now _).1 (t.admitLease_name now _).2
  | notify i r hr hpc =>
    unfold State.names State.notifyOne State.setRequest
    split <;> rfl
  | settle i now r slot exit hr hpc => exact dropLease_names s r now
  | releaseBody | hangUp | skip | backendErr | discard =>
    simp [State.names, State.setRequest, State.setTask]
  | _ => rfl

/-- What is in a queue stays the same tenant's. -/
theorem State.Belongs.step {cfg : Config} {s s' : State R} {a : Action} (hs : Stepped cfg s a s')
    {id : String} {weight : ℚ} {items : List QueuedRequest} (h : s.Belongs id weight items) :
    s'.Belongs id weight items := by
  obtain ⟨n, tier, hn, hw, hitems⟩ := h
  refine ⟨n, tier, names_step hs ▸ hn, hw, fun item hitem => ?_⟩
  refine any_requests hs (fun i r r' hm hr => ?_) (hitems item hitem)
  rw [hm.tenant]
  exact hr

/-- A step keeps the queues of the tenants apart. -/
theorem Separate.step {cfg : Config} (hfair : cfg.fair = true) {s s' : State R} {a : Action}
    (h : Separate s) (hs : Stepped cfg s a s') : Separate s' where
  toPlaced := h.toPlaced.step hs
  ids := by
    rw [names_step hs]
    exact h.ids
  entries := by
    have hkept : FairQueue.Entries s'.Belongs s.queue := fun id tq htq =>
      (h.entries id tq htq).step hs
    rcases queue_cases hs with he | ⟨-, he⟩ | ⟨i, r, t, rfl, hr, ht, hq⟩
    · rw [he]
      exact hkept
    · rw [he]
      exact hkept.pop h.wf fun _ _ _ _ ⟨n, tier, hn, hw, hitems⟩ =>
        ⟨n, tier, hn, hw, fun item hitem => hitems item (List.mem_cons_of_mem _ hitem)⟩
    · -- the request is its tenant's, and so is whatever is queued by that name
      rw [State.queueKey, if_pos hfair] at hq
      have hname : s'.names[r.tenant]? = some (t.id, t.tier) := names_step hs ▸ exists_name ht
      have hmine : s'.requests[i]?.any fun r' => decide (r'.tenant = r.tenant) := by
        refine any_requests hs (fun j r₁ r₂ hm hr₁ => ?_) (by rw [hr]; simp)
        rw [hm.tenant]
        exact hr₁
      refine hq.entries hkept (fun _ => ⟨r.tenant, t.tier, hname, rfl, fun item hitem => ?_⟩)
        fun tq htq ⟨n, tier, hn, hw, hitems⟩ => ⟨n, tier, hn, hw, fun item hitem => ?_⟩
      · rw [List.mem_singleton.mp hitem]
        exact hmine
      · rcases List.mem_append.mp hitem with hitem | hitem
        · exact hitems item hitem
        · have hsame : n = r.tenant := by
            rw [names_step hs] at hn
            exact h.name_unique hn (exists_name ht)
          rw [List.mem_singleton.mp hitem, hsame]
          exact hmine

/-- Whatever the order of the steps, a request waits in a queue of its tenant's own, at the weight
of its tier, if the tenants file is accepted and has no id twice. -/
theorem own_queue_of_exec (cfg : Config) (hfair : cfg.fair = true) [Max R] [Div R]
    (configs : List (TenantConfig R)) (now : Instant) (tenants : Tenants R)
    (h : Tenants.fromConfigs configs now = .ok tenants)
    (hids : (configs.map TenantConfig.id).Nodup) (actions : List Action) (s : State R)
    (hrun : exec (step cfg) (init cfg tenants.toList) actions = some s) :
    ∀ id tq, s.queue.queues id = some tq → s.Belongs id tq.weight tq.items :=
  (exec_invariant (fun _ _ _ hs hstep => hs.step hfair (step_cases hstep))
    (separate_init cfg h hids) hrun).entries

end Gateway
end OxideGate
