import OxideGate.GatewayLeases
import OxideGate.TenantQueues

/-!
# What the gateway reports (`telemetry.rs`)

Besides the gauges that `State` has and the counts of `REQUESTS_TOTAL`, the parties report the
depth of the queue, the sizes of the batches, the queue waits, the requests that were abandoned,
and the tokens that were charged. `reports` is what each action reports. `metrics_exact` says that
the reports of a run add up to what has happened in it, whatever the order of the steps.
-/

namespace OxideGate
namespace Gateway

open Runs Tally

variable {R : Type}

/-- A report: the metric, its label and its value. -/
inductive Metric where
  /-- `QUEUE_DEPTH`, a gauge that is set. -/
  | queueDepth (n : ℕ)
  /-- `BATCH_SIZE`, one sample. -/
  | batchSize (n : ℕ)
  /-- `QUEUE_WAIT`, one sample. -/
  | queueWait (tier : String)
  /-- `ABANDONED_TOTAL`, one more. -/
  | abandoned
  /-- `TOKENS_TOTAL`, `n` more. -/
  | tokens (tenant : String) (n : UInt64)
deriving DecidableEq, Repr

namespace Metric

/-- The gauge `QUEUE_DEPTH` after a report. -/
def depth (d : ℕ) : Metric → ℕ
  | .queueDepth n => n
  | _ => d

/-- How many requests a report counts as abandoned. -/
def abandons : Metric → ℕ
  | .abandoned => 1
  | _ => 0

/-- How many requests a report counts as batched. -/
def batches : Metric → ℕ
  | .batchSize n => n
  | _ => 0

/-- How many queue waits of the tier a report samples. -/
def samples (tier : String) : Metric → ℕ
  | .queueWait tier' => if tier' = tier then 1 else 0
  | _ => 0

/-- How many tokens a report charges to the tenants called `id`. -/
def charges (id : String) : Metric → ℕ
  | .tokens id' n => if id' = id then n.toNat else 0
  | _ => 0

end Metric

/-- The recorder: a gauge has its last value, a counter the sum of its increments, a histogram the
sum of its samples or their number. -/
@[ext]
structure Recorder where
  queueDepth : ℕ
  abandoned : ℕ
  /-- The samples of `BATCH_SIZE`, summed up. -/
  batched : ℕ
  /-- The number of samples of `QUEUE_WAIT`, by tier. -/
  waits : String → ℕ
  /-- `TOKENS_TOTAL`, by tenant. -/
  tokens : String → ℕ

namespace Recorder

def new : Recorder := ⟨0, 0, 0, fun _ => 0, fun _ => 0⟩

def record (p : Recorder) : Metric → Recorder
  | .queueDepth n => { p with queueDepth := n }
  | .batchSize n => { p with batched := p.batched + n }
  | .queueWait tier => { p with waits := Function.update p.waits tier (p.waits tier + 1) }
  | .abandoned => { p with abandoned := p.abandoned + 1 }
  | .tokens tenant n =>
    { p with tokens := Function.update p.tokens tenant (p.tokens tenant + n.toNat) }

/-- Every metric is recorded on its own. -/
theorem foldl_record (p : Recorder) (ms : List Metric) :
    ms.foldl record p = ⟨ms.foldl Metric.depth p.queueDepth, p.abandoned + tally Metric.abandons ms,
      p.batched + tally Metric.batches ms,
      fun tier => p.waits tier + tally (Metric.samples tier) ms,
      fun id => p.tokens id + tally (Metric.charges id) ms⟩ := by
  induction ms generalizing p with
  | nil => rfl
  | cons m ms ih =>
    rw [List.foldl_cons, ih]
    simp only [tally_cons, ← Nat.add_assoc]
    cases m with
    | queueDepth n | batchSize n | abandoned => rfl
    | queueWait tier =>
      congr 1
      funext tier'
      by_cases h : tier = tier'
      · subst h
        simp [record, Metric.samples]
      · simp [record, Metric.samples, h, Function.update_of_ne (Ne.symm h)]
    | tokens tenant n =>
      congr 1
      funext id
      by_cases h : tenant = id
      · subst h
        simp [record, Metric.charges]
      · simp [record, Metric.charges, h, Function.update_of_ne (Ne.symm h)]

end Recorder

/-- What an action reports. -/
def State.reports (s : State R) (cfg : Config) : Action → List Metric
  | .push i =>
    match s.requests[i]? with
    | some r =>
      match s.tenants[r.tenant]? with
      | some t =>
        let key := State.queueKey cfg t
        match s.queue.push key.1 key.2 ⟨r.req, i, t.tier.asStr⟩ with
        | (.ok (), queue) => [.queueDepth queue.len]
        -- `submit` returns before the gauge is set
        | (.error _, _) => []
      | none => []
    | none => []
  | .pop =>
    .queueDepth s.queue.pop.2.len ::
      -- without a window the batch is complete
      if s.queue.pop.1.isSome ∧ cfg.window = 0 then [.batchSize (s.batch.length + 1)] else []
  | .expire _ => [.batchSize s.batch.length]
  | .dispatchNext =>
    match s.batch with
    | (item, _) :: _ => if s.hungUp item.respondTo then [.abandoned] else []
    | [] => []
  | .send k _ => (s.tasks[k]?.map fun t => Metric.queueWait t.item.tier).toList
  -- `Lease::drop`
  | .settle i _ =>
    match s.requests[i]? with
    | some r =>
      match r.lease, s.tenants[r.tenant]? with
      | .held l, some t => [.tokens t.id l.used]
      | _, _ => []
    | none => []
  | _ => []

/-! ## What has happened -/

/-- A task of the tier has called `Backend::send`. -/
def Task.begun (tier : String) (t : Task) : Bool :=
  match t.pc with
  | .ready _ => false
  | .sending _ | .responding _ | .finished => t.item.tier = tier

/-- The requests of a complete batch that are still in the hands of the scheduler. -/
def State.dealing (s : State R) : ℕ :=
  match s.pc with
  | .dispatch => s.batch.length
  | .acquireFor _ => s.batch.length + 1
  | .acquire | .next _ _ | .collect => 0

/-- The tokens that a lease has been charged, if it is a tenant's called `id` and is dropped. -/
def State.charged (s : State R) (id : String) (c : ℕ × LeaseCell) : ℕ :=
  match c.2 with
  | .settled l => if s.names[c.1]?.any (fun n => n.1 = id) then l.used.toNat else 0
  | .none | .held _ => 0

/-- What the recorder has to show. -/
def State.recorder (s : State R) : Recorder where
  queueDepth := s.queue.len
  abandoned := s.skipped.length
  batched := s.tasks.length + s.skipped.length + s.dealing
  waits tier := s.tasks.countP (Task.begun tier)
  tokens id := tally (s.charged id) s.cells

/-! ## Who reports what -/

/-- The actions that report a metric: each has one place, the queue and the batches have two. -/
def Metric.ReportedBy (a : Action) : Metric → Prop
  | .queueDepth _ => (∃ i, a = .push i) ∨ a = .pop
  | .batchSize _ => a = .pop ∨ ∃ forward, a = .expire forward
  | .queueWait _ => ∃ k g, a = .send k g
  | .abandoned => a = .dispatchNext
  | .tokens _ _ => ∃ i now, a = .settle i now

/-- Nobody else reports it. -/
theorem reportedBy_of_mem {cfg : Config} {s : State R} {a : Action} {m : Metric}
    (hm : m ∈ s.reports cfg a) : m.ReportedBy a := by
  cases a with
  | push i =>
    simp only [State.reports] at hm
    split at hm
    · split at hm
      · split at hm
        · rw [List.mem_singleton.mp hm]
          exact Or.inl ⟨i, rfl⟩
        · exact absurd hm List.not_mem_nil
      · exact absurd hm List.not_mem_nil
    · exact absurd hm List.not_mem_nil
  | pop =>
    rcases List.mem_cons.mp hm with rfl | hm
    · exact Or.inr rfl
    · split at hm
      · rw [List.mem_singleton.mp hm]
        exact Or.inl rfl
      · exact absurd hm List.not_mem_nil
  | expire forward =>
    rw [List.mem_singleton.mp hm]
    exact Or.inr ⟨forward, rfl⟩
  | dispatchNext =>
    simp only [State.reports] at hm
    split at hm
    · split at hm
      · rw [List.mem_singleton.mp hm]
        rfl
      · exact absurd hm List.not_mem_nil
    · exact absurd hm List.not_mem_nil
  | send k g =>
    simp only [State.reports, Option.mem_toList, Option.map_eq_some_iff] at hm
    obtain ⟨t, -, rfl⟩ := hm
    exact ⟨k, g, rfl⟩
  | settle i now =>
    simp only [State.reports] at hm
    split at hm
    · split at hm
      · rw [List.mem_singleton.mp hm]
        exact ⟨i, now, rfl⟩
      · exact absurd hm List.not_mem_nil
    · exact absurd hm List.not_mem_nil
  | _ => exact absurd hm List.not_mem_nil

/-- The gauge of the queue is left alone by all but `push` and `pop`. -/
theorem depth_quiet {cfg : Config} {s : State R} {a : Action} (hpush : ∀ i, a ≠ .push i)
    (hpop : a ≠ .pop) (d : ℕ) : (s.reports cfg a).foldl Metric.depth d = d := by
  have hnone : ∀ m ∈ s.reports cfg a, m.depth d = d := by
    intro m hm
    cases m with
    | queueDepth n =>
      rcases reportedBy_of_mem hm with ⟨i, ha⟩ | ha
      · exact absurd ha (hpush i)
      · exact absurd ha hpop
    | _ => rfl
  generalize s.reports cfg a = ms at hnone
  induction ms with
  | nil => rfl
  | cons m ms ih =>
    rw [List.foldl_cons, hnone m List.mem_cons_self]
    exact ih fun m hm => hnone m (List.mem_cons_of_mem _ hm)

/-- Only the loop over the batch counts abandoned requests. -/
theorem abandons_quiet {cfg : Config} {s : State R} {a : Action} (ha : a ≠ .dispatchNext) :
    tally Metric.abandons (s.reports cfg a) = 0 := by
  refine tally_eq_zero.mpr fun m hm => ?_
  cases m with
  | abandoned => exact absurd (reportedBy_of_mem hm) ha
  | _ => rfl

/-- Batches are complete when they are popped, or when their window ends. -/
theorem batches_quiet {cfg : Config} {s : State R} {a : Action} (hpop : a ≠ .pop)
    (hexpire : ∀ forward, a ≠ .expire forward) : tally Metric.batches (s.reports cfg a) = 0 := by
  refine tally_eq_zero.mpr fun m hm => ?_
  cases m with
  | batchSize n =>
    rcases reportedBy_of_mem hm with ha | ⟨forward, ha⟩
    · exact absurd ha hpop
    · exact absurd ha (hexpire forward)
  | _ => rfl

/-- Queue waits are sampled where `dispatch` begins. -/
theorem samples_quiet {cfg : Config} {s : State R} {a : Action} (ha : ∀ k g, a ≠ .send k g)
    (tier : String) : tally (Metric.samples tier) (s.reports cfg a) = 0 := by
  refine tally_eq_zero.mpr fun m hm => ?_
  cases m with
  | queueWait tier' =>
    obtain ⟨k, g, he⟩ := reportedBy_of_mem hm
    exact absurd he (ha k g)
  | _ => rfl

/-- Tokens are counted where a lease is dropped. -/
theorem charges_quiet {cfg : Config} {s : State R} {a : Action} (ha : ∀ i now, a ≠ .settle i now)
    (id : String) : tally (Metric.charges id) (s.reports cfg a) = 0 := by
  refine tally_eq_zero.mpr fun m hm => ?_
  cases m with
  | tokens id' n =>
    obtain ⟨i, now, he⟩ := reportedBy_of_mem hm
    exact absurd he (ha i now)
  | _ => rfl

/-! ## Tasks that have begun -/

/-- One task changes. -/
theorem begun_set {tasks : List Task} {k : ℕ} {t : Task} (ht : tasks[k]? = some t) (t' : Task)
    (tier : String) : (tasks.set k t').countP (Task.begun tier) + (t.begun tier).toNat
      = tasks.countP (Task.begun tier) + (t'.begun tier).toNat := by
  rw [← tally_toNat, ← tally_toNat]
  exact tally_set _ ht t'

/-- A task that has called `Backend::send`, or has not, and goes on. -/
theorem begun_set_eq {tasks : List Task} {k : ℕ} {t t' : Task} (ht : tasks[k]? = some t)
    {tier : String} (h : t'.begun tier = t.begun tier) :
    (tasks.set k t').countP (Task.begun tier) = tasks.countP (Task.begun tier) := by
  have hset := begun_set ht t' tier
  rw [h] at hset
  omega

/-- `notify_one` reports nothing. -/
theorem notifyOne_recorded (s : State R) : s.notifyOne.skipped = s.skipped ∧
    s.notifyOne.tasks = s.tasks ∧ s.notifyOne.dealing = s.dealing := by
  unfold State.notifyOne
  split
  · rename_i slot hpc
    exact ⟨rfl, rfl, by simp [State.dealing, hpc]⟩
  · exact ⟨rfl, rfl, rfl⟩

variable [Add R] [Sub R] [Mul R] [Min R] [LT R] [DecidableLT R] [NatCast R] [RatCast R]

/-! ## Tokens -/

omit [Add R] [Sub R] [Mul R] [Min R] [LT R] [DecidableLT R] [NatCast R] [RatCast R] in
/-- What a lease is charged depends on the names of the tenants only. -/
theorem charged_congr {s s' : State R} (hnames : s'.names = s.names) (id : String) :
    s'.charged id = s.charged id := by
  funext c
  unfold State.charged
  rw [hnames]

/-- Only a lease that is dropped is charged. -/
theorem tokens_kept {cfg : Config} {s s' : State R} {a : Action} (hhandled : Handled s)
    (hhoused : Housed s) (hs : Stepped cfg s a s') (hsettle : ∀ i now, a ≠ .settle i now)
    (id : String) : tally (s'.charged id) s'.cells = tally (s.charged id) s.cells := by
  rw [charged_congr (names_step hs)]
  cases leases_cases hhandled hhoused hs with
  | same htenants hcells => rw [hcells]
  | arrived n htenants hcells =>
    rw [hcells, tally_append, tally_cons, tally_nil]
    rfl
  | admitted i now n t reserve hcell ht htenants hcells =>
    rw [hcells]
    split
    · exact tally_set_eq hcell rfl
    · rfl
  | recorded i n l k hcell htenants hcells =>
    rw [hcells]
    exact tally_set_eq hcell rfl
  | dropped i now n t l hcell ht htenants hcells => exact absurd rfl (hsettle i now)

/-! ## What a step does to each metric -/

/-- The gauge of the queue is set where the queue changes. -/
theorem depth_step {cfg : Config} {s s' : State R} {a : Action} (hs : Stepped cfg s a s') :
    s'.queue.len = (s.reports cfg a).foldl Metric.depth s.queue.len := by
  cases hs with
  | pushed i r t queue hr hpc ht hroom hq =>
    obtain ⟨hfull, -⟩ | ⟨-, queue', he, hq'⟩ := FairQueue.push_cases s.queue
      (State.queueKey cfg t).1 (State.queueKey cfg t).2 ⟨r.req, i, t.tier.asStr⟩
    · omega
    · simp only [State.reports, hr, ht, he]
      exact hq.len.1.trans hq'.len.1.symm
  | queueFull i r hr hpc hfull =>
    simp only [State.reports, hr]
    cases s.tenants[r.tenant]? with
    | none => rfl
    | some t =>
      obtain ⟨-, he⟩ | ⟨hroom, -⟩ := FairQueue.push_cases s.queue
        (State.queueKey cfg t).1 (State.queueKey cfg t).2 ⟨r.req, i, t.tier.asStr⟩
      · simp only [he]
        rfl
      · omega
  | popped slot item hpc hq | popEmpty slot hpc hq =>
    rw [State.reports, List.foldl_cons]
    by_cases hbatch : s.queue.pop.1.isSome ∧ cfg.window = 0
    · rw [if_pos hbatch]
      rfl
    · rw [if_neg hbatch]
      rfl
  | notify i r hr hpc =>
    rw [depth_quiet (by simp) (by simp), State.setRequest, (notifyOne_queue s).1]
  | releaseBody | hangUp | settle | skip | backendErr | discard =>
    rw [depth_quiet (by simp) (by simp)]
    simp [State.setRequest, State.setTask, State.settle]
  | _ => exact (depth_quiet (by simp) (by simp) _).symm

/-- Who is skipped is counted as abandoned. -/
theorem abandoned_step {cfg : Config} {s s' : State R} {a : Action} (hs : Stepped cfg s a s') :
    s'.skipped.length = s.skipped.length + tally Metric.abandons (s.reports cfg a) := by
  cases hs with
  | skip item slot rest r hpc hbatch hr hchan =>
    have hreports : s.reports cfg .dispatchNext = [.abandoned] := by
      simp [State.reports, hbatch, State.hungUp, hr, Request.hungUp, hchan]
    rw [hreports, State.dropSlot?_skipped, List.length_append]
    rfl
  | batchDone hpc hbatch => simp only [State.reports, hbatch, tally_nil, Nat.add_zero]
  | spawn item slot rest r hpc hbatch hr hchan | await item rest r hpc hbatch hr hchan =>
    simp [State.reports, hbatch, State.hungUp, hr, Request.hungUp, hchan]
  | notify i r hr hpc =>
    rw [abandons_quiet (by simp), State.setRequest, (notifyOne_recorded s).1, Nat.add_zero]
  | releaseBody | hangUp | settle | backendErr | discard =>
    rw [abandons_quiet (by simp)]
    simp [State.setRequest, State.setTask, State.settle]
  | _ =>
    show s.skipped.length = _
    rw [abandons_quiet (by simp), Nat.add_zero]

/-- The size of a batch is reported when it is complete: what is dealt with from then on. -/
theorem batched_step {cfg : Config} {s s' : State R} {a : Action} (hs : Stepped cfg s a s') :
    s'.tasks.length + s'.skipped.length + s'.dealing
      = s.tasks.length + s.skipped.length + s.dealing
        + tally Metric.batches (s.reports cfg a) := by
  cases hs with
  | popped slot item hpc hq =>
    by_cases hwindow : cfg.window = 0
    · simp [State.dealing, State.reports, Metric.batches, hpc, hq, hwindow]
    · simp [State.dealing, State.reports, Metric.batches, hpc, hwindow]
  | popEmpty slot hpc hq =>
    simp [State.dealing, State.reports, Metric.batches, hpc, hq]
  | deadline forward hpc | expire woken forward hpc =>
    simp [State.dealing, State.reports, Metric.batches, hpc]
  | skip item slot rest r hpc hbatch hr hchan =>
    rw [batches_quiet (by simp) (by simp)]
    simp only [State.dealing, hpc, hbatch, State.dropSlot?_tasks, State.dropSlot?_skipped,
      State.dropSlot?_pc, State.dropSlot?_batch, List.length_append, List.length_cons,
      List.length_nil]
    omega
  | batchDone hpc hbatch =>
    rw [batches_quiet (by simp) (by simp)]
    simp only [State.dealing, hpc, hbatch, List.length_nil]
  | spawn item slot rest r hpc hbatch hr hchan | await item rest r hpc hbatch hr hchan =>
    rw [batches_quiet (by simp) (by simp)]
    simp only [State.dealing, hpc, hbatch, List.length_append, List.length_cons, List.length_nil]
    omega
  | acquireFor item slot free hpc hslot =>
    rw [batches_quiet (by simp) (by simp)]
    simp only [State.dealing, hpc, List.length_append, List.length_cons, List.length_nil]
    omega
  | acquire slot free hpc | consume slot hpc | park slot hpc | wake slot hpc | again hpc =>
    rw [batches_quiet (by simp) (by simp)]
    simp only [State.dealing, hpc, Nat.add_zero]
  | notify i r hr hpc =>
    obtain ⟨hskipped, htasks, hdealing⟩ := notifyOne_recorded s
    rw [batches_quiet (by simp) (by simp)]
    show s.notifyOne.tasks.length + s.notifyOne.skipped.length + s.notifyOne.dealing = _
    rw [htasks, hskipped, hdealing, Nat.add_zero]
  | releaseBody | hangUp | settle | send | backendOk | backendErr | deliver | discard =>
    rw [batches_quiet (by simp) (by simp)]
    simp [State.setRequest, State.setTask, State.settle, State.send, State.dealing]
  | _ =>
    show s.tasks.length + s.skipped.length + s.dealing = _
    rw [batches_quiet (by simp) (by simp), Nat.add_zero]

/-- The queue wait of a request is sampled when its task calls `Backend::send`. -/
theorem waits_step {cfg : Config} {s s' : State R} {a : Action} (hs : Stepped cfg s a s')
    (tier : String) : s'.tasks.countP (Task.begun tier)
      = s.tasks.countP (Task.begun tier) + tally (Metric.samples tier) (s.reports cfg a) := by
  cases hs with
  | send k g t slot r ht hpc hr =>
    have hset := begun_set ht { t with pc := .sending slot } tier
    have hreports : s.reports cfg (.send k g) = [.queueWait t.item.tier] := by
      simp only [State.reports, ht, Option.map_some, Option.toList_some]
    have hbefore : t.begun tier = false := by rw [Task.begun, hpc]
    have hafter : (Task.begun tier { t with pc := .sending slot }).toNat
        = Metric.samples tier (.queueWait t.item.tier) := by
      by_cases htier : t.item.tier = tier <;> simp [Task.begun, Metric.samples, htier]
    rw [hbefore, hafter] at hset
    rw [hreports, tally_cons, tally_nil]
    exact hset
  | spawn | acquireFor =>
    rw [samples_quiet (by simp), List.countP_append]
    rfl
  | backendOk k t slot ht hpc | deliver k t reply r ht hpc =>
    rw [samples_quiet (by simp)]
    exact begun_set_eq ht (by rw [Task.begun, Task.begun, hpc])
  | backendErr k e t slot ht hpc | discard k t reply r ht hpc =>
    rw [samples_quiet (by simp)]
    simp only [State.setTask, State.dropSlot?_tasks]
    exact begun_set_eq ht (by rw [Task.begun, Task.begun, hpc])
  | notify i r hr hpc =>
    rw [samples_quiet (by simp), State.setRequest, (notifyOne_recorded s).2.1, Nat.add_zero]
  | releaseBody | hangUp | settle | skip =>
    rw [samples_quiet (by simp)]
    simp [State.setRequest, State.settle]
  | _ =>
    show s.tasks.countP (Task.begun tier) = _
    rw [samples_quiet (by simp), Nat.add_zero]

/-- A tenant is charged when one of its leases is dropped. -/
theorem tokens_step {cfg : Config} {s s' : State R} {a : Action} (hhandled : Handled s)
    (hhoused : Housed s) (hs : Stepped cfg s a s') (id : String) :
    tally (s'.charged id) s'.cells
      = tally (s.charged id) s.cells + tally (Metric.charges id) (s.reports cfg a) := by
  by_cases hsettle : ∀ i now, a ≠ .settle i now
  · rw [charges_quiet hsettle, Nat.add_zero]
    exact tokens_kept hhandled hhoused hs hsettle id
  · simp only [not_forall, not_not] at hsettle
    obtain ⟨i, now, rfl⟩ := hsettle
    cases hs with
    | settle _ _ r slot exit hr hpc =>
      have hheld := hhandled.coherent i r hr
      rw [Request.Coherent, hpc] at hheld
      obtain ⟨l, hl⟩ := LeaseCell.exists_of_isHeld hheld.1
      obtain ⟨t, ht⟩ := hhoused.exists_tenant hr
      have hreports : s.reports cfg (.settle i now) = [.tokens t.id l.used] := by
        simp only [State.reports, hr, hl, ht]
      have hcell : s.cells[i]? = some (r.tenant, .held l) := by
        rw [cells_getElem? hr, Request.cell, hl]
      have hcells : (s.settle i r slot exit now).cells = s.cells.set i (r.tenant, .settled l) := by
        refine List.map_set.trans ?_
        rw [Request.cell, hl]
        rfl
      have hname : s.names[r.tenant]? = some (t.id, t.tier) := by
        rw [State.names, List.getElem?_map, ht]
        rfl
      have hcharge : s.charged id (r.tenant, .settled l)
          = Metric.charges id (.tokens t.id l.used) := by
        simp [State.charged, Metric.charges, hname]
      have hnames : (s.settle i r slot exit now).names = s.names := dropLease_names s r now
      have hset := tally_set (s.charged id) hcell (r.tenant, .settled l)
      rw [charged_congr hnames, hcells, hreports, tally_cons, tally_nil, ← hcharge]
      exact hset

/-- What a step reports is what it changes. -/
theorem recorder_step {cfg : Config} {s s' : State R} {a : Action} (hhandled : Handled s)
    (hhoused : Housed s) (hs : Stepped cfg s a s') :
    s'.recorder = (s.reports cfg a).foldl Recorder.record s.recorder := by
  rw [Recorder.foldl_record]
  exact Recorder.ext (depth_step hs) (abandoned_step hs) (batched_step hs)
    (funext (waits_step hs)) (funext (tokens_step hhandled hhoused hs))

/-! ## Runs -/

/-- The reports of a run add up to what has happened in it. -/
theorem recorder_of_exec {cfg : Config} {tenants : List (Tenant R)} {actions : List Action}
    {s : State R} (hrun : exec (step cfg) (init cfg tenants) actions = some s) :
    (outputs (step cfg) (fun u a => u.reports cfg a) (init cfg tenants) actions).foldl
      Recorder.record .new = s.recorder := by
  have hkept : ∀ (ms : List Metric) (u : State R) (a : Action) (v : State R),
      (Handled u ∧ Housed u ∧ ms.foldl Recorder.record .new = u.recorder) →
      Gateway.step cfg u a = some v → Handled v ∧ Housed v ∧
        (ms ++ u.reports cfg a).foldl Recorder.record .new = v.recorder := by
    rintro ms u a v ⟨hhandled, hhoused, hms⟩ hstep
    have hs := step_cases hstep
    refine ⟨hhandled.step hs, hhoused.step hs, ?_⟩
    rw [List.foldl_append, hms, recorder_step hhandled hhoused hs]
  refine (exec_invariant_outputs hkept ⟨handled_init cfg tenants, ?_, ?_⟩ hrun).2.2
  · exact fun _ hr => absurd hr List.not_mem_nil
  · rfl

/-- The metrics tell what has happened, whatever the order of the steps: the gauge of the queue is
its length, each request that was skipped is counted as abandoned, the sizes of the batches add up
to the requests that were dealt with, each request has its queue wait sampled when it is sent, and
a tenant's tokens are those of its leases that are dropped. -/
theorem metrics_exact (cfg : Config) (tenants : List (Tenant R)) (actions : List Action)
    (s : State R) (hrun : exec (step cfg) (init cfg tenants) actions = some s) :
    let p := (outputs (step cfg) (fun u a => u.reports cfg a) (init cfg tenants) actions).foldl
      Recorder.record .new
    p.queueDepth = s.queue.len ∧ p.abandoned = s.skipped.length ∧
    p.batched = s.tasks.length + s.skipped.length + s.dealing ∧
    (∀ tier, p.waits tier = s.tasks.countP (Task.begun tier)) ∧
    ∀ id, p.tokens id = tally (s.charged id) s.cells := by
  intro p
  have hp : p = s.recorder := recorder_of_exec hrun
  rw [hp]
  exact ⟨rfl, rfl, rfl, fun _ => rfl, fun _ => rfl⟩

/-- Two requests in a batch, one of which is skipped. -/
theorem metrics_exact_skipped :
    let actions : List Action := [.arrive 0 ⟨some 8, false⟩, .admission 0 0, .push 0, .notify 0,
      .acquire, .pop, .arrive 0 ⟨some 8, false⟩, .admission 1 0, .push 1, .notify 1, .again, .pop,
      .disconnect 1, .settle 1 1, .expire false, .dispatchNext, .dispatchNext, .send 0 3,
      .backendOk 0, .deliver 0, .receive 0, .bodyOk 0 3, .releaseBody 0, .settle 0 2]
    let p := (outputs (Gateway.step ⟨2, 5, 1, true, 16⟩)
      (fun u a => u.reports ⟨2, 5, 1, true, 16⟩ a)
      (init ⟨2, 5, 1, true, 16⟩ [.fromConfig (R := ℚ) ⟨"acme", "key", .paid, 600, 5, 4⟩ 0])
      actions).foldl Recorder.record .new
    p.batched = 2 ∧ p.abandoned = 1 ∧ p.waits "paid" = 1 ∧ p.tokens "acme" = 3 := by
  intro actions p
  have hrun : (exec (Gateway.step ⟨2, 5, 1, true, 16⟩)
      (init ⟨2, 5, 1, true, 16⟩ [.fromConfig ⟨"acme", "key", .paid, 600, 5, 4⟩ 0]) actions).map
        (fun s : State ℚ => (s.tasks.length + s.skipped.length + s.dealing, s.skipped.length,
          s.tasks.countP (Task.begun "paid"), tally (s.charged "acme") s.cells))
          = some (2, 1, 1, 3) := by
    decide +kernel
  obtain ⟨s, hs, hfigures⟩ := Option.map_eq_some_iff.mp hrun
  simp only [Prod.mk.injEq] at hfigures
  obtain ⟨hbatched, hskipped, hwaits, htokens⟩ := hfigures
  obtain ⟨-, habandoned, hsizes, hsamples, hcharged⟩ := metrics_exact _ _ actions s hs
  exact ⟨hsizes.trans hbatched, habandoned.trans hskipped, (hsamples "paid").trans hwaits,
    (hcharged "acme").trans htokens⟩

end Gateway
end OxideGate
