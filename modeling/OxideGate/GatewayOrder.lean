import OxideGate.FairQueueFifo
import OxideGate.GatewayWaiting
import OxideGate.Lib.Lane
import OxideGate.TenantQueues

/-!
# The order of the requests

Requests that are queued by one key leave the queue in the order in which they were accepted, and
the scheduler spawns their dispatch tasks in that order too, whatever the other parties do in
between. `line_cases` says how a step moves a request along; `InLine` is the invariant.
-/

namespace OxideGate
namespace Gateway

open Runs

variable {R : Type}

namespace State

variable (s : State R)

/-- The key that request `i` is queued by. -/
def keyOf (cfg : Config) (i : ℕ) : Option String :=
  s.requests[i]?.bind fun r => s.names[r.tenant]?.map fun n => if cfg.fair then n.1 else ""

/-- The requests that have a dispatch task, in the order of the tasks. -/
def spawned : List ℕ := s.tasks.map fun t => t.item.respondTo

/-- The requests in the hands of the scheduler, the next one first. -/
def inHand : List ℕ := (s.pc.items ++ s.batch.map Prod.fst).map QueuedRequest.respondTo

/-- The requests that have left the queue. -/
def taken : List ℕ := s.spawned ++ s.skipped ++ s.inHand

/-- The requests that wait under a key, the first one first. -/
def waitingFor (key : String) : List ℕ := (s.queue.backlog key).map QueuedRequest.respondTo

/-- Those of `l` that are queued by `key`. -/
def mine (cfg : Config) (key : String) (l : List ℕ) : List ℕ :=
  l.filter fun i => s.keyOf cfg i = some key

/-- The calls that an action makes on the queue. A `push` that the queue refuses is left out. -/
def calls (cfg : Config) : Action → List (FairQueue.Op String QueuedRequest)
  | .push i =>
    if s.queue.capacity ≤ s.queue.len then []
    else
      (s.requests[i]?.bind fun r => s.tenants[r.tenant]?.map fun t =>
        FairQueue.Op.push (queueKey cfg t).1 (queueKey cfg t).2 ⟨r.req, i, t.tier.asStr⟩).toList
  | .pop => [.pop]
  | _ => []

/-- Where the accepted requests are. -/
def line := (s.spawned, s.skipped, s.inHand, s.accepted, s.queue)

end State

theorem keyOf_eq {s : State R} {i : ℕ} {r : Request} {t : Tenant R} (cfg : Config)
    (hr : s.requests[i]? = some r) (ht : s.tenants[r.tenant]? = some t) :
    s.keyOf cfg i = some (State.queueKey cfg t).1 := by
  rw [State.keyOf, hr, Option.bind_some, exists_name ht, Option.map_some, State.queueKey]
  split <;> rfl

theorem spawned_set {tasks : List Task} {k : ℕ} {t : Task} (ht : tasks[k]? = some t) (pc : TaskPc) :
    (tasks.set k { t with pc := pc }).map (fun t => t.item.respondTo)
      = tasks.map fun t => t.item.respondTo :=
  Tally.map_set_eq ht rfl

variable [Add R] [Sub R] [Mul R] [Min R] [LT R] [DecidableLT R] [NatCast R] [RatCast R]

/-- A request keeps its key. -/
theorem keyOf_step {cfg : Config} {s s' : State R} {a : Action} (hs : Stepped cfg s a s') {i : ℕ}
    {k : String} (h : s.keyOf cfg i = some k) : s'.keyOf cfg i = some k := by
  rw [State.keyOf, Option.bind_eq_some_iff] at h
  obtain ⟨r, hr, hk⟩ := h
  have hsame : s'.requests[i]?.any fun r' => decide (r'.tenant = r.tenant) := by
    refine any_requests hs (fun j r₁ r₂ hm hr₁ => ?_) (by rw [hr]; simp)
    rw [hm.tenant]
    exact hr₁
  cases hr' : s'.requests[i]? with
  | none =>
    rw [hr'] at hsame
    exact absurd hsame (by simp)
  | some r' =>
    rw [hr', Option.any_some, decide_eq_true_eq] at hsame
    rw [State.keyOf, hr', Option.bind_some, names_step hs, hsame]
    exact hk

/-- How the requests move along, with the calls on the queue that this takes. -/
inductive LineMove (cfg : Config) (s s' : State R) :
    List (FairQueue.Op String QueuedRequest) → Prop
  | stay (hline : s'.line = s.line) : LineMove cfg s s' []
  | push (i : ℕ) (r : Request) (t : Tenant R) (queue : FairQueue String QueuedRequest)
      (hr : s.requests[i]? = some r) (ht : s.tenants[r.tenant]? = some t)
      (hq : FairQueue.Pushed s.queue (State.queueKey cfg t).1 (State.queueKey cfg t).2
        ⟨r.req, i, t.tier.asStr⟩ queue)
      (hroom : s.queue.len < s.queue.capacity)
      (hline : s'.line = (s.spawned, s.skipped, s.inHand, s.accepted ++ [i], queue)) :
      LineMove cfg s s' [.push (State.queueKey cfg t).1 (State.queueKey cfg t).2
        ⟨r.req, i, t.tier.asStr⟩]
  | pop (item : QueuedRequest) (hq : s.queue.pop.1 = some item)
      (hline : s'.line = (s.spawned, s.skipped, s.inHand ++ [item.respondTo], s.accepted,
        s.queue.pop.2)) : LineMove cfg s s' [.pop]
  | popEmpty (hq : s.queue.pop.1 = none)
      (hline : s'.line = (s.spawned, s.skipped, s.inHand, s.accepted, s.queue.pop.2)) :
      LineMove cfg s s' [.pop]
  | skip (i : ℕ) (rest : List ℕ) (hhand : s.inHand = i :: rest)
      (hline : s'.line = (s.spawned, s.skipped ++ [i], rest, s.accepted, s.queue)) :
      LineMove cfg s s' []
  | spawn (i : ℕ) (rest : List ℕ) (hhand : s.inHand = i :: rest)
      (hline : s'.line = (s.spawned ++ [i], s.skipped, rest, s.accepted, s.queue)) :
      LineMove cfg s s' []

/-- What a step does to those in line, by what it calls. -/
theorem line_cases {cfg : Config} {s s' : State R} {a : Action} (hs : Stepped cfg s a s') :
    LineMove cfg s s' (s.calls cfg a) := by
  cases hs with
  | pushed i r t queue hr hpc ht hroom hq =>
    have hcalls : s.calls cfg (.push i) = [.push (State.queueKey cfg t).1
        (State.queueKey cfg t).2 ⟨r.req, i, t.tier.asStr⟩] := by
      rw [State.calls, if_neg (by omega), hr, Option.bind_some, ht]
      rfl
    rw [hcalls]
    exact .push i r t queue hr ht hq hroom rfl
  | queueFull i r hr hpc hfull =>
    rw [State.calls, if_pos hfull]
    exact .stay rfl
  | notify i r hr hpc =>
    apply LineMove.stay
    obtain ⟨hqueue, hitems⟩ := notifyOne_queue s
    unfold State.line State.spawned State.inHand
    simp only [State.setRequest, hqueue, hitems]
    unfold State.notifyOne
    split <;> rfl
  | popped slot item hpc hq =>
    apply LineMove.pop item hq
    have hitems : (if cfg.window = 0 then SchedPc.dispatch else .collect).items = [] := by
      split <;> rfl
    have hbefore : s.pc.items = [] := by rw [hpc]; rfl
    simp only [State.line, State.spawned, State.inHand, hitems, hbefore, List.map_append,
      List.nil_append]
    rfl
  | popEmpty slot hpc hq =>
    apply LineMove.popEmpty hq
    simp only [State.line, State.spawned, State.inHand, hpc, SchedPc.items]
  | skip item slot rest r hpc hbatch hr hchan =>
    apply LineMove.skip item.respondTo (rest.map fun e => e.1.respondTo)
    · simp [State.inHand, hpc, hbatch, SchedPc.items]
    · simp [State.line, State.spawned, State.inHand, hpc, SchedPc.items]
  | spawn item slot rest r hpc hbatch hr hchan =>
    apply LineMove.spawn item.respondTo (rest.map fun e => e.1.respondTo)
    · simp [State.inHand, hpc, hbatch, SchedPc.items]
    · simp [State.line, State.spawned, State.inHand, SchedPc.items]
  | await item rest r hpc hbatch hr hchan =>
    apply LineMove.stay
    simp [State.line, State.spawned, State.inHand, hpc, hbatch, SchedPc.items]
  | acquireFor item slot free hpc hslot =>
    apply LineMove.spawn item.respondTo (s.batch.map fun e => e.1.respondTo)
    · simp [State.inHand, hpc, SchedPc.items]
    · simp [State.line, State.spawned, State.inHand, SchedPc.items]
  | send k g t slot r ht hpc hr =>
    apply LineMove.stay
    simp only [State.line, State.spawned, State.inHand, State.send, spawned_set ht]
  | backendOk k t slot ht hpc =>
    apply LineMove.stay
    simp only [State.line, State.spawned, State.inHand, State.setTask, spawned_set ht]
  | backendErr k e t slot ht hpc =>
    apply LineMove.stay
    simp only [State.line, State.spawned, State.inHand, State.setTask, State.dropSlot?_tasks,
      State.dropSlot?_skipped, State.dropSlot?_pc, State.dropSlot?_batch, State.dropSlot?_accepted,
      State.dropSlot?_queue, spawned_set ht]
  | deliver k t reply r ht hpc hr hchan =>
    apply LineMove.stay
    simp only [State.line, State.spawned, State.inHand, spawned_set ht]
  | discard k t reply r ht hpc hr hchan =>
    apply LineMove.stay
    simp only [State.line, State.spawned, State.inHand, State.dropSlot?_tasks,
      State.dropSlot?_skipped, State.dropSlot?_pc, State.dropSlot?_batch, State.dropSlot?_accepted,
      State.dropSlot?_queue, spawned_set ht]
  | releaseBody | hangUp | settle =>
    apply LineMove.stay
    simp [State.line, State.spawned, State.inHand, State.setRequest, State.settle]
  | acquire | consume | park | wake | again | deadline | expire | batchDone =>
    apply LineMove.stay
    simp_all [State.line, State.spawned, State.inHand, SchedPc.items]
  | _ => exact .stay rfl

/-! ## The invariant -/

omit [Add R] [Sub R] [Mul R] [Min R] [LT R] [DecidableLT R] [NatCast R] [RatCast R] in
theorem mine_append (s : State R) (cfg : Config) (key : String) (l l' : List ℕ) :
    s.mine cfg key (l ++ l') = s.mine cfg key l ++ s.mine cfg key l' :=
  List.filter_append _ _

/-- No step changes whose a request is. -/
theorem mine_step {cfg : Config} {s s' : State R} {a : Action} (hs : Stepped cfg s a s')
    (key : String) {l : List ℕ} (hl : ∀ i ∈ l, (s.keyOf cfg i).isSome) :
    s'.mine cfg key l = s.mine cfg key l := by
  apply List.filter_congr
  intro i hi
  obtain ⟨k, hk⟩ := Option.isSome_iff_exists.mp (hl i hi)
  rw [hk, keyOf_step hs hk]

/-- The requests of each key stand in a lane, which leads from the queue through the hands of the
scheduler to a dispatch task, or out. -/
structure InLine (cfg : Config) (s : State R) : Prop extends Placed s where
  keyed : ∀ i ∈ s.accepted ++ s.taken, (s.keyOf cfg i).isSome
  waiting : ∀ key, ∀ i ∈ s.waitingFor key, s.keyOf cfg i = some key
  lane : ∀ key, Lane (s.mine cfg key s.spawned) (s.mine cfg key s.skipped)
    (s.mine cfg key s.inHand) (s.waitingFor key) (s.mine cfg key s.accepted)

section Lists

omit [Add R] [Sub R] [Mul R] [Min R] [LT R] [DecidableLT R] [NatCast R] [RatCast R]

theorem inLine_init (cfg : Config) (tenants : List (Tenant R)) :
    InLine cfg (init cfg tenants) where
  toPlaced := placed_init cfg tenants
  keyed := fun _ hi => absurd hi List.not_mem_nil
  waiting := fun _ _ hi => absurd hi List.not_mem_nil
  lane := fun _ => Lane.start

/-- A request that is pushed waits behind the others of its key. -/
theorem waitingFor_pushed {cfg : Config} {s s' : State R} {weight : ℚ} {key₀ : String}
    {item : QueuedRequest} (hkey : s.keyOf cfg item.respondTo = some key₀)
    (hq : FairQueue.Pushed s.queue key₀ weight item s'.queue) (key : String) :
    s'.waitingFor key = s.waitingFor key ++ s.mine cfg key [item.respondTo] := by
  simp only [State.waitingFor, State.mine, List.filter_singleton, hkey, Option.some.injEq]
  by_cases hk : key₀ = key
  · subst hk
    rw [hq.backlog.1, List.map_append, List.map_singleton]
    simp
  · rw [hq.backlog.2 key (Ne.symm hk)]
    simp [hk]

/-- The request that is popped was the first one of its key. -/
theorem InLine.waitingFor_popped {cfg : Config} {s s' : State R} (h : InLine cfg s)
    {item : QueuedRequest} (hq : s.queue.pop.1 = some item) (hqueue : s'.queue = s.queue.pop.2) :
    (s.keyOf cfg item.respondTo).isSome ∧ ∀ key,
      s.waitingFor key = s.mine cfg key [item.respondTo] ++ s'.waitingFor key := by
  have hpop := FairQueue.pop_backlog h.wf
  rw [hq] at hpop
  obtain ⟨key₀, hfront, hothers⟩ := hpop
  have hkey : s.keyOf cfg item.respondTo = some key₀ := by
    apply h.waiting
    rw [State.waitingFor, hfront]
    exact List.mem_cons_self
  refine ⟨by rw [hkey]; rfl, fun key => ?_⟩
  simp only [State.waitingFor, State.mine, hqueue, List.filter_singleton, hkey, Option.some.injEq]
  by_cases hk : key₀ = key
  · subst hk
    rw [hfront, List.map_cons]
    simp
  · rw [hothers key (Ne.symm hk)]
    simp [hk]

/-- An empty pop. -/
theorem InLine.waitingFor_popEmpty {cfg : Config} {s s' : State R} (h : InLine cfg s)
    (hq : s.queue.pop.1 = none) (hqueue : s'.queue = s.queue.pop.2) (key : String) :
    s'.waitingFor key = s.waitingFor key := by
  have hpop := FairQueue.pop_backlog h.wf
  rw [hq] at hpop
  rw [State.waitingFor, State.waitingFor, hqueue, (hpop key).1, (hpop key).2]

end Lists

/-- What a step must show: the keys are kept already. -/
theorem InLine.next {cfg : Config} {s s' : State R} {a : Action} (h : InLine cfg s)
    (hs : Stepped cfg s a s') (hkeyed : ∀ i ∈ s'.accepted ++ s'.taken, (s.keyOf cfg i).isSome)
    (hwaiting : ∀ key, ∀ i ∈ s'.waitingFor key, s.keyOf cfg i = some key)
    (hlane : ∀ key, Lane (s.mine cfg key s'.spawned) (s.mine cfg key s'.skipped)
      (s.mine cfg key s'.inHand) (s'.waitingFor key) (s.mine cfg key s'.accepted)) :
    InLine cfg s' where
  toPlaced := h.toPlaced.step hs
  keyed := by
    intro i hi
    obtain ⟨k, hk⟩ := Option.isSome_iff_exists.mp (hkeyed i hi)
    rw [keyOf_step hs hk]
    rfl
  waiting := fun key i hi => keyOf_step hs (hwaiting key i hi)
  lane := by
    intro key
    have hsub : ∀ l : List ℕ, l ⊆ s'.accepted ++ s'.taken → s'.mine cfg key l = s.mine cfg key l :=
      fun l hl => mine_step hs key fun i hi => hkeyed i (hl hi)
    rw [hsub s'.spawned (by intro i hi; simp [State.taken, hi]),
      hsub s'.skipped (by intro i hi; simp [State.taken, hi]),
      hsub s'.inHand (by intro i hi; simp [State.taken, hi]),
      hsub s'.accepted (List.subset_append_left _ _)]
    exact hlane key

/-- A step keeps the line of each key. -/
theorem InLine.step {cfg : Config} {s s' : State R} {a : Action} (h : InLine cfg s)
    (hs : Stepped cfg s a s') : InLine cfg s' := by
  obtain ⟨calls, hmove⟩ : ∃ calls, LineMove cfg s s' calls := ⟨_, line_cases hs⟩
  cases hmove with
  | stay hline =>
    simp only [State.line, Prod.mk.injEq] at hline
    obtain ⟨hspawned, hskipped, hhand, haccepted, hqueue⟩ := hline
    have hwaits : s'.waitingFor = s.waitingFor := by unfold State.waitingFor; rw [hqueue]
    apply h.next hs
    · rw [haccepted, State.taken, hspawned, hskipped, hhand]
      exact h.keyed
    · rw [hwaits]
      exact h.waiting
    · intro key
      rw [hspawned, hskipped, hhand, haccepted, hwaits]
      exact h.lane key
  | push i r t queue hr ht hq hroom hline =>
    simp only [State.line, Prod.mk.injEq] at hline
    obtain ⟨hspawned, hskipped, hhand, haccepted, hqueue⟩ := hline
    have hkey := keyOf_eq cfg hr ht
    rw [← hqueue] at hq
    have hwaits : ∀ key, s'.waitingFor key = s.waitingFor key ++ s.mine cfg key [i] :=
      waitingFor_pushed hkey hq
    apply h.next hs
    · rw [haccepted, State.taken, hspawned, hskipped, hhand]
      intro j hj
      rw [List.append_assoc, List.mem_append, List.mem_append, List.mem_singleton] at hj
      rcases hj with hj | rfl | hj
      · exact h.keyed j (List.mem_append_left _ hj)
      · rw [hkey]
        rfl
      · exact h.keyed j (List.mem_append_right _ hj)
    · intro key j hj
      rw [hwaits, List.mem_append] at hj
      rcases hj with hj | hj
      · exact h.waiting key j hj
      · exact of_decide_eq_true (List.mem_filter.mp hj).2
    · intro key
      rw [hspawned, hskipped, hhand, haccepted, hwaits, mine_append]
      exact (h.lane key).arrive
  | pop item hq hline =>
    simp only [State.line, Prod.mk.injEq] at hline
    obtain ⟨hspawned, hskipped, hhand, haccepted, hqueue⟩ := hline
    obtain ⟨hkey, hwaits⟩ := h.waitingFor_popped hq hqueue
    apply h.next hs
    · rw [haccepted, State.taken, hspawned, hskipped, hhand]
      intro j hj
      rw [← List.append_assoc, ← List.append_assoc, List.mem_append, List.mem_singleton] at hj
      rcases hj with hj | rfl
      · exact h.keyed j (by rwa [State.taken, ← List.append_assoc])
      · exact hkey
    · intro key j hj
      exact h.waiting key j (by rw [hwaits]; exact List.mem_append_right _ hj)
    · intro key
      have hlane := h.lane key
      rw [hwaits] at hlane
      rw [hspawned, hskipped, hhand, haccepted, mine_append]
      exact hlane.take
  | popEmpty hq hline =>
    simp only [State.line, Prod.mk.injEq] at hline
    obtain ⟨hspawned, hskipped, hhand, haccepted, hqueue⟩ := hline
    have hwaits := h.waitingFor_popEmpty hq hqueue
    apply h.next hs
    · rw [haccepted, State.taken, hspawned, hskipped, hhand]
      exact h.keyed
    · intro key
      rw [hwaits]
      exact h.waiting key
    · intro key
      rw [hspawned, hskipped, hhand, haccepted, hwaits]
      exact h.lane key
  | skip i rest hhand hline =>
    simp only [State.line, Prod.mk.injEq] at hline
    obtain ⟨hspawned, hskipped, hhand', haccepted, hqueue⟩ := hline
    have hwaits : s'.waitingFor = s.waitingFor := by unfold State.waitingFor; rw [hqueue]
    apply h.next hs
    · intro j hj
      apply h.keyed
      simp only [State.taken, haccepted, hspawned, hskipped, hhand, hhand', List.mem_append,
        List.mem_cons] at hj ⊢
      tauto
    · rw [hwaits]
      exact h.waiting
    · intro key
      have hlane := h.lane key
      rw [hhand, ← List.singleton_append, mine_append] at hlane
      rw [hspawned, hskipped, hhand', haccepted, mine_append, hwaits]
      exact hlane.drop
  | spawn i rest hhand hline =>
    simp only [State.line, Prod.mk.injEq] at hline
    obtain ⟨hspawned, hskipped, hhand', haccepted, hqueue⟩ := hline
    have hwaits : s'.waitingFor = s.waitingFor := by unfold State.waitingFor; rw [hqueue]
    apply h.next hs
    · intro j hj
      apply h.keyed
      simp only [State.taken, haccepted, hspawned, hskipped, hhand, hhand', List.mem_append,
        List.mem_cons] at hj ⊢
      tauto
    · rw [hwaits]
      exact h.waiting
    · intro key
      have hlane := h.lane key
      rw [hhand, ← List.singleton_append, mine_append] at hlane
      rw [hspawned, hskipped, hhand', haccepted, mine_append, hwaits]
      exact hlane.keep

end Gateway
end OxideGate
