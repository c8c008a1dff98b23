import OxideGate.GatewayProgress
import OxideGate.TenantQueues

/-!
# What reaches the backend

`serve` puts the cap of a request that has none into it, reserves as much, and hands it to the
scheduler; from there it goes through the queue, a batch and a dispatch task. `forwarded_as_asked`
says that on all this way, whatever the order of the steps, an item holds what its own client has
asked for, under the cap that its lease has reserved: a reply cannot be longer than what the
tenant's budget was asked for.
-/

namespace OxideGate
namespace Gateway

open Runs

variable {R : Type}

/-- What arrives. -/
def Action.arrival : Action → Option (ℕ × ChatCompletionRequest)
  | .arrive tenant req => some (tenant, req)
  | _ => none

/-- The reservation of `serve`. -/
def ChatCompletionRequest.reserve (cfg : Config) (req : ChatCompletionRequest) : UInt32 :=
  req.maxTokens.getD cfg.defaultMaxTokens

/-- `get_or_insert`: the request with its cap. -/
def ChatCompletionRequest.capped (cfg : Config) (req : ChatCompletionRequest) :
    ChatCompletionRequest :=
  { req with maxTokens := some (req.reserve cfg) }

/-- The tokens that a lease has reserved. -/
def LeaseCell.reserved? : LeaseCell → Option UInt64
  | .none => Option.none
  | .held l | .settled l => some l.reserved

/-- Everything that is queued, in the hands of the scheduler, or with a dispatch task. -/
def State.items (s : State R) : List QueuedRequest :=
  s.queue.contents ++ s.pc.items ++ s.batch.map Prod.fst ++ s.tasks.map Task.item

@[simp] theorem LeaseCell.recordTokens_reserved? (cell : LeaseCell) (n : UInt64) :
    (cell.recordTokens n).reserved? = cell.reserved? := by
  cases cell <;> rfl

@[simp] theorem LeaseCell.settle_reserved? (cell : LeaseCell) :
    cell.settle.reserved? = cell.reserved? := by
  cases cell <;> rfl

namespace Request

/-- The request is what `req` has become. -/
def Keeps (cfg : Config) (req : ChatCompletionRequest) (r : Request) : Prop :=
  if r.pc = .admitting then r.req = req ∧ r.lease.reserved? = none
  else r.req = req.capped cfg ∧
    ∀ n ∈ r.lease.reserved?, n = (req.reserve cfg).toUInt64

/-- No move but the admission touches what the client has asked for and what is reserved. -/
theorem Keeps.moved {cfg : Config} {req : ChatCompletionRequest} {i : ℕ} {r r' : Request}
    {a : Action} (h : r.Keeps cfg req) (hm : Moved i r a r') (ha : ∀ now, a ≠ .admission i now) :
    r'.Keeps cfg req := by
  unfold Keeps at h ⊢
  cases hm with
  | granted now reserve hpc => exact absurd rfl (ha now)
  | denied now reserve e hpc => exact absurd rfl (ha now)
  | send k g => exact h
  | deliver k reply hchan => exact h
  | chunk bytes slot hpc =>
    rw [if_neg (by simp [hpc])] at h ⊢
    rwa [LeaseCell.recordTokens_reserved?]
  | releaseBody slot n hpc =>
    rw [if_neg (by simp [hpc])] at h
    rw [if_neg (by simp), LeaseCell.recordTokens_reserved?]
    exact h
  | settle now slot exit hpc =>
    rw [if_neg (by simp [hpc])] at h
    rw [if_neg (by simp), LeaseCell.settle_reserved?]
    exact h
  | pushed hpc | queueFull hpc | notify hpc | bodyOk n slot hpc | closeBody slot hpc
  | receiveStream slot hpc hchan hstream | receiveBuffered slot hpc hchan hstream
  | receiveError e hpc hchan | bodyErr slot hpc | hangUp hpc | cancel slot hpc =>
    rw [if_neg (by simp [hpc])] at h
    rw [if_neg (by simp)]
    exact h

/-- The item that was made of the request, whose lease was given. -/
def Of (n : ℕ) (item : QueuedRequest) (r : Request) : Bool :=
  decide (r.req = item.req ∧ r.tenant = n ∧ r.pc ≠ .admitting) && r.lease.reserved?.isSome

theorem of_moved {n i : ℕ} {item : QueuedRequest} {r r' : Request} {a : Action}
    (hm : Moved i r a r') (h : r.Of n item) : r'.Of n item := by
  simp only [Of, Bool.and_eq_true, decide_eq_true_eq] at h ⊢
  obtain ⟨⟨hreq, htenant, hadmitting⟩, hlease⟩ := h
  cases hm with
  | granted now reserve hpc | denied now reserve e hpc => exact absurd hpc hadmitting
  | chunk bytes slot hpc =>
    refine ⟨⟨hreq, htenant, hadmitting⟩, ?_⟩
    rw [LeaseCell.recordTokens_reserved?]
    exact hlease
  | releaseBody slot n hpc =>
    refine ⟨⟨hreq, htenant, nofun⟩, ?_⟩
    rw [LeaseCell.recordTokens_reserved?]
    exact hlease
  | settle now slot exit hpc =>
    refine ⟨⟨hreq, htenant, nofun⟩, ?_⟩
    rw [LeaseCell.settle_reserved?]
    exact hlease
  | send k g | deliver k reply hchan => exact ⟨⟨hreq, htenant, hadmitting⟩, hlease⟩
  | _ => exact ⟨⟨hreq, htenant, nofun⟩, hlease⟩

end Request

/-! ## Requests -/

variable [Add R] [Sub R] [Mul R] [Min R] [LT R] [DecidableLT R] [NatCast R] [RatCast R]

/-- Where nobody arrives, the requests are those that were there, but for one that moves. -/
theorem requests_kept {cfg : Config} {s s' : State R} {a : Action} (hs : Stepped cfg s a s')
    (ha : a.arrival = none) : s'.requests = s.requests ∨
      ∃ i r r', s.requests[i]? = some r ∧ Request.Moved i r a r' ∧
        s'.requests = s.requests.set i r' := by
  obtain he | ⟨tenant, req, he⟩ | ⟨i, r, r', hr, hm, -, he⟩ := requests_cases hs
  · exact Or.inl he
  · have hlen := congrArg List.length he
    rw [List.length_append] at hlen
    cases hs with
    | arrive tenant req ht => exact absurd ha (by simp [Action.arrival])
    | notify i r hr hpc =>
      rw [State.setRequest, notifyOne_requests, List.length_set] at hlen
      exact absurd hlen (by simp)
    | _ => simp [State.setRequest, State.setTask, State.settle, State.send] at hlen
  · exact Or.inr ⟨i, r, r', hr, hm, he⟩

/-- Each request is what has arrived in its place. -/
structure Arrived (cfg : Config) (as : List Action) (s : State R) : Prop where
  count : s.requests.length = (as.filterMap Action.arrival).length
  keeps : ∀ (i : ℕ) (r : Request), s.requests[i]? = some r →
    ∃ req, (as.filterMap Action.arrival)[i]? = some (r.tenant, req) ∧ r.Keeps cfg req

omit [Add R] [Sub R] [Mul R] [Min R] [LT R] [DecidableLT R] [NatCast R] [RatCast R] in
/-- A request goes on as what has arrived in its place. -/
theorem Arrived.set {cfg : Config} {as : List Action} {s s' : State R} (h : Arrived cfg as s)
    {i : ℕ} {r r' : Request} (hr : s.requests[i]? = some r)
    (hrequests : s'.requests = s.requests.set i r') (htenant : r'.tenant = r.tenant)
    (hkeeps : ∀ req, r.Keeps cfg req → r'.Keeps cfg req) : Arrived cfg as s' where
  count := by
    rw [hrequests, List.length_set]
    exact h.count
  keeps := by
    intro j u hu
    rw [hrequests] at hu
    obtain ⟨rfl, rfl⟩ | ⟨-, hu⟩ := Tally.getElem?_set_cases hr hu
    · obtain ⟨req, harrival, hold⟩ := h.keeps j r hr
      exact ⟨req, by rw [htenant]; exact harrival, hkeeps req hold⟩
    · exact h.keeps j u hu

/-- A step keeps what has arrived. -/
theorem Arrived.step {cfg : Config} {as : List Action} {s s' : State R} {a : Action}
    (h : Arrived cfg as s) (hs : Stepped cfg s a s') : Arrived cfg (as ++ [a]) s' := by
  have hsplit : (as ++ [a]).filterMap Action.arrival
      = as.filterMap Action.arrival ++ a.arrival.toList := by
    rw [List.filterMap_append]
    cases harrival : a.arrival <;> simp [harrival]
  have hsame : a.arrival = none → Arrived cfg as s' → Arrived cfg (as ++ [a]) s' := by
    intro ha harrived
    rw [ha, Option.toList_none, List.append_nil] at hsplit
    exact ⟨hsplit ▸ harrived.count, hsplit ▸ harrived.keeps⟩
  by_cases hadmission : ∃ i now, a = .admission i now
  · obtain ⟨i, now, rfl⟩ := hadmission
    apply hsame rfl
    cases hs with
    | granted _ _ r t reserve l hr hpc ht hreserve hl =>
      refine h.set hr rfl rfl fun req hkeeps => ?_
      unfold Request.Keeps at hkeeps ⊢
      rw [if_pos hpc] at hkeeps
      rw [if_neg (by simp), (Tenant.admitLease_ok hl).1, hreserve, hkeeps.1]
      exact ⟨rfl, fun n hn => (Option.mem_some.mp hn).symm⟩
    | denied _ _ r t reserve e hr hpc ht hreserve he =>
      refine h.set hr rfl rfl fun req hkeeps => ?_
      unfold Request.Keeps at hkeeps ⊢
      rw [if_pos hpc] at hkeeps
      rw [if_neg (by simp), hreserve, hkeeps.1]
      refine ⟨rfl, fun n hn => ?_⟩
      rw [hkeeps.2] at hn
      exact absurd hn (by simp)
  · cases ha : a.arrival with
    | some arrival =>
      rw [ha, Option.toList_some] at hsplit
      cases hs with
      | arrive tenant req ht =>
        obtain rfl : (tenant, req) = arrival := Option.some.inj ha
        refine ⟨?_, fun i r hr => ?_⟩
        · rw [hsplit, List.length_append, List.length_append, h.count]
          rfl
        · rw [List.getElem?_append] at hr
          simp only [hsplit, List.getElem?_append, ← h.count]
          split at hr
          · rename_i hi
            rw [if_pos hi]
            exact h.keeps i r hr
          · rename_i hi
            rw [if_neg hi]
            rw [List.getElem?_singleton] at hr ⊢
            split at hr
            · rename_i hlast
              obtain rfl := Option.some.inj hr
              rw [if_pos hlast]
              exact ⟨req, rfl, rfl, rfl⟩
            · exact absurd hr (by simp)
      | _ => exact absurd ha (by simp [Action.arrival])
    | none =>
      apply hsame ha
      obtain he | ⟨i, r, r', hr, hm, he⟩ := requests_kept hs ha
      · exact ⟨he ▸ h.count, he ▸ h.keeps⟩
      · exact h.set hr he hm.tenant fun req hkeeps =>
          hkeeps.moved hm fun now hnow => hadmission ⟨i, now, hnow⟩

/-! ## Items -/

/-- An item is moved on, or made from the request that is pushed. -/
theorem carried_cases {cfg : Config} {s s' : State R} {a : Action} (hwf : s.queue.WF)
    (hs : Stepped cfg s a s') {item : QueuedRequest} (hitem : item ∈ s'.items) :
    item ∈ s.items ∨ ∃ i r t, s.requests[i]? = some r ∧ r.pc = .pushing ∧
      s.tenants[r.tenant]? = some t ∧ s'.requests = s.requests.set i { r with pc := .notifying } ∧
      item = ⟨r.req, i, t.tier.asStr⟩ := by
  unfold State.items at hitem ⊢
  -- a task goes on with its item
  have htasks : ∀ {k : ℕ} {t : Task} (pc : TaskPc), s.tasks[k]? = some t →
      (s.tasks.set k { t with pc := pc }).map Task.item = s.tasks.map Task.item :=
    fun pc ht => Tally.map_set_eq ht rfl
  cases hs with
  | pushed i r t queue hr hpc ht hroom hq =>
    simp only [List.mem_append, (hq.perm hwf).mem_iff, List.mem_cons] at hitem ⊢
    rcases hitem with (((rfl | hitem) | hitem) | hitem) | hitem
    · exact Or.inr ⟨i, r, t, hr, hpc, ht, rfl, rfl⟩
    all_goals tauto
  | popped slot item' hpc hq =>
    left
    have hperm := FairQueue.pop_perm hwf
    rw [hq] at hperm
    have hitems : (if cfg.window = 0 then SchedPc.dispatch else .collect).items = [] := by
      split <;> rfl
    simp only [hitems, List.mem_append, List.map_append, List.map_cons, List.map_nil,
      hperm.mem_iff, List.mem_cons, List.not_mem_nil] at hitem ⊢
    tauto
  | popEmpty slot hpc hq =>
    left
    have hempty := FairQueue.pop_perm hwf
    rw [hq] at hempty
    simpa [hempty.1, hempty.2, hpc, SchedPc.items] using hitem
  | acquire | consume | park | wake | again | deadline | expire | batchDone =>
    left
    simp_all [SchedPc.items]
  | skip item' slot rest r hpc hbatch hr hchan | spawn item' slot rest r hpc hbatch hr hchan
  | await item' rest r hpc hbatch hr hchan =>
    left
    simp only [State.dropSlot?_queue, State.dropSlot?_pc, State.dropSlot?_batch,
      State.dropSlot?_tasks, hpc, hbatch, SchedPc.items, List.mem_append, List.map_append,
      List.map_cons, List.map_nil, List.mem_cons, List.not_mem_nil] at hitem ⊢
    tauto
  | acquireFor item' slot free hpc hslot =>
    left
    simp only [hpc, SchedPc.items, List.mem_append, List.map_append, List.map_cons,
      List.map_nil, List.mem_cons, List.not_mem_nil] at hitem ⊢
    tauto
  | send k g t slot r ht hpc hr =>
    rw [State.send, htasks _ ht] at hitem
    exact Or.inl hitem
  | backendOk k t slot ht hpc =>
    rw [State.setTask, htasks _ ht] at hitem
    exact Or.inl hitem
  | backendErr k e t slot ht hpc =>
    rw [State.setTask, State.dropSlot?_tasks, htasks _ ht] at hitem
    left
    simpa using hitem
  | deliver k t reply r ht hpc hr hchan =>
    rw [htasks _ ht] at hitem
    exact Or.inl hitem
  | discard k t reply r ht hpc hr hchan =>
    left
    simpa [htasks _ ht] using hitem
  | notify i r hr hpc =>
    left
    have hbatch : s.notifyOne.batch = s.batch := by
      unfold State.notifyOne
      split <;> rfl
    rw [State.setRequest, (notifyOne_queue s).1, (notifyOne_queue s).2, notifyOne_tasks,
      hbatch] at hitem
    exact hitem
  | releaseBody | hangUp | settle =>
    left
    simpa [State.setRequest, State.settle] using hitem
  | _ => exact Or.inl hitem

/-- Each item is made of its own request, with the tier of its tenant. -/
structure Carried (cfg : Config) (named : List (String × Tier)) (as : List Action)
    (s : State R) : Prop extends Handled s where
  arrived : Arrived cfg as s
  names : s.names = named
  items : ∀ item ∈ s.items, ∃ n name, s.requests[item.respondTo]?.any (Request.Of n item) ∧
    named[n]? = some name ∧ item.tier = name.2.asStr

/-- A step carries the items on unchanged. -/
theorem Carried.step {cfg : Config} {named : List (String × Tier)} {as : List Action}
    {s s' : State R} {a : Action} (h : Carried cfg named as s) (hs : Stepped cfg s a s') :
    Carried cfg named (as ++ [a]) s' where
  toHandled := h.toHandled.step hs
  arrived := h.arrived.step hs
  names := (names_step hs).trans h.names
  items := by
    intro item hitem
    rcases carried_cases h.wf hs hitem with hold | ⟨i, r, t, hr, hpc, ht, hrequests, rfl⟩
    · obtain ⟨n, name, hof, hname⟩ := h.items item hold
      exact ⟨n, name, any_requests hs (fun _ _ _ hm => Request.of_moved hm) hof, hname⟩
    · have hheld := h.coherent i r hr
      rw [Request.Coherent, hpc] at hheld
      obtain ⟨l, hl⟩ := LeaseCell.exists_of_isHeld hheld.1
      refine ⟨r.tenant, (t.id, t.tier), ?_, ?_, rfl⟩
      · rw [hrequests, List.getElem?_set_self (List.getElem?_eq_some_iff.mp hr).1]
        simp [Request.Of, hl, LeaseCell.reserved?]
      · rw [← h.names, State.names, List.getElem?_map, ht]
        rfl

/-- So in every run each item is as its client has asked for it. -/
theorem carried_of_exec {cfg : Config} {tenants : List (Tenant R)} {actions : List Action}
    {s : State R} (hrun : exec (Gateway.step cfg) (init cfg tenants) actions = some s) :
    Carried cfg (init cfg tenants).names actions s := by
  have hkept : ∀ (as : List Action) (u : State R) (a : Action) (v : State R),
      Carried cfg (init cfg tenants).names as u → Gateway.step cfg u a = some v →
      Carried cfg (init cfg tenants).names (as ++ [a]) v :=
    fun _ _ _ _ hu hstep => hu.step (step_cases hstep)
  refine exec_invariant_actions hkept ⟨handled_init cfg tenants, ⟨rfl, ?_⟩, rfl, ?_⟩ hrun
  · intro i r hr
    exact absurd hr (by simp [init])
  · intro item hitem
    exact absurd hitem (by simp [State.items, init, FairQueue.contents, FairQueue.new,
      SchedPc.items])

/-- Whatever the order of the steps, an item in the queue, in a batch or with a dispatch task has
the `max_tokens` and the `stream` that its own client has sent, the tier of the client's tenant, and
the cap that the request's lease has reserved. -/
theorem forwarded_as_asked (cfg : Config) (tenants : List (Tenant R)) (actions : List Action)
    (s : State R) (hrun : exec (Gateway.step cfg) (init cfg tenants) actions = some s)
    (item : QueuedRequest) (hitem : item ∈ s.items) :
    ∃ n t req r, (actions.filterMap Action.arrival)[item.respondTo]? = some (n, req) ∧
      tenants[n]? = some t ∧ s.requests[item.respondTo]? = some r ∧ r.tenant = n ∧
      item.req = req.capped cfg ∧ item.tier = t.tier.asStr ∧
      r.lease.reserved? = some (req.reserve cfg).toUInt64 := by
  have hcarried := carried_of_exec hrun
  obtain ⟨n, name, hof, hname, htier⟩ := hcarried.items item hitem
  obtain ⟨r, hr, hof⟩ := (Option.any_eq_true _ _).mp hof
  rw [Request.Of, Bool.and_eq_true, decide_eq_true_eq] at hof
  obtain ⟨⟨hreq, htenant, hadmitting⟩, hgiven⟩ := hof
  obtain ⟨reserved, hreserved⟩ := Option.isSome_iff_exists.mp hgiven
  obtain ⟨req, harrival, hkeeps⟩ := hcarried.arrived.keeps item.respondTo r hr
  rw [Request.Keeps, if_neg hadmitting] at hkeeps
  -- the name of the tenant is that of one of the tenants
  obtain ⟨t, ht, rfl⟩ : ∃ t, tenants[n]? = some t ∧ (t.id, t.tier) = name := by
    rwa [State.names, List.getElem?_map, Option.map_eq_some_iff] at hname
  refine ⟨n, t, req, r, htenant ▸ harrival, ht, hr, htenant, hreq ▸ hkeeps.1, htier, ?_⟩
  rw [hreserved, hkeeps.2 reserved hreserved]

/-- The second client has set no cap. Its request is still queued, with what its lease has. -/
theorem forwarded_as_asked_two :
    ∃ s : State ℚ, exec (Gateway.step ⟨4, 0, 2, true, 16⟩)
        (init ⟨4, 0, 2, true, 16⟩ [.fromConfig ⟨"acme", "k1", .paid, 600, 5, 4⟩ 0,
          .fromConfig ⟨"beta", "k2", .free, 600, 5, 4⟩ 0])
        [.arrive 0 ⟨some 3, false⟩, .arrive 1 ⟨none, true⟩, .admission 1 0, .admission 0 0,
          .push 1, .push 0, .acquire, .pop, .dispatchNext] = some s ∧
      s.items = [⟨⟨some 16, true⟩, 1, "free"⟩, ⟨⟨some 3, false⟩, 0, "paid"⟩] ∧
      ∃ r, s.requests[1]? = some r ∧ r.tenant = 1 ∧ r.lease.reserved? = some 16 := by
  have hrun : (exec (Gateway.step ⟨4, 0, 2, true, 16⟩)
      (init ⟨4, 0, 2, true, 16⟩ [.fromConfig ⟨"acme", "k1", .paid, 600, 5, 4⟩ 0,
        .fromConfig ⟨"beta", "k2", .free, 600, 5, 4⟩ 0])
      [.arrive 0 ⟨some 3, false⟩, .arrive 1 ⟨none, true⟩, .admission 1 0, .admission 0 0,
        .push 1, .push 0, .acquire, .pop, .dispatchNext]).map (fun s : State ℚ => s.items)
      = some [⟨⟨some 16, true⟩, 1, "free"⟩, ⟨⟨some 3, false⟩, 0, "paid"⟩] := by
    decide +kernel
  obtain ⟨s, hs, hitems⟩ := Option.map_eq_some_iff.mp hrun
  obtain ⟨n, t, req, r, harrival, -, hr, rfl, -, -, hlease⟩ := forwarded_as_asked _ _ _ s hs
    ⟨⟨some 16, true⟩, 1, "free"⟩ (hitems ▸ List.mem_cons_self)
  simp only [List.filterMap_cons, List.filterMap_nil, Action.arrival, List.getElem?_cons_succ,
    List.getElem?_cons_zero, Option.some.injEq, Prod.mk.injEq] at harrival
  obtain ⟨htenant, rfl⟩ := harrival
  exact ⟨s, hs, hitems, r, hr, htenant.symm, hlease⟩

end Gateway
end OxideGate
