import OxideGate.GatewayPlaces

/-!
# What happens to one request

`Request.Moved` lists what a step can do to the request that it touches, and `requests_cases`
says that it touches at most one. `Handled` is what every handler keeps to: it holds its lease
from admission to the end, and its channel is used when its request has been answered and not
before. A dispatch task therefore always finds the channel of its reply unused.
-/

namespace OxideGate
namespace Gateway

open Runs

variable {R : Type}

/-- The lease is there and not dropped. -/
def LeaseCell.isHeld : LeaseCell → Bool
  | .held _ => true
  | .none | .settled _ => false

@[simp] theorem LeaseCell.isHeld_recordTokens (n : UInt64) (c : LeaseCell) :
    (c.recordTokens n).isHeld = c.isHeld := by
  cases c <;> rfl

@[simp] theorem LeaseCell.isHeld_settle (c : LeaseCell) : c.settle.isHeld = false := by
  cases c <;> rfl

theorem LeaseCell.exists_of_isHeld {c : LeaseCell} (h : c.isHeld) : ∃ l, c = .held l := by
  cases c with
  | held l => exact ⟨l, rfl⟩
  | none => exact absurd h (by simp [isHeld])
  | settled l => exact absurd h (by simp [isHeld])

namespace Request

/-- A request as it enters `chat_completions_handler`. -/
def arrived (tenant : ℕ) (req : ChatCompletionRequest) : Request :=
  ⟨tenant, req, .admitting, .none, .empty, .fresh, 0, []⟩

/-- What an action makes of the request that it touches. -/
inductive Moved (i : ℕ) (r : Request) : Action → Request → Prop
  | granted (now : Instant) (reserve : UInt32) (hpc : r.pc = .admitting) :
      Moved i r (.admission i now) { r with
        req := { r.req with maxTokens := some reserve }
        lease := .held ⟨reserve.toUInt64, 0⟩, pc := .pushing }
  | denied (now : Instant) (reserve : UInt32) (e : AdmitError) (hpc : r.pc = .admitting) :
      Moved i r (.admission i now) { r with
        req := { r.req with maxTokens := some reserve }, pc := .done
        outcomes := r.outcomes ++ [.of (.error (.admission e))] }
  | pushed (hpc : r.pc = .pushing) : Moved i r (.push i) { r with pc := .notifying }
  | queueFull (hpc : r.pc = .pushing) :
      Moved i r (.push i) { r with
        pc := .closing none (.returned (.error .queueFull)), chan := .closed }
  | notify (hpc : r.pc = .notifying) : Moved i r (.notify i) { r with pc := .waiting }
  | receiveStream (slot : BackendSlot) (hpc : r.pc = .waiting) (hchan : r.chan = .full (.ok slot))
      (hstream : r.req.stream = true) :
      Moved i r (.receive i) { r with
        chan := .taken, pc := .streaming slot, outcomes := r.outcomes ++ [.of (.ok ())] }
  | receiveBuffered (slot : BackendSlot) (hpc : r.pc = .waiting)
      (hchan : r.chan = .full (.ok slot)) (hstream : r.req.stream = false) :
      Moved i r (.receive i) { r with chan := .taken, pc := .reading slot }
  | receiveError (e : GatewayError) (hpc : r.pc = .waiting) (hchan : r.chan = .full (.error e)) :
      Moved i r (.receive i) { r with
        chan := .taken, pc := .closing none (.returned (.error e)) }
  | bodyOk (n : UInt32) (slot : BackendSlot) (hpc : r.pc = .reading slot) :
      Moved i r (.bodyOk i n) { r with pc := .parsed slot n }
  | bodyErr (slot : BackendSlot) (hpc : r.pc = .reading slot) :
      Moved i r (.bodyErr i) { r with
        pc := .closing (some slot) (.returned (.error .backendUnreachable)) }
  | releaseBody (slot : BackendSlot) (n : UInt32) (hpc : r.pc = .parsed slot n) :
      Moved i r (.releaseBody i) { r with
        lease := r.lease.recordTokens n.toUInt64, pc := .closing none (.returned (.ok ())) }
  | chunk (bytes : List UInt8) (slot : BackendSlot) (hpc : r.pc = .streaming slot) :
      Moved i r (.chunk i bytes) { r with
        frames := (r.frames.feed bytes).2
        lease := r.lease.recordTokens (r.frames.feed bytes).1.toUInt64 }
  | closeBody (slot : BackendSlot) (hpc : r.pc = .streaming slot) :
      Moved i r (.closeBody i) { r with pc := .closing (some slot) .bodyClosed }
  | hangUp (hpc : r.pc = .waiting) :
      Moved i r (.disconnect i) { r with chan := .closed, pc := .closing none .cancelled }
  | cancel (slot : BackendSlot) (hpc : r.pc = .reading slot) :
      Moved i r (.disconnect i) { r with pc := .closing (some slot) .cancelled }
  | settle (now : Instant) (slot : Option BackendSlot) (exit : Exit)
      (hpc : r.pc = .closing slot exit) :
      Moved i r (.settle i now) { r with
        lease := r.lease.settle, pc := .done, outcomes := r.outcomes ++ exit.outcomes }
  | send (k : ℕ) (g : UInt32) : Moved i r (.send k g) { r with generated := g }
  | deliver (k : ℕ) (reply : Reply) (hchan : r.chan = .empty) :
      Moved i r (.deliver k) { r with chan := .full reply }

/-- The reply has been put into the channel. -/
def replied (r : Request) : Bool :=
  match r.chan with
  | .full _ | .taken => true
  | .empty | .closed => false

/-- The handler has a channel: it has been through `admit` and `push`. -/
def entered (r : Request) : Bool :=
  match r.pc, r.lease with
  | .admitting, _ | .pushing, _ | _, .none => false
  | _, _ => true

theorem entered_iff (r : Request) :
    r.entered ↔ r.pc ≠ .admitting ∧ r.pc ≠ .pushing ∧ r.lease ≠ .none := by
  unfold entered
  split <;> simp_all

/-- Where a handler is, and what it holds there. -/
def Coherent (r : Request) : Prop :=
  match r.pc with
  | .admitting => r.lease = .none ∧ r.chan = .empty
  | .pushing => r.lease.isHeld ∧ r.chan = .empty
  | .notifying | .waiting => r.lease.isHeld ∧ (r.chan = .empty ∨ ∃ reply, r.chan = .full reply)
  | .reading _ | .parsed _ _ | .streaming _ => r.lease.isHeld ∧ r.chan = .taken
  | .closing _ _ => r.lease.isHeld ∧ (r.chan = .taken ∨ r.chan = .closed)
  | .done => r.lease.isHeld = false ∧
      (r.lease = .none ∧ r.chan = .empty ∨ r.chan = .taken ∨ r.chan = .closed)

theorem coherent_arrived (tenant : ℕ) (req : ChatCompletionRequest) :
    (arrived tenant req).Coherent :=
  ⟨rfl, rfl⟩

/-- A reply that has not been received finds the handler waiting, with its lease. -/
theorem Coherent.of_full {r : Request} (h : r.Coherent) {reply : Reply}
    (hchan : r.chan = .full reply) :
    (r.pc = .notifying ∨ r.pc = .waiting) ∧ r.lease.isHeld := by
  unfold Coherent at h
  split at h <;> simp_all

/-- A channel that is still unused belongs to a handler that waits for its reply. -/
theorem Coherent.of_empty {r : Request} (h : r.Coherent) (hentered : r.entered)
    (hchan : r.chan = .empty) : (r.pc = .notifying ∨ r.pc = .waiting) ∧ r.lease.isHeld := by
  unfold Coherent at h
  unfold entered at hentered
  split at h <;> simp_all

/-- Only a handler that is done has settled its lease. -/
theorem Coherent.of_settled {r : Request} (h : r.Coherent) {l : Lease}
    (hlease : r.lease = .settled l) : r.pc = .done := by
  unfold Coherent at h
  rw [hlease] at h
  split at h
  · exact absurd h.1 (by simp)
  all_goals first
    | assumption
    | exact absurd h.1 (by simp [LeaseCell.isHeld])

/-- Every step of a handler keeps it coherent; a reply is delivered to a handler with a
channel. -/
theorem Coherent.moved {i : ℕ} {r r' : Request} {a : Action} (h : r.Coherent)
    (hm : Moved i r a r') (hdeliver : ∀ k, a = .deliver k → r.entered) : r'.Coherent := by
  cases hm with
  | granted now reserve hpc =>
    rw [Coherent, hpc] at h
    exact ⟨rfl, h.2⟩
  | denied now reserve e hpc =>
    rw [Coherent, hpc] at h
    exact ⟨by rw [h.1]; rfl, Or.inl h⟩
  | pushed hpc =>
    rw [Coherent, hpc] at h
    exact ⟨h.1, Or.inl h.2⟩
  | notify hpc | bodyOk n slot hpc =>
    rw [Coherent, hpc] at h
    exact h
  | receiveStream slot hpc | receiveBuffered slot hpc =>
    rw [Coherent, hpc] at h
    exact ⟨h.1, rfl⟩
  | receiveError e hpc hchan =>
    rw [Coherent, hpc] at h
    exact ⟨h.1, Or.inl rfl⟩
  -- the channel is taken already
  | bodyErr slot hpc | closeBody slot hpc | cancel slot hpc =>
    rw [Coherent, hpc] at h
    exact ⟨h.1, Or.inl h.2⟩
  -- it is closed now
  | queueFull hpc | hangUp hpc =>
    rw [Coherent, hpc] at h
    exact ⟨h.1, Or.inr rfl⟩
  | releaseBody slot n hpc =>
    rw [Coherent, hpc] at h
    exact ⟨by rw [LeaseCell.isHeld_recordTokens]; exact h.1, Or.inl h.2⟩
  | chunk bytes slot hpc =>
    rw [Coherent, hpc] at h
    simp only [Coherent, hpc, LeaseCell.isHeld_recordTokens]
    exact h
  | settle now slot exit hpc =>
    rw [Coherent, hpc] at h
    exact ⟨LeaseCell.isHeld_settle _, Or.inr h.2⟩
  | send k g => exact h
  | deliver k reply hchan =>
    -- a request with a task has been through `push`, so its handler waits
    obtain ⟨hpc | hpc, hheld⟩ := h.of_empty (hdeliver k rfl) hchan
    · simp only [Coherent, hpc]
      exact ⟨hheld, Or.inr ⟨reply, rfl⟩⟩
    · simp only [Coherent, hpc]
      exact ⟨hheld, Or.inr ⟨reply, rfl⟩⟩

end Request

/-! ## The request that a step touches -/

/-- A step of a dispatch task works on the request of its item, which it has not answered. -/
def State.Answers (s : State R) (a : Action) (i : ℕ) : Prop :=
  ∀ k, a.party = .task k → ∃ t, s.tasks[k]? = some t ∧ t.item.respondTo = i ∧ t.pc ≠ .finished

theorem answers_handler {s : State R} {a : Action} {i : ℕ} (h : a.party = .handler i) :
    s.Answers a i := by
  intro k hk
  rw [h] at hk
  exact absurd hk (by simp)

theorem answers_task {s : State R} {a : Action} {k : ℕ} {t : Task} (h : a.party = .task k)
    (ht : s.tasks[k]? = some t) (hpc : t.pc ≠ .finished) : s.Answers a t.item.respondTo := by
  intro j hj
  rw [h, Party.task.injEq] at hj
  exact ⟨t, hj ▸ ht, rfl, hpc⟩

/-- A task's request has been accepted and not been answered. -/
theorem Placed.unanswered {s : State R} (h : Placed s) {k : ℕ} {t : Task}
    (ht : s.tasks[k]? = some t) (hpc : t.pc ≠ .finished) :
    t.item.respondTo ∈ s.accepted ∧ t.item.respondTo ∉ s.answered := by
  have hplaces := h.places t.item.respondTo
  have honce := (h.once t.item.respondTo).trans (Bool.toNat_le _)
  have hbusy : t.busy t.item.respondTo = 1 := by
    unfold Task.busy QueuedRequest.of
    split
    · exact absurd ‹_› hpc
    all_goals exact if_pos rfl
  have htally := Tally.le_tally (Task.busy t.item.respondTo) (List.mem_of_getElem? ht)
  unfold State.dispatched at hplaces
  refine ⟨List.count_pos_iff.mp (by omega), fun hmem => ?_⟩
  have := List.count_pos_iff.mpr hmem
  omega

/-- A step leaves the requests as they are, adds one, or moves one. -/
inductive Touched (s s' : State R) (a : Action) : Prop
  | none (h : s'.requests = s.requests)
  | arrived (tenant : ℕ) (req : ChatCompletionRequest)
      (h : s'.requests = s.requests ++ [Request.arrived tenant req])
  | moved (i : ℕ) (r r' : Request) (hr : s.requests[i]? = some r) (hm : Request.Moved i r a r')
      (hans : s.Answers a i) (h : s'.requests = s.requests.set i r')

variable [Add R] [Sub R] [Mul R] [Min R] [LT R] [DecidableLT R] [NatCast R] [RatCast R]

theorem requests_cases {cfg : Config} {s s' : State R} {a : Action} (hs : Stepped cfg s a s') :
    Touched s s' a := by
  cases hs with
  | arrive tenant req ht => exact .arrived tenant req rfl
  | granted i now r t reserve l hr hpc ht hreserve hl =>
    rw [(Tenant.admitLease_ok hl).1]
    exact .moved i r _ hr (.granted now reserve hpc) (answers_handler rfl) rfl
  | denied i now r t reserve e hr hpc ht hreserve he =>
    exact .moved i r _ hr (.denied now reserve e hpc) (answers_handler rfl) rfl
  | pushed i r t queue hr hpc ht hroom hq =>
    exact .moved i r _ hr (.pushed hpc) (answers_handler rfl) rfl
  | queueFull i r hr hpc hfull => exact .moved i r _ hr (.queueFull hpc) (answers_handler rfl) rfl
  | notify i r hr hpc =>
    refine .moved i r _ hr (.notify hpc) (answers_handler rfl) ?_
    rw [State.setRequest, notifyOne_requests]
  | receiveStream i r slot hr hpc hchan hstream =>
    exact .moved i r _ hr (.receiveStream slot hpc hchan hstream) (answers_handler rfl) rfl
  | receiveBuffered i r slot hr hpc hchan hstream =>
    exact .moved i r _ hr (.receiveBuffered slot hpc hchan hstream) (answers_handler rfl) rfl
  | receiveError i r e hr hpc hchan =>
    exact .moved i r _ hr (.receiveError e hpc hchan) (answers_handler rfl) rfl
  | bodyOk i n r slot hr hpc => exact .moved i r _ hr (.bodyOk n slot hpc) (answers_handler rfl) rfl
  | bodyErr i r slot hr hpc => exact .moved i r _ hr (.bodyErr slot hpc) (answers_handler rfl) rfl
  | releaseBody i r slot n hr hpc =>
    exact .moved i r _ hr (.releaseBody slot n hpc) (answers_handler rfl) rfl
  | chunk i bytes r slot hr hpc =>
    exact .moved i r _ hr (.chunk bytes slot hpc) (answers_handler rfl) rfl
  | closeBody i r slot hr hpc =>
    exact .moved i r _ hr (.closeBody slot hpc) (answers_handler rfl) rfl
  | hangUp i r hr hpc =>
    refine .moved i r _ hr (.hangUp hpc) (answers_handler rfl) ?_
    rw [State.setRequest, State.dropSlot?_requests]
  | cancel i r slot hr hpc => exact .moved i r _ hr (.cancel slot hpc) (answers_handler rfl) rfl
  | settle i now r slot exit hr hpc =>
    exact .moved i r _ hr (.settle now slot exit hpc) (answers_handler rfl) rfl
  | skip item slot rest r hpc hbatch hr hchan => exact .none (State.dropSlot?_requests _ _)
  | send k g t slot r ht hpc hr =>
    exact .moved _ r _ hr (.send k g) (answers_task rfl ht (by simp [hpc])) rfl
  | deliver k t reply r ht hpc hr hchan =>
    exact .moved _ r _ hr (.deliver k reply hchan) (answers_task rfl ht (by simp [hpc])) rfl
  | discard k t reply r ht hpc hr hchan => exact .none (State.dropSlot?_requests _ _)
  | _ => exact .none rfl

/-- What a request has when it arrives, and keeps in every move, every request has. -/
theorem forall_requests {cfg : Config} {s s' : State R} {a : Action} (hs : Stepped cfg s a s')
    {P : ℕ → Request → Prop} (harrived : ∀ i tenant req, P i (Request.arrived tenant req))
    (hmoved : ∀ i r r', s.requests[i]? = some r → Request.Moved i r a r' → s.Answers a i → P i r →
      P i r')
    (h : ∀ i r, s.requests[i]? = some r → P i r) :
    ∀ i r, s'.requests[i]? = some r → P i r := by
  intro i r hr
  obtain he | ⟨tenant, req, he⟩ | ⟨j, rj, rj', hj, hm, hans, he⟩ := requests_cases hs
  · rw [he] at hr
    exact h i r hr
  · rw [he, List.getElem?_append] at hr
    split at hr
    · exact h i r hr
    · have hmem := List.mem_of_getElem? hr
      rw [List.mem_singleton.mp hmem]
      exact harrived i tenant req
  · rw [he, List.getElem?_set] at hr
    split at hr
    · rename_i hji
      subst hji
      split at hr
      · rw [← Option.some.inj hr]
        exact hmoved j rj rj' hj hm hans (h j rj hj)
      · exact absurd hr (by simp)
    · exact h i r hr

/-- What every move of a request leaves true stays true of it. -/
theorem any_requests {cfg : Config} {s s' : State R} {a : Action} (hs : Stepped cfg s a s')
    {p : Request → Bool} (hmoved : ∀ i r r', Request.Moved i r a r' → p r → p r') {i : ℕ}
    (h : s.requests[i]?.any p) : s'.requests[i]?.any p := by
  obtain he | ⟨tenant, req, he⟩ | ⟨j, rj, rj', hj, hm, hans, he⟩ := requests_cases hs
  · rw [he]
    exact h
  · rw [he]
    exact Tally.any_append h
  · rw [he]
    exact Tally.any_set hj (hmoved j rj rj' hm) h

/-! ## Events -/

/-- Events are only added, and the only one that adds to the accepted requests is a push that
finds room. -/
theorem events_cases {cfg : Config} {s s' : State R} {a : Action} (hs : Stepped cfg s a s') :
    (s'.accepted = s.accepted ∨ ∃ i r, a = .push i ∧ s.requests[i]? = some r ∧ r.pc = .pushing ∧
      s'.requests = s.requests.set i { r with pc := .notifying } ∧
      s'.accepted = s.accepted ++ [i]) ∧
    s.answered ⊆ s'.answered ∧ s.skipped ⊆ s'.skipped ∧ s.refused ⊆ s'.refused := by
  cases hs with
  | pushed i r t queue hr hpc ht hroom hq =>
    exact ⟨Or.inr ⟨i, r, rfl, hr, hpc, rfl, rfl⟩, List.Subset.refl _, List.Subset.refl _,
      List.Subset.refl _⟩
  | queueFull i r hr hpc hfull =>
    exact ⟨Or.inl rfl, List.Subset.refl _, List.Subset.refl _, List.subset_append_left _ _⟩
  | notify i r hr hpc =>
    unfold State.notifyOne State.setRequest
    split <;> exact ⟨Or.inl rfl, List.Subset.refl _, List.Subset.refl _, List.Subset.refl _⟩
  | deliver k t reply r ht hpc hr hchan =>
    exact ⟨Or.inl rfl, List.subset_append_left _ _, List.Subset.refl _, List.Subset.refl _⟩
  | releaseBody | hangUp | settle | skip | backendErr | discard =>
    refine ⟨Or.inl ?_, ?_, ?_, ?_⟩ <;> simp [State.setRequest, State.setTask, State.settle]
  | _ => exact ⟨Or.inl rfl, List.Subset.refl _, List.Subset.refl _, List.Subset.refl _⟩

/-! ## Every handler -/

/-- Every request is in its place, and every handler keeps to its own order. -/
structure Handled (s : State R) : Prop extends Placed s where
  coherent : ∀ (i : ℕ) (r : Request), s.requests[i]? = some r → r.Coherent
  entered : ∀ i ∈ s.accepted, s.requests[i]?.any Request.entered
  answered : ∀ (i : ℕ) (r : Request), s.requests[i]? = some r → r.replied → i ∈ s.answered

omit [Add R] [Sub R] [Mul R] [Min R] [LT R] [DecidableLT R] [NatCast R] [RatCast R] in
theorem handled_init (cfg : Config) (tenants : List (Tenant R)) :
    Handled (init cfg tenants) where
  toPlaced := placed_init cfg tenants
  coherent := fun i r hr => by simp [init] at hr
  entered := fun i hi => by simp [init] at hi
  answered := fun i r hr => by simp [init] at hr

theorem Request.Moved.entered {i : ℕ} {r r' : Request} {a : Action} (hm : Moved i r a r')
    (h : r.entered) : r'.entered := by
  unfold Request.entered at h ⊢
  cases hm <;> cases hlease : r.lease <;> simp_all [LeaseCell.recordTokens, LeaseCell.settle]

/-- Only a delivery puts a reply into a channel. -/
theorem Request.Moved.replied {i : ℕ} {r r' : Request} {a : Action} (hm : Moved i r a r')
    (h : r'.replied) : r.replied ∨ ∃ k, a = .deliver k := by
  unfold Request.replied at h ⊢
  cases hm with
  | receiveStream slot hpc hchan hstream => exact Or.inl (by rw [hchan])
  | receiveBuffered slot hpc hchan hstream => exact Or.inl (by rw [hchan])
  | receiveError e hpc hchan => exact Or.inl (by rw [hchan])
  | queueFull hpc => exact absurd h (by simp)
  | hangUp hpc => exact absurd h (by simp)
  | deliver k reply hchan => exact Or.inr ⟨k, rfl⟩
  | _ => exact Or.inl h

/-- The task of a reply that is delivered has its request among the answered ones. -/
theorem answered_of_deliver {cfg : Config} {s s' : State R} {k : ℕ}
    (hs : Stepped cfg s (.deliver k) s') {t : Task} (ht : s.tasks[k]? = some t) :
    t.item.respondTo ∈ s'.answered := by
  cases hs with
  | deliver _ t' reply r ht' hpc hr hchan =>
    rw [ht'] at ht
    rw [← Option.some.inj ht]
    exact List.mem_append_right _ List.mem_cons_self
  | discard _ t' reply r ht' hpc hr hchan =>
    rw [ht'] at ht
    rw [State.dropSlot?_answered, ← Option.some.inj ht]
    exact List.mem_append_right _ List.mem_cons_self

/-- Every step keeps every handler in order. -/
theorem Handled.step {cfg : Config} {s s' : State R} {a : Action} (h : Handled s)
    (hs : Stepped cfg s a s') : Handled s' where
  toPlaced := h.toPlaced.step hs
  coherent := by
    refine forall_requests hs (fun _ => Request.coherent_arrived) ?_ h.coherent
    intro i r r' hr hm hans hcoherent
    refine hcoherent.moved hm ?_
    -- only an accepted request has a task that delivers to it
    intro k hk
    obtain ⟨t, ht, hi, hpc⟩ := hans k (by rw [hk]; rfl)
    have hentered := h.entered i (hi ▸ (h.unanswered ht hpc).1)
    rw [hr] at hentered
    exact hentered
  entered := by
    intro i hi
    have hold : i ∈ s.accepted → s'.requests[i]?.any Request.entered := fun hi =>
      any_requests hs (fun _ _ _ hm => hm.entered) (h.entered i hi)
    rcases (events_cases hs).1 with he | ⟨j, r, -, hr, hpc, hreq, he⟩
    · exact hold (he ▸ hi)
    · rw [he] at hi
      rcases List.mem_append.mp hi with hi | hi
      · exact hold hi
      · rw [List.mem_singleton.mp hi, hreq,
          List.getElem?_set_self (List.getElem?_eq_some_iff.mp hr).1]
        -- a request in front of `push` has its lease
        have hlease := h.coherent j r hr
        rw [Request.Coherent, hpc] at hlease
        show Request.entered { r with pc := .notifying } = true
        cases hl : r.lease with
        | none => simp [hl, LeaseCell.isHeld] at hlease
        | held l => simp [Request.entered]
        | settled l => simp [Request.entered]
  answered := by
    refine forall_requests hs (fun _ _ _ hfalse => absurd hfalse (by simp [Request.replied,
      Request.arrived])) ?_
      fun i r hr hreplied => (events_cases hs).2.1 (h.answered i r hr hreplied)
    intro i r r' hr hm hans hanswered hreplied
    rcases hm.replied hreplied with hold | ⟨k, rfl⟩
    · exact hanswered hold
    · obtain ⟨t, ht, rfl, hpc⟩ := hans k rfl
      exact answered_of_deliver hs ht

/-- Whatever the order of the steps, handlers keep to theirs. -/
theorem handled_of_exec {cfg : Config} {tenants : List (Tenant R)} {actions : List Action}
    {s : State R} (hrun : exec (step cfg) (init cfg tenants) actions = some s) : Handled s :=
  exec_invariant (fun _ _ _ h hs => h.step (step_cases hs)) (handled_init cfg tenants) hrun

/-- In every reachable state a dispatch task that has its result can deliver it: nothing has been
sent through the channel, and the handler behind it waits unless its client hung up. -/
theorem deliver_enabled {cfg : Config} {tenants : List (Tenant R)} {actions : List Action}
    {s : State R} (hrun : exec (step cfg) (init cfg tenants) actions = some s) {k : ℕ} {t : Task}
    {reply : Reply} (ht : s.tasks[k]? = some t) (hpc : t.pc = .responding reply) :
    ∃ s', step cfg s (.deliver k) = some s' := by
  have h := handled_of_exec hrun
  have hne : t.pc ≠ .finished := by simp [hpc]
  obtain ⟨haccepted, hanswered⟩ := h.unanswered ht hne
  have hentered := h.entered _ haccepted
  cases hr : s.requests[t.item.respondTo]? with
  | none => simp [hr] at hentered
  | some r =>
    -- a channel that holds a reply belongs to an answered request
    have hreplied : r.replied = false := by
      by_contra hreplied
      exact hanswered (h.answered _ r hr (by simpa using hreplied))
    unfold Request.replied at hreplied
    simp only [step, Action.party, ht, Option.bind_some, taskStep, hpc, hr, State.deliver]
    cases hchan : r.chan with
    | empty => exact ⟨_, rfl⟩
    | closed => exact ⟨_, rfl⟩
    | full reply => simp [hchan] at hreplied
    | taken => simp [hchan] at hreplied

end Gateway
end OxideGate
