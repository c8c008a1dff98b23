import OxideGate.GatewayCharge
import OxideGate.GatewayProgress

/-!
# What `REQUESTS_TOTAL` tells

`chat_completions_handler` counts each request under a label. `outcomes_told` says what is known
of a request from its label, in every reachable state: whether the backend has been asked, whether
`dispatch` has passed on how that ended, which of the limits has refused it, and that a request is
missing in the counts only if its client has hung up.
-/

namespace OxideGate
namespace Gateway

open Runs

variable {R : Type}

/-! ## The errors of the backend -/

/-- `Backend::send`: no response, or the status and the body of one, if it can be read. -/
def Backend.send : Option (ℕ × Option String) → Except GatewayError Unit
  | none => .error .backendUnreachable
  | some (status, body) =>
    -- `is_success`
    if ¬ (200 ≤ status ∧ status < 300) then .error (.backendStatus status (body.getD ""))
    else .ok ()

/-- The error of a dispatch task comes from `Backend::send`. -/
def Action.fromBackend : Action → Prop
  | .backendErr _ e => ∃ resp, Backend.send resp = .error e
  | _ => True

/-- Whatever goes wrong at the backend is counted as `error`. -/
theorem Backend.outcome_error {resp : Option (ℕ × Option String)} {e : GatewayError}
    (h : send resp = .error e) : Outcome.of (.error e) = .error := by
  unfold send at h
  split at h
  · rw [← Except.error.inj h]
    rfl
  · split at h
    · rw [← Except.error.inj h]
      rfl
    · exact absurd h (by simp)

/-! ## One request -/

namespace Request

/-- The reply in the channel is no refusal. -/
def Genuine (r : Request) : Prop :=
  ∀ e, r.chan = .full (.error e) → Outcome.of (.error e) = .error

/-- What has been counted of a request, and what is going to be. -/
def Counted (r : Request) : Prop :=
  match r.pc with
  | .admitting | .pushing | .notifying | .waiting | .reading _ | .parsed _ _ => r.outcomes = []
  | .streaming _ | .closing _ .bodyClosed => r.outcomes = [.ok] ∧ r.chan = .taken
  | .closing _ .cancelled => r.outcomes = []
  | .closing _ (.returned result) => r.outcomes = [] ∧
      (result = .error .queueFull ∧ r.chan = .closed ∨
        (Outcome.of result = .ok ∨ Outcome.of result = .error) ∧ r.chan = .taken)
  | .done => r.lease = .none ∧ (∃ e, r.outcomes = [.of (.error (.admission e))]) ∨
      r.lease ≠ .none ∧ (r.outcomes = [] ∨
        r.outcomes = [.of (.error .queueFull)] ∧ r.chan = .closed ∨
        (r.outcomes = [.ok] ∨ r.outcomes = [.error]) ∧ r.chan = .taken)

/-- `submit` has been answered `QueueFull`. -/
def turnedAway (r : Request) : Bool :=
  match r.pc with
  | .closing _ (.returned (.error .queueFull)) => true
  | _ => decide (.of (.error .queueFull) ∈ r.outcomes)

/-- The handler has been dropped at one of its awaits. -/
def cancelled (r : Request) : Bool :=
  match r.pc with
  | .closing _ .cancelled => true
  | .done => r.outcomes.isEmpty
  | _ => false

/-- The request has been counted as `ok`, or is going to be. -/
def succeeded (r : Request) : Bool :=
  match r.pc with
  | .streaming _ | .closing _ .bodyClosed | .closing _ (.returned (.ok ())) => true
  | .done => decide (r.outcomes = [.ok])
  | _ => false

/-- A move of the handler keeps the errors genuine. -/
theorem Genuine.moved {i : ℕ} {r r' : Request} {a : Action} (h : r.Genuine) (hm : Moved i r a r')
    (hdeliver : ∀ k e, a = .deliver k → r'.chan = .full (.error e) →
      Outcome.of (.error e) = .error) : r'.Genuine := by
  cases hm with
  | deliver k reply hchan => exact fun e he => hdeliver k e rfl he
  | _ => first | exact h | exact fun e he => absurd he (by simp)

/-- A handler counts its request at most once, and under the label that belongs to its place. -/
theorem Counted.moved {i : ℕ} {r r' : Request} {a : Action} (h : r.Counted) (hgenuine : r.Genuine)
    (hcoherent : r.Coherent) (hm : Moved i r a r') : r'.Counted := by
  cases hm with
  | granted now reserve hpc | pushed hpc | notify hpc | hangUp hpc =>
    rw [Counted, hpc] at h
    exact h
  | receiveBuffered slot hpc hchan hstream | bodyOk n slot hpc | cancel slot hpc =>
    rw [Counted, hpc] at h
    exact h
  | denied now reserve e hpc =>
    rw [Counted, hpc] at h
    rw [Coherent, hpc] at hcoherent
    exact Or.inl ⟨hcoherent.1, e, by rw [h, List.nil_append]⟩
  | queueFull hpc =>
    rw [Counted, hpc] at h
    exact ⟨h, Or.inl ⟨rfl, rfl⟩⟩
  | receiveStream slot hpc hchan hstream =>
    rw [Counted, hpc] at h
    exact ⟨by rw [h]; rfl, rfl⟩
  | receiveError e hpc hchan =>
    rw [Counted, hpc] at h
    exact ⟨h, Or.inr ⟨Or.inr (hgenuine e hchan), rfl⟩⟩
  | bodyErr slot hpc =>
    rw [Counted, hpc] at h
    rw [Coherent, hpc] at hcoherent
    exact ⟨h, Or.inr ⟨Or.inr rfl, hcoherent.2⟩⟩
  | releaseBody slot n hpc =>
    rw [Counted, hpc] at h
    rw [Coherent, hpc] at hcoherent
    exact ⟨h, Or.inr ⟨Or.inl rfl, hcoherent.2⟩⟩
  | chunk bytes slot hpc =>
    rw [Counted, hpc] at h ⊢
    exact h
  | closeBody slot hpc =>
    rw [Counted, hpc] at h
    exact h
  | settle now slot exit hpc =>
    rw [Coherent, hpc] at hcoherent
    obtain ⟨l, hlease⟩ := LeaseCell.exists_of_isHeld hcoherent.1
    have hgiven : r.lease.settle ≠ .none := by
      rw [hlease]
      exact LeaseCell.noConfusion
    rw [Counted, hpc] at h
    refine Or.inr ⟨hgiven, ?_⟩
    cases exit with
    | returned result =>
      obtain ⟨hnone, ⟨rfl, hchan⟩ | ⟨hresult, hchan⟩⟩ := h
      · exact Or.inr (Or.inl ⟨by rw [hnone]; rfl, hchan⟩)
      · refine Or.inr (Or.inr ⟨?_, hchan⟩)
        rw [hnone, Exit.outcomes, List.nil_append, List.singleton_inj, List.singleton_inj]
        exact hresult
    | cancelled => exact Or.inl (by rw [h]; rfl)
    | bodyClosed => exact Or.inr (Or.inr ⟨Or.inl (by rw [h.1]; rfl), h.2⟩)
  | send k g => exact h
  | deliver k reply hchan =>
    -- where a channel can be empty, it is not what the counts depend on
    cases hpc : r.pc with
    | streaming slot =>
      rw [Coherent, hpc, hchan] at hcoherent
      exact absurd hcoherent.2 (by simp)
    | closing slot exit =>
      rw [Coherent, hpc, hchan] at hcoherent
      exact absurd hcoherent.2 (by simp)
    | done =>
      rw [Counted, hpc, hchan] at h
      obtain hdenied | ⟨hlease, hnone | ⟨-, hchan⟩ | ⟨-, hchan⟩⟩ := h
      · exact Or.inl hdenied
      · exact Or.inr ⟨hlease, Or.inl hnone⟩
      · exact absurd hchan (by simp)
      · exact absurd hchan (by simp)
    | _ =>
      rw [Counted, hpc] at h
      exact h

theorem turnedAway_iff (r : Request) : r.turnedAway ↔
    (∃ slot, r.pc = .closing slot (.returned (.error .queueFull))) ∨
      .of (.error .queueFull) ∈ r.outcomes := by
  unfold turnedAway
  split
  · rename_i slot hpc
    exact iff_of_true rfl (Or.inl ⟨slot, hpc⟩)
  · rename_i hpc
    rw [decide_eq_true_eq, or_iff_right]
    rintro ⟨slot, hpc'⟩
    exact hpc slot hpc'

/-- Once turned away, always so. -/
theorem turnedAway_moved {i : ℕ} {r r' : Request} {a : Action} (hm : Moved i r a r')
    (h : r.turnedAway) : r'.turnedAway := by
  rw [turnedAway_iff] at h ⊢
  cases hm with
  | settle now slot exit hpc =>
    right
    obtain ⟨slot', hpc'⟩ | hmem := h
    · rw [hpc] at hpc'
      obtain ⟨-, rfl⟩ := HandlerPc.closing.inj hpc'
      exact List.mem_append_right _ List.mem_cons_self
    · exact List.mem_append_left _ hmem
  | send k g => exact h
  | deliver k reply hchan => exact h
  | denied now reserve e hpc | receiveStream slot hpc hchan hstream =>
    rw [hpc] at h
    exact Or.inr (List.mem_append_left _ (h.resolve_left (by simp)))
  | granted now reserve hpc | pushed hpc | queueFull hpc | notify hpc | bodyOk n slot hpc
  | receiveBuffered slot hpc hchan hstream | receiveError e hpc hchan | bodyErr slot hpc
  | releaseBody slot n hpc | chunk bytes slot hpc | closeBody slot hpc | hangUp hpc
  | cancel slot hpc =>
    rw [hpc] at h
    exact Or.inr (h.resolve_left (by simp))

/-- Only `push` turns a request away. -/
theorem Counted.turnedAway {i : ℕ} {r r' : Request} {a : Action} (h : r.Counted)
    (hgenuine : r.Genuine) (hm : Moved i r a r') (hpush : a ≠ .push i)
    (haway : r'.turnedAway) : r.turnedAway := by
  rw [turnedAway_iff] at haway ⊢
  cases hm with
  | queueFull hpc => exact absurd rfl hpush
  | settle now slot exit hpc =>
    obtain ⟨slot', hpc'⟩ | hmem := haway
    · exact absurd hpc' (by simp)
    · rcases List.mem_append.mp hmem with hmem | hmem
      · exact Or.inr hmem
      · left
        cases exit with
        | returned result =>
          rw [Counted, hpc] at h
          obtain ⟨-, ⟨rfl, -⟩ | ⟨hresult, -⟩⟩ := h
          · exact ⟨slot, hpc⟩
          · rw [← List.mem_singleton.mp hmem] at hresult
            exact absurd hresult (by decide)
        | cancelled => exact absurd hmem List.not_mem_nil
        | bodyClosed => exact absurd hmem List.not_mem_nil
  | denied now reserve e hpc =>
    rcases List.mem_append.mp (haway.resolve_left (by simp)) with hmem | hmem
    · exact Or.inr hmem
    · have heq := List.mem_singleton.mp hmem
      cases e <;> exact absurd heq (by decide)
  | receiveStream slot hpc hchan hstream =>
    rcases List.mem_append.mp (haway.resolve_left (by simp)) with hmem | hmem
    · exact Or.inr hmem
    · exact absurd (List.mem_singleton.mp hmem) (by decide)
  | receiveError e hpc hchan =>
    obtain ⟨slot, hpc'⟩ | hmem := haway
    · have he : e = .queueFull := by
        simp only [HandlerPc.closing.injEq, Exit.returned.injEq, Except.error.injEq] at hpc'
        exact hpc'.2
      exact absurd (hgenuine e hchan) (by rw [he]; decide)
    · exact Or.inr hmem
  | send k g => exact haway
  | deliver k reply hchan => exact haway
  | chunk bytes slot hpc => exact haway
  | bodyErr slot hpc | releaseBody slot n hpc => exact Or.inr (haway.resolve_left (by simp))
  | granted now reserve hpc | pushed hpc | notify hpc | bodyOk n slot hpc
  | receiveBuffered slot hpc hchan hstream | closeBody slot hpc | hangUp hpc | cancel slot hpc =>
    exact Or.inr (haway.resolve_left (by simp))

/-- Only a disconnect makes a handler end without a count. -/
theorem cancelled_moved {i : ℕ} {r r' : Request} {a : Action} (h : r.Counted)
    (hm : Moved i r a r') (hcancelled : r'.cancelled) : r.cancelled ∨ a = .disconnect i := by
  unfold cancelled at hcancelled ⊢
  cases hm with
  | hangUp hpc => exact Or.inr rfl
  | cancel slot hpc => exact Or.inr rfl
  | send k g => exact Or.inl hcancelled
  | deliver k reply hchan => exact Or.inl hcancelled
  | denied now reserve e hpc => exact absurd hcancelled (by simp)
  | settle now slot exit hpc =>
    left
    rw [hpc]
    rw [Counted, hpc] at h
    cases exit with
    | returned result => exact absurd hcancelled (by simp [Exit.outcomes])
    | cancelled => rfl
    | bodyClosed => exact absurd hcancelled (by simp [h.1])
  | chunk bytes slot hpc =>
    rw [hpc] at hcancelled
    exact absurd hcancelled (by simp)
  | _ => exact absurd hcancelled (by simp)

/-- Tokens are recorded on the way to `ok` only. -/
theorem Counted.succeeded {i : ℕ} {r r' : Request} {a : Action} (h : r.Counted)
    (hm : Moved i r a r') (hused : r.lease.used ≠ 0 → r.succeeded) (hused' : r'.lease.used ≠ 0) :
    r'.succeeded := by
  cases hm with
  | granted now reserve hpc => exact absurd rfl hused'
  | receiveStream slot hpc hchan hstream | releaseBody slot n hpc | closeBody slot hpc => rfl
  | chunk bytes slot hpc =>
    rw [Request.succeeded, hpc]
  | settle now slot exit hpc =>
    rw [LeaseCell.used_settle] at hused'
    have hsucceeded := hused hused'
    rw [Request.succeeded, hpc] at hsucceeded
    rw [Counted, hpc] at h
    cases exit with
    | returned result =>
      cases result with
      | ok _ =>
        rw [Request.succeeded, h.1]
        rfl
      | error e => exact absurd hsucceeded (by simp)
    | cancelled => exact absurd hsucceeded (by simp)
    | bodyClosed =>
      rw [Request.succeeded, h.1]
      rfl
  | send k g => exact hused hused'
  | deliver k reply hchan => exact hused hused'
  | denied now reserve e hpc | pushed hpc | queueFull hpc | notify hpc | bodyOk n slot hpc
  | receiveBuffered slot hpc hchan hstream | receiveError e hpc hchan | bodyErr slot hpc
  | hangUp hpc | cancel slot hpc =>
    have hsucceeded := hused hused'
    rw [Request.succeeded, hpc] at hsucceeded
    exact absurd hsucceeded (by simp)

end Request

/-! ## All requests -/

/-- What the counts say of the requests after the actions `as`. -/
structure Told (as : List Action) (s : State R) : Prop extends Handled s where
  /-- Replies that are errors come from the backend. -/
  replies : ∀ (k : ℕ) (t : Task) (e : GatewayError), s.tasks[k]? = some t →
    t.pc = .responding (.error e) → Outcome.of (.error e) = .error
  genuine : ∀ (i : ℕ) (r : Request), s.requests[i]? = some r → r.Genuine
  counted : ∀ (i : ℕ) (r : Request), s.requests[i]? = some r → r.Counted
  refusals : ∀ (i : ℕ) (r : Request), s.requests[i]? = some r → r.turnedAway → i ∈ s.refused
  turned : ∀ i ∈ s.refused, s.requests[i]?.any Request.turnedAway
  cancelled : ∀ (i : ℕ) (r : Request), s.requests[i]? = some r → r.cancelled →
    .disconnect i ∈ as
  charged : ∀ (i : ℕ) (r : Request), s.requests[i]? = some r → r.lease.used ≠ 0 → r.succeeded

/-- The backend has been asked, and has answered, once, for a request whose reply has been
received. -/
theorem Handled.sent_of_taken {s : State R} (h : Handled s) {i : ℕ} {r : Request}
    (hr : s.requests[i]? = some r) (hchan : r.chan = .taken) :
    s.sent.count i = 1 ∧ s.answered.count i = 1 := by
  have hi : i ∈ s.answered := h.answered i r hr (by rw [Request.replied, hchan])
  have hplaces := h.places i
  have hsends := h.sends i
  have honce := (h.once i).trans (Bool.toNat_le _)
  have hanswered := List.count_pos_iff.mpr hi
  have hunsent : s.unsent i ≤ s.dispatched i := by
    refine Tally.tally_le_tally fun t _ => ?_
    unfold Task.unsent Task.busy
    split <;> simp_all
  omega

/-- What is not accepted is not sent. -/
theorem Placed.unsent_of_unaccepted {s : State R} (h : Placed s) {i : ℕ} (hi : i ∉ s.accepted) :
    i ∉ s.accepted ∧ i ∉ s.sent := by
  refine ⟨hi, fun hsent => ?_⟩
  have hsends := h.sends i
  rw [List.count_eq_zero.mpr hi] at hsends
  have := List.count_pos_iff.mpr hsent
  omega

variable [Add R] [Sub R] [Mul R] [Min R] [LT R] [DecidableLT R] [NatCast R] [RatCast R]

/-- The errors that tasks reply with are the backend's. -/
theorem replies_step {cfg : Config} {s s' : State R} {a : Action} (hs : Stepped cfg s a s')
    (hbackend : a.fromBackend)
    (h : ∀ (k : ℕ) (t : Task) (e : GatewayError), s.tasks[k]? = some t →
      t.pc = .responding (.error e) → Outcome.of (.error e) = .error) :
    ∀ (k : ℕ) (t : Task) (e : GatewayError), s'.tasks[k]? = some t →
      t.pc = .responding (.error e) → Outcome.of (.error e) = .error := by
  -- a task moves to `pc`, where an error that it has comes from the backend
  have hset : ∀ (k : ℕ) (t : Task) (pc : TaskPc), s.tasks[k]? = some t →
      (∀ e, pc = .responding (.error e) → Outcome.of (.error e) = .error) →
      s'.tasks = s.tasks.set k { t with pc := pc } →
      ∀ (j : ℕ) (u : Task) (e : GatewayError), s'.tasks[j]? = some u →
        u.pc = .responding (.error e) → Outcome.of (.error e) = .error := by
    intro k t pc ht hpc he j u e hu herror
    rw [he] at hu
    obtain ⟨-, rfl⟩ | ⟨-, hu⟩ := Tally.getElem?_set_cases ht hu
    · exact hpc e herror
    · exact h j u e hu herror
  have hspawn : ∀ (item : QueuedRequest) (slot : BackendSlot),
      s'.tasks = s.tasks ++ [⟨item, .ready slot⟩] →
      ∀ (j : ℕ) (u : Task) (e : GatewayError), s'.tasks[j]? = some u →
        u.pc = .responding (.error e) → Outcome.of (.error e) = .error := by
    intro item slot he j u e hu herror
    rw [he, List.getElem?_append] at hu
    split at hu
    · exact h j u e hu herror
    · rw [List.mem_singleton.mp (List.mem_of_getElem? hu)] at herror
      exact absurd herror (by simp)
  cases hs with
  | spawn item slot rest r hpc hbatch hr hchan => exact hspawn item slot rfl
  | acquireFor item slot free hpc hslot => exact hspawn item slot rfl
  | send k g t slot r ht hpc hr => exact hset k t _ ht (by simp) rfl
  | backendOk k t slot ht hpc => exact hset k t _ ht (by simp) rfl
  | backendErr k e t slot ht hpc =>
    obtain ⟨resp, hresp⟩ := hbackend
    refine hset k t (.responding (.error e)) ht ?_ (by simp [State.setTask])
    rintro e' he'
    rw [← Except.error.inj (TaskPc.responding.inj he')]
    exact Backend.outcome_error hresp
  | deliver k t reply r ht hpc hr hchan => exact hset k t _ ht (by simp) rfl
  | discard k t reply r ht hpc hr hchan => exact hset k t .finished ht (by simp) (by simp)
  | notify i r hr hpc =>
    rw [State.setRequest, notifyOne_tasks]
    exact h
  | releaseBody | hangUp | settle | skip =>
    simp only [State.setRequest, State.settle, State.dropSlot?_tasks]
    exact h
  | _ => exact h

/-- A step keeps the errors of all requests genuine. -/
theorem Told.genuine_step {cfg : Config} {as : List Action} {s s' : State R} {a : Action}
    (h : Told as s) (hs : Stepped cfg s a s') :
    ∀ (i : ℕ) (r : Request), s'.requests[i]? = some r → r.Genuine := by
  by_cases hdeliver : ∃ k, a = .deliver k
  · obtain ⟨k, rfl⟩ := hdeliver
    intro i r hr
    cases hs with
    | deliver _ t reply r₀ ht hpc hr₀ hchan =>
      obtain ⟨-, rfl⟩ | ⟨-, hr⟩ := Tally.getElem?_set_cases hr₀ hr
      · intro e he
        apply h.replies k t e ht
        rw [hpc, Chan.full.inj he]
      · exact h.genuine i r hr
    | discard _ t reply r₀ ht hpc hr₀ hchan =>
      rw [State.dropSlot?_requests] at hr
      exact h.genuine i r hr
  · refine forall_requests hs (fun _ _ _ e he => absurd he (by simp [Request.arrived])) ?_ h.genuine
    intro i r r' hr hm hans hgenuine
    exact hgenuine.moved hm fun k e hk => absurd ⟨k, hk⟩ hdeliver

/-- Who is turned away is among the refused. -/
theorem Told.refusals_step {cfg : Config} {as : List Action} {s s' : State R} {a : Action}
    (h : Told as s) (hs : Stepped cfg s a s') :
    ∀ (i : ℕ) (r : Request), s'.requests[i]? = some r → r.turnedAway → i ∈ s'.refused := by
  by_cases hpush : ∃ j, a = .push j
  · obtain ⟨j, rfl⟩ := hpush
    intro i r hr haway
    cases hs with
    | pushed _ r₀ t queue hr₀ hpc ht hroom hq =>
      obtain ⟨rfl, rfl⟩ | ⟨-, hr⟩ := Tally.getElem?_set_cases hr₀ hr
      · apply h.refusals i r₀ hr₀
        rw [Request.turnedAway_iff] at haway ⊢
        exact Or.inr (haway.resolve_left (by simp))
      · exact h.refusals i r hr haway
    | queueFull _ r₀ hr₀ hpc hfull =>
      obtain ⟨rfl, -⟩ | ⟨-, hr⟩ := Tally.getElem?_set_cases hr₀ hr
      · exact List.mem_append_right _ List.mem_cons_self
      · exact List.mem_append_left _ (h.refusals i r hr haway)
  · refine forall_requests hs (fun _ _ _ haway => absurd haway (by simp [Request.arrived,
      Request.turnedAway])) ?_
      fun i r hr haway => (events_cases hs).2.2.2 (h.refusals i r hr haway)
    intro i r r' hr hm hans hrefused haway
    exact hrefused ((h.counted i r hr).turnedAway (h.genuine i r hr) hm
      (fun ha => hpush ⟨i, ha⟩) haway)

/-- A step refuses nobody, or the request that is pushed. -/
theorem refused_cases {cfg : Config} {s s' : State R} {a : Action} (hs : Stepped cfg s a s') :
    s'.refused = s.refused ∨ ∃ i r, s.requests[i]? = some r ∧
      s'.requests = s.requests.set i
        { r with pc := .closing none (.returned (.error .queueFull)), chan := .closed } ∧
      s'.refused = s.refused ++ [i] := by
  cases hs with
  | queueFull i r hr hpc hfull => exact Or.inr ⟨i, r, hr, rfl, rfl⟩
  | notify i r hr hpc =>
    left
    unfold State.notifyOne State.setRequest
    split <;> rfl
  | releaseBody | hangUp | settle | skip | backendErr | discard =>
    left
    simp [State.setRequest, State.setTask, State.settle]
  | _ => exact Or.inl rfl

/-- A step keeps what the labels tell. -/
theorem Told.step {cfg : Config} {as : List Action} {s s' : State R} {a : Action} (h : Told as s)
    (hbackend : a.fromBackend) (hs : Stepped cfg s a s') : Told (as ++ [a]) s' where
  toHandled := h.toHandled.step hs
  replies := replies_step hs hbackend h.replies
  genuine := h.genuine_step hs
  counted := by
    refine forall_requests hs (fun _ _ _ => rfl) ?_ h.counted
    intro i r r' hr hm hans hcounted
    exact hcounted.moved (h.genuine i r hr) (h.coherent i r hr) hm
  refusals := h.refusals_step hs
  turned := by
    intro i hi
    have hold : i ∈ s.refused → s'.requests[i]?.any Request.turnedAway := fun hi =>
      any_requests hs (fun _ _ _ hm => Request.turnedAway_moved hm) (h.turned i hi)
    rcases refused_cases hs with he | ⟨j, r, hr, hreq, he⟩
    · exact hold (he ▸ hi)
    · rw [he] at hi
      rcases List.mem_append.mp hi with hi | hi
      · exact hold hi
      · rw [List.mem_singleton.mp hi, hreq,
          List.getElem?_set_self (List.getElem?_eq_some_iff.mp hr).1]
        rfl
  cancelled := by
    refine forall_requests hs (fun _ _ _ hfalse => absurd hfalse (by simp [Request.arrived,
      Request.cancelled])) ?_
      fun i r hr hcancelled => List.mem_append_left _ (h.cancelled i r hr hcancelled)
    intro i r r' hr hm hans hmem hcancelled
    rcases Request.cancelled_moved (h.counted i r hr) hm hcancelled with hold | rfl
    · exact hmem hold
    · exact List.mem_append_right _ List.mem_cons_self
  charged := by
    refine forall_requests hs (fun _ _ _ hused => absurd rfl hused) ?_ h.charged
    intro i r r' hr hm hans hcharged hused
    exact (h.counted i r hr).succeeded hm hcharged hused

end Gateway
end OxideGate
