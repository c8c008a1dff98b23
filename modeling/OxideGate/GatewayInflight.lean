import OxideGate.GatewayHandlers

/-!
# `INFLIGHT` and `REQUESTS_TOTAL`

The handler increments the gauge, awaits `serve`, decrements the gauge and counts the outcome.
The gauge is therefore the number of requests that arrived less the outcomes counted, at every
point of every run (`inflight_step`). It is the number of requests inside `serve` as long as each
of the others has been counted, and the ones that have not are those whose future was dropped at
one of the awaits inside `serve`.
-/

namespace OxideGate
namespace Gateway

open Runs Tally

variable {R : Type}

/-- The future of `serve` is there, and has not returned. -/
def HandlerPc.inServe : HandlerPc → Bool
  | .admitting | .pushing | .notifying | .waiting | .reading _ | .parsed _ _ => true
  | .closing _ (.returned _) => true
  | .streaming _ | .closing _ .cancelled | .closing _ .bodyClosed | .done => false

/-- The handler's future is dropped at an await. -/
def Action.hangsUp : Action → Bool
  | .disconnect _ => true
  | _ => false

/-- What the two metrics have of a request: a share of the gauge, or a count. -/
def Request.metered (r : Request) : ℕ := r.outcomes.length + r.pc.inServe.toNat

namespace State

variable (s : State R)

/-- The requests inside `serve`. -/
def inServe : ℕ := tally (fun r => r.pc.inServe.toNat) s.requests

/-- The counts in `REQUESTS_TOTAL`. -/
def counted : ℕ := tally (fun r => r.outcomes.length) s.requests

theorem metered_eq : tally Request.metered s.requests = s.counted + s.inServe := by
  unfold counted inServe
  induction s.requests with
  | nil => rfl
  | cons r l ih =>
    simp only [tally_cons, Request.metered]
    omega

end State

/-- A request is inside `serve` or counted, once, until its future is dropped. -/
theorem Request.Moved.metered {i : ℕ} {r r' : Request} {a : Action} (hm : Moved i r a r') :
    r'.metered + a.hangsUp.toNat = r.metered := by
  cases hm with
  | denied now reserve e hpc =>
    simp [Request.metered, hpc, HandlerPc.inServe, Action.hangsUp]
  | receiveStream slot hpc hchan hstream =>
    simp [Request.metered, hpc, HandlerPc.inServe, Action.hangsUp]
  | settle now slot exit hpc =>
    cases exit <;> simp [Request.metered, hpc, HandlerPc.inServe, Action.hangsUp, Exit.outcomes]
  | chunk bytes slot hpc => rfl
  | send k g => rfl
  | deliver k reply hchan => rfl
  | _ => simp [Request.metered, *, HandlerPc.inServe, Action.hangsUp]

/-- One request changes, and the gauge goes down by the outcomes counted. -/
theorem inflight_request {s s' : State R} {i : ℕ} {r : Request} (r' : Request)
    (hr : s.requests[i]? = some r) (hrequests : s'.requests = s.requests.set i r')
    (hgauge : s'.inflight + r'.outcomes.length = s.inflight + r.outcomes.length) :
    s'.inflight + s'.counted + s.requests.length = s.inflight + s.counted + s'.requests.length := by
  have hset := tally_set (fun r => r.outcomes.length) hr r'
  unfold State.counted
  rw [hrequests, List.length_set]
  omega

theorem inflight_same {s s' : State R} (hrequests : s'.requests = s.requests)
    (hgauge : s'.inflight = s.inflight) :
    s'.inflight + s'.counted + s.requests.length = s.inflight + s.counted + s'.requests.length := by
  unfold State.counted
  rw [hrequests, hgauge]

theorem notifyOne_inflight (s : State R) : s.notifyOne.inflight = s.inflight := by
  unfold State.notifyOne
  split <;> rfl

/-- The metrics of a state that a run with `n` dropped futures leads to. -/
structure Metered (n : ℕ) (s : State R) : Prop where
  gauge : s.inflight + s.counted = s.requests.length
  total : tally Request.metered s.requests + n = s.requests.length
  once : ∀ (i : ℕ) r, s.requests[i]? = some r → r.metered ≤ 1

/-- Nobody has been counted. -/
theorem metered_init (cfg : Config) (tenants : List (Tenant R)) :
    Metered 0 (init cfg tenants) where
  gauge := rfl
  total := rfl
  once := by simp [init]

variable [Add R] [Sub R] [Mul R] [Min R] [LT R] [DecidableLT R] [NatCast R] [RatCast R]

/-- Every step moves the gauge by the requests that arrive, less the outcomes that it counts. -/
theorem inflight_step {cfg : Config} {s s' : State R} {a : Action} (hs : Stepped cfg s a s') :
    s'.inflight + s'.counted + s.requests.length
      = s.inflight + s.counted + s'.requests.length := by
  cases hs with
  | arrive tenant req ht =>
    simp only [State.counted, tally_append, tally_cons, tally_nil, List.length_append,
      List.length_cons, List.length_nil]
    push_cast
    omega
  | denied i now r t reserve e hr hpc ht hreserve he =>
    refine inflight_request _ hr rfl ?_
    simp only [List.length_append, List.length_singleton]
    push_cast
    omega
  | receiveStream i r slot hr hpc hchan hstream =>
    refine inflight_request _ hr rfl ?_
    simp only [List.length_append, List.length_singleton]
    push_cast
    omega
  | settle i now r slot exit hr hpc =>
    refine inflight_request _ hr rfl ?_
    simp only [State.settle, List.length_append]
    push_cast
    omega
  | notify i r hr hpc =>
    refine inflight_request { r with pc := .waiting } hr ?_ ?_
    · rw [State.setRequest, notifyOne_requests]
    · rw [State.setRequest, notifyOne_inflight]
  | hangUp i r hr hpc =>
    refine inflight_request { r with chan := .closed, pc := .closing none .cancelled } hr ?_ ?_
    · rw [State.setRequest, State.dropSlot?_requests]
    · rw [State.setRequest, State.dropSlot?_inflight]
  | granted i now r t reserve l hr | pushed i r t queue hr | queueFull i r hr
  | receiveBuffered i r slot hr | receiveError i r e hr | bodyOk i n r slot hr
  | bodyErr i r slot hr | releaseBody i r slot n hr | chunk i bytes r slot hr
  | closeBody i r slot hr | cancel i r slot hr =>
    exact inflight_request _ hr rfl rfl
  | send k g t slot r ht hpc hr => exact inflight_request _ hr rfl rfl
  | deliver k t reply r ht hpc hr hchan => exact inflight_request _ hr rfl rfl
  | skip | discard =>
    exact inflight_same (State.dropSlot?_requests _ _) (State.dropSlot?_inflight _ _)
  | _ => exact inflight_same rfl rfl

/-- A future that is dropped is that of one request. -/
theorem moved_of_hangsUp {cfg : Config} {s s' : State R} {a : Action} (hs : Stepped cfg s a s')
    (ha : a.hangsUp = true) :
    ∃ (i : ℕ) (r r' : Request), s.requests[i]? = some r ∧ Request.Moved i r a r' ∧
      s'.requests = s.requests.set i r' := by
  cases hs with
  | hangUp i r hr hpc =>
    refine ⟨i, r, _, hr, .hangUp hpc, ?_⟩
    rw [State.setRequest, State.dropSlot?_requests]
  | cancel i r slot hr hpc => exact ⟨i, r, _, hr, .cancel slot hpc, rfl⟩
  | _ => exact absurd ha (by simp [Action.hangsUp])

/-- An arrival adds a request to those in `serve` or counted, and only a dropped future takes one
away. -/
theorem metered_step {cfg : Config} {s s' : State R} {a : Action} (hs : Stepped cfg s a s') :
    tally Request.metered s'.requests + a.hangsUp.toNat + s.requests.length
      = tally Request.metered s.requests + s'.requests.length := by
  have hmove : ∀ (i : ℕ) r r', s.requests[i]? = some r → Request.Moved i r a r' →
      s'.requests = s.requests.set i r' →
      tally Request.metered s'.requests + a.hangsUp.toNat + s.requests.length
        = tally Request.metered s.requests + s'.requests.length := by
    intro i r r' hr hm he
    have hset := tally_set Request.metered hr r'
    have hmetered := hm.metered
    rw [he, List.length_set]
    omega
  cases ha : a.hangsUp with
  | true =>
    obtain ⟨i, r, r', hr, hm, he⟩ := moved_of_hangsUp hs ha
    rw [← ha]
    exact hmove i r r' hr hm he
  | false =>
    rw [← ha]
    obtain he | ⟨tenant, req, he⟩ | ⟨i, r, r', hr, hm, -, he⟩ := requests_cases hs
    · rw [he, ha]
      rfl
    · have harrived : (Request.arrived tenant req).metered = 1 := rfl
      rw [he, ha, tally_append, tally_cons, tally_nil, harrived, List.length_append,
        List.length_singleton, Bool.toNat_false]
      omega
    · exact hmove i r r' hr hm he

/-! ## Runs -/

/-- A step adds the future that it drops to those already dropped. -/
theorem Metered.step {n : ℕ} {cfg : Config} {s s' : State R} {a : Action} (h : Metered n s)
    (hs : Stepped cfg s a s') : Metered (n + a.hangsUp.toNat) s' where
  gauge := by
    have hstep := inflight_step hs
    have := h.gauge
    omega
  total := by
    have hstep := metered_step hs
    have := h.total
    omega
  once := by
    refine forall_requests hs (fun _ _ _ => le_refl _) (fun i r r' _ hm _ hr => ?_) h.once
    have := hm.metered
    omega

/-- So does a run, for all that it drops. -/
theorem metered_of_exec {n : ℕ} {cfg : Config} {s s' : State R} {actions : List Action}
    (h : Metered n s) (hrun : exec (step cfg) s actions = some s') :
    Metered (n + actions.countP Action.hangsUp) s' := by
  induction actions generalizing s n with
  | nil =>
    rw [exec_nil, Option.some.injEq] at hrun
    exact hrun ▸ h
  | cons a actions ih =>
    obtain ⟨t, ht, hrun⟩ := (exec_cons _).mp hrun
    have hnext := ih (h.step (step_cases ht)) hrun
    have hup : (if a.hangsUp = true then 1 else 0) = a.hangsUp.toNat := by
      cases a.hangsUp <;> rfl
    rw [List.countP_cons, hup, Nat.add_comm (actions.countP _), ← Nat.add_assoc]
    exact hnext

/-- Every dropped future leaves the gauge one too high, for good. -/
theorem inflight_eq {cfg : Config} {tenants : List (Tenant R)} {actions : List Action}
    {s : State R} (hrun : exec (step cfg) (init cfg tenants) actions = some s) :
    s.inflight = s.inServe + actions.countP Action.hangsUp := by
  have h := metered_of_exec (metered_init cfg tenants) hrun
  have hgauge := h.gauge
  have htotal := h.total
  rw [s.metered_eq] at htotal
  omega

/-- The gauge is the number of requests inside `serve`, and every request that has left the
handler has been counted once, exactly in the runs in which no handler's future is dropped. -/
theorem inflight_exact_iff (cfg : Config) (tenants : List (Tenant R)) (actions : List Action)
    (s : State R) (hrun : exec (step cfg) (init cfg tenants) actions = some s) :
    (s.inflight = s.inServe ∧
        ∀ (i : ℕ) r, s.requests[i]? = some r → r.pc.inServe = false → r.outcomes.length = 1) ↔
      ∀ i, Action.disconnect i ∉ actions := by
  have h := metered_of_exec (metered_init cfg tenants) hrun
  have heq := inflight_eq hrun
  constructor
  · intro ⟨hgauge, _⟩ i hi
    have hpos : 0 < actions.countP Action.hangsUp := List.countP_pos_iff.mpr ⟨_, hi, rfl⟩
    omega
  · intro hnone
    have hzero : actions.countP Action.hangsUp = 0 := by
      rw [List.countP_eq_zero]
      intro a ha hup
      cases a with
      | disconnect i => exact hnone i ha
      | _ => exact absurd hup (by simp [Action.hangsUp])
    have htotal := h.total
    rw [hzero] at heq htotal
    refine ⟨by omega, fun i r hr hleft => ?_⟩
    have hle : ∀ r ∈ s.requests, r.metered ≤ 1 := by
      intro r hr
      obtain ⟨i, hi⟩ := List.mem_iff_getElem?.mp hr
      exact h.once i r hi
    have hone := eq_one_of_tally_eq_length hle (by omega) r (List.mem_of_getElem? hr)
    rw [Request.metered, hleft] at hone
    exact hone

/-- A client that stays, and a request that is refused for its size. -/
theorem inflight_exact_iff_denied :
    ∃ s : State ℚ, exec (step ⟨2, 0, 1, true, 16⟩)
        (init ⟨2, 0, 1, true, 16⟩ [.fromConfig ⟨"acme", "key", .paid, 600, 5, 4⟩ 0])
        [.arrive 0 ⟨some 601, false⟩, .arrive 0 ⟨none, false⟩, .admission 0 0] = some s ∧
      s.inflight = s.inServe := by
  have hrun : ((exec (step ⟨2, 0, 1, true, 16⟩)
      (init ⟨2, 0, 1, true, 16⟩ [.fromConfig ⟨"acme", "key", .paid, 600, 5, 4⟩ 0])
      [.arrive 0 ⟨some 601, false⟩, .arrive 0 ⟨none, false⟩, .admission 0 0]).map
      fun s : State ℚ => s.inflight) = some 1 := by
    decide +kernel
  obtain ⟨s, hs, -⟩ := Option.map_eq_some_iff.mp hrun
  exact ⟨s, hs, ((inflight_exact_iff _ _ _ s hs).mpr (by simp)).1⟩

/-- A client hangs up while its handler waits for the reply: nothing is inside `serve`, the gauge
stays at one and the request is never counted. -/
theorem inflight_drifts :
    (exec (step ⟨2, 0, 1, true, 16⟩)
        (init ⟨2, 0, 1, true, 16⟩ [.fromConfig ⟨"acme", "key", .paid, 600, 5, 4⟩ 0])
        [.arrive 0 ⟨none, false⟩, .admission 0 0, .push 0, .notify 0, .disconnect 0,
          .settle 0 1]).map (fun s : State ℚ =>
        (s.inflight, s.inServe, s.requests.map fun r => (r.pc, r.outcomes)))
      = some (1, 0, [(.done, [])]) := by
  decide +kernel

end Gateway
end OxideGate
