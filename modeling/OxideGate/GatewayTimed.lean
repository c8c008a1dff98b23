import OxideGate.GatewayBusy
import OxideGate.Lib.Simulation

/-!
# The gateway in time

`Timed` is the gateway with a clock beside it. Its code looks at the clock when a handler starts,
when `submit` makes an item, when `dispatch` begins, at the first chunk and at the end of a reply,
and around the window; what it computes from that is in three histograms. The readings that the
token buckets get are part of the actions, as before.

A run in time is a run of the gateway (`timed_run`), with a step less here and there because it is
too early or too late for it.
-/

namespace OxideGate
namespace Gateway

open Runs

variable {R : Type}

/-- A sample of `QUEUE_WAIT`, `TTFT` or `REQUEST_DURATION`. -/
structure Sample where
  /-- Whose it is, which the histogram does not know. -/
  request : ℕ
  /-- The label `tier`, where there is one. -/
  tier : Option String
  time : ℕ
deriving DecidableEq, Repr

/-- Times are in nanoseconds. -/
structure Timed (R : Type) where
  gateway : State R
  now : ℕ
  /-- `arrived` of each handler. -/
  arrived : ℕ → ℕ
  /-- `enqueued_at` of each item. -/
  enqueuedAt : ℕ → ℕ
  /-- `seen_first` of each stream. -/
  seenFirst : ℕ → Bool
  /-- The deadline of the last window. -/
  deadline : ℕ
  /-- The requests that have opened a window. -/
  openers : List ℕ
  queueWait : List Sample
  ttft : List Sample
  requestDuration : List Sample

inductive TimedAction where
  /-- Time passes. -/
  | pass (d : ℕ)
  | act (a : Action)

def TimedAction.acts : TimedAction → List Action
  | .pass _ => []
  | .act a => [a]

/-- The tier of the tenant whose request it is. -/
def State.tier? (s : State R) (i : ℕ) : Option String :=
  (s.requests[i]?.bind fun r => s.tenants[r.tenant]?).map fun t => t.tier.asStr

/-- The handler has the whole body of a reply that is not streamed. -/
def Request.complete (r : Request) : Bool :=
  match r.pc with
  | .closing _ (.returned (.ok ())) => true
  | _ => false

namespace Timed

def init (cfg : Config) (tenants : List (Tenant R)) : Timed R where
  gateway := Gateway.init cfg tenants
  now := 0
  arrived := fun _ => 0
  enqueuedAt := fun _ => 0
  seenFirst := fun _ => false
  deadline := 0
  openers := []
  queueWait := []
  ttft := []
  requestDuration := []

/-- The gateway of `spawn`, at time 0. -/
def spawn (cfg : Config) (tenants : List (Tenant R)) : Option (Timed R) :=
  (Gateway.spawn cfg tenants).map fun gateway => { init cfg tenants with gateway }

theorem eq_init_of_spawn {cfg : Config} {tenants : List (Tenant R)} {s₀ : Timed R}
    (h : spawn cfg tenants = some s₀) : s₀ = init cfg tenants := by
  obtain ⟨g, hg, rfl⟩ := Option.map_eq_some_iff.mp h
  rw [Gateway.eq_init_of_spawn hg]
  rfl

/-- What the time allows. -/
def allows (s : Timed R) : Action → Bool
  -- `checked_duration_since` returns Some
  | .again => s.now ≤ s.deadline
  | .expire _ =>
    match s.gateway.pc with
    -- it returns None
    | .collect => s.deadline < s.now
    -- `timeout` has elapsed
    | _ => s.deadline ≤ s.now
  | _ => true

/-- What an action makes of the time. -/
def observe (cfg : Config) (s : Timed R) : Action → Timed R
  | .arrive _ _ =>
    { s with arrived := Function.update s.arrived s.gateway.requests.length s.now }
  | .push i => { s with enqueuedAt := Function.update s.enqueuedAt i s.now }
  | .pop =>
    match s.gateway.pc, s.gateway.queue.pop.1 with
    -- the first of a batch; without a window nobody looks at the deadline
    | .next (some _) _, some item =>
      { s with deadline := s.now + cfg.window, openers := s.openers ++ [item.respondTo] }
    | _, _ => s
  | .send k _ =>
    match s.gateway.tasks[k]? with
    | some t =>
      let i := t.item.respondTo
      { s with queueWait := s.queueWait ++ [⟨i, some t.item.tier, s.now - s.enqueuedAt i⟩] }
    | none => s
  | .chunk i _ =>
    if s.seenFirst i then s
    else { s with
      seenFirst := Function.update s.seenFirst i true
      ttft := s.ttft ++ [⟨i, s.gateway.tier? i, s.now - s.arrived i⟩] }
  | .settle i _ =>
    if s.gateway.requests[i]?.any Request.complete then
      { s with requestDuration := s.requestDuration ++ [⟨i, none, s.now - s.arrived i⟩] }
    else s
  | _ => s

variable [Add R] [Sub R] [Mul R] [Min R] [LT R] [DecidableLT R] [NatCast R] [RatCast R]

def step (cfg : Config) (s : Timed R) : TimedAction → Option (Timed R)
  | .pass d => some { s with now := s.now + d }
  | .act a =>
    if s.allows a then
      (Gateway.step cfg s.gateway a).map fun gateway => { s.observe cfg a with gateway }
    else none

end Timed

/-! ## What a step does -/

/-- What an action finds, and what it makes of the time. -/
inductive Noted (cfg : Config) (s : Timed R) : Action → Timed R → Prop
  | arrived (tenant : ℕ) (req : ChatCompletionRequest) :
      Noted cfg s (.arrive tenant req) { s with
        arrived := Function.update s.arrived s.gateway.requests.length s.now }
  | pushed (i : ℕ) :
      Noted cfg s (.push i) { s with enqueuedAt := Function.update s.enqueuedAt i s.now }
  | opened (slot : BackendSlot) (n : NextPc) (item : QueuedRequest)
      (hpc : s.gateway.pc = .next (some slot) n) (hq : s.gateway.queue.pop.1 = some item) :
      Noted cfg s .pop { s with
        deadline := s.now + cfg.window, openers := s.openers ++ [item.respondTo] }
  | sent (k : ℕ) (g : UInt32) (t : Task) (ht : s.gateway.tasks[k]? = some t) :
      Noted cfg s (.send k g) { s with queueWait := s.queueWait ++
        [⟨t.item.respondTo, some t.item.tier, s.now - s.enqueuedAt t.item.respondTo⟩] }
  | first (i : ℕ) (bytes : List UInt8) (hi : s.seenFirst i = false) :
      Noted cfg s (.chunk i bytes) { s with
        seenFirst := Function.update s.seenFirst i true
        ttft := s.ttft ++ [⟨i, s.gateway.tier? i, s.now - s.arrived i⟩] }
  | answered (i : ℕ) (now : Instant) (r : Request) (hr : s.gateway.requests[i]? = some r)
      (ha : r.complete) :
      Noted cfg s (.settle i now) { s with
        requestDuration := s.requestDuration ++ [⟨i, none, s.now - s.arrived i⟩] }
  /-- Nobody looks at the clock. -/
  | quiet (a : Action) (hpush : ∀ i, a ≠ .push i) (hsend : ∀ k g, a = .send k g →
        s.gateway.tasks[k]? = none) (hchunk : ∀ i bytes, a = .chunk i bytes → s.seenFirst i)
      (hsettle : ∀ i now, a = .settle i now → ∀ r, s.gateway.requests[i]? = some r →
        r.complete = false) :
      Noted cfg s a s

/-- What an action makes of the time, case by case. -/
theorem observe_cases (cfg : Config) (s : Timed R) (a : Action) :
    Noted cfg s a (s.observe cfg a) := by
  cases a with
  | arrive tenant req => exact .arrived tenant req
  | push i => exact .pushed i
  | pop =>
    have hquiet : Noted cfg s .pop s := .quiet _ (by simp) (by simp) (by simp) (by simp)
    cases hpc : s.gateway.pc with
    | next slot n =>
      cases slot with
      | some slot =>
        cases hq : s.gateway.queue.pop.1 with
        | some item =>
          simp only [Timed.observe, hpc, hq]
          exact .opened slot n item hpc hq
        | none =>
          simp only [Timed.observe, hpc, hq]
          exact hquiet
      | none =>
        simp only [Timed.observe, hpc]
        exact hquiet
    | acquire | collect | dispatch | acquireFor item =>
      simp only [Timed.observe, hpc]
      exact hquiet
  | send k g =>
    cases ht : s.gateway.tasks[k]? with
    | some t =>
      simp only [Timed.observe, ht]
      exact .sent k g t ht
    | none =>
      simp only [Timed.observe, ht]
      refine .quiet _ (by simp) ?_ (by simp) (by simp)
      rintro j g' he
      obtain ⟨rfl, -⟩ := Action.send.inj he
      exact ht
  | chunk i bytes =>
    cases hi : s.seenFirst i with
    | false =>
      simp only [Timed.observe, hi, Bool.false_eq_true, if_false]
      exact .first i bytes hi
    | true =>
      simp only [Timed.observe, hi, if_true]
      refine .quiet _ (by simp) (by simp) ?_ (by simp)
      rintro j m he
      obtain ⟨rfl, -⟩ := Action.chunk.inj he
      exact hi
  | settle i now =>
    by_cases hi : s.gateway.requests[i]?.any Request.complete
    · simp only [Timed.observe, if_pos hi]
      obtain ⟨r, hr⟩ := exists_request hi
      rw [hr] at hi
      exact .answered i now r hr hi
    · simp only [Timed.observe, if_neg hi]
      refine .quiet _ (by simp) (by simp) (by simp) ?_
      rintro j now' he r hr
      obtain ⟨rfl, -⟩ := Action.settle.inj he
      rw [hr] at hi
      exact Bool.eq_false_iff.mpr hi
  | _ => exact .quiet _ (by simp) (by simp) (by simp) (by simp)

variable [Add R] [Sub R] [Mul R] [Min R] [LT R] [DecidableLT R] [NatCast R] [RatCast R]

/-- What one step in time finds and leaves. -/
inductive TimedStepped (cfg : Config) (s : Timed R) : Timed R → Prop
  | passed (d : ℕ) : TimedStepped cfg s { s with now := s.now + d }
  | acted (a : Action) (u : Timed R) (g : State R) (hallows : s.allows a)
      (hs : Stepped cfg s.gateway a g) (hnoted : Noted cfg s a u) :
      TimedStepped cfg s { u with gateway := g }

/-- Time passes, or the gateway takes a step. -/
theorem timed_cases {cfg : Config} {s s' : Timed R} {a : TimedAction}
    (h : s.step cfg a = some s') : TimedStepped cfg s s' := by
  cases a with
  | pass d =>
    rw [← Option.some.inj h]
    exact .passed d
  | act a =>
    rw [Timed.step, Option.ite_none_right_eq_some, Option.map_eq_some_iff] at h
    obtain ⟨ha, g, hg, rfl⟩ := h
    exact .acted a _ g ha (step_cases hg) (observe_cases cfg s a)

/-- A run in time is a run of the gateway. -/
theorem timed_run {cfg : Config} {tenants : List (Tenant R)} {actions : List TimedAction}
    {s : Timed R} (hrun : exec (Timed.step cfg) (Timed.init cfg tenants) actions = some s) :
    ∃ as, exec (step cfg) (init cfg tenants) as = some s.gateway ∧
      as.Sublist (actions.flatMap TimedAction.acts) := by
  have hsim : Simulates (Timed.step cfg) (step cfg) (fun (s : Timed R) g => s.gateway = g)
      (fun _ a => a.acts) (fun a => [a]) := by
    rintro s a s' g rfl hs
    cases a with
    | pass d =>
      rw [← Option.some.inj hs]
      exact ⟨[], _, rfl, rfl, List.Sublist.refl _⟩
    | act a =>
      rw [Timed.step, Option.ite_none_right_eq_some, Option.map_eq_some_iff] at hs
      obtain ⟨-, g, hg, rfl⟩ := hs
      exact ⟨[a], g, (exec_cons _).mpr ⟨g, hg, rfl⟩, rfl, List.Sublist.refl _⟩
  obtain ⟨as, g, has, rfl, hseen⟩ := hsim.exec rfl hrun
  rw [List.flatMap_singleton', outputs_flatMap hrun] at hseen
  exact ⟨as, has, hseen⟩

end Gateway
end OxideGate
