import OxideGate.GatewayHandlers

/-!
# Every reply is on its way

`submit` answers `SchedulerGone` when `rx.await` fails, which takes a sender that is dropped
without a reply. The sender travels with the item: through the queue, the batch and the hands of
the scheduler to the dispatch task, which uses it. The only other end is in the `for` loop of `run`,
for a receiver that is gone. So a handler at `rx.await` has its reply in the channel, or the one
sender of it is still in one of these places (`reply_on_the_way`).
-/

namespace OxideGate
namespace Gateway

open Runs

variable {R : Type}

namespace Request

/-- Pushed, and without a reply received yet. -/
def awaits (r : Request) : Bool :=
  match r.pc with
  | .notifying | .waiting => true
  | _ => false

/-- Something has happened to the channel. -/
def used (r : Request) : Bool := r.chan ≠ .empty

/-- Only a push makes a handler wait for a reply. -/
theorem Moved.awaits {i : ℕ} {r r' : Request} {a : Action} (hm : Moved i r a r')
    (ha : a ≠ .push i) (h : r'.awaits) : r.awaits := by
  unfold Request.awaits at h ⊢
  cases hm with
  | pushed hpc => exact absurd rfl ha
  | notify hpc => rw [hpc]
  | send k g | deliver k reply hchan => exact h
  | chunk bytes slot hpc => exact h
  | _ => exact absurd h (by simp)

/-- A channel that has been used stays so. -/
theorem Moved.used {i : ℕ} {r r' : Request} {a : Action} (hm : Moved i r a r') (h : r.used) :
    r'.used := by
  unfold Request.used at h ⊢
  cases hm <;> first
    | exact h
    | simp

end Request

/-- Who waits for a reply has been accepted, and who has been answered has used its channel. -/
structure Served (s : State R) : Prop extends Handled s where
  awaited : ∀ (i : ℕ) (r : Request), s.requests[i]? = some r → r.awaits → i ∈ s.accepted
  delivered : ∀ i ∈ s.answered, s.requests[i]?.any Request.used

theorem served_init (cfg : Config) (tenants : List (Tenant R)) : Served (init cfg tenants) where
  toHandled := handled_init cfg tenants
  awaited := fun i r hr => by simp [init] at hr
  delivered := fun i hi => absurd hi List.not_mem_nil

variable [Add R] [Sub R] [Mul R] [Min R] [LT R] [DecidableLT R] [NatCast R] [RatCast R]

/-- A request is answered when its reply is in the channel, or its receiver is gone. -/
theorem answered_cases {cfg : Config} {s s' : State R} {a : Action} (hs : Stepped cfg s a s') :
    s'.answered = s.answered ∨
      ∃ i, s'.answered = s.answered ++ [i] ∧ s'.requests[i]?.any Request.used := by
  cases hs with
  | deliver k t reply r ht hpc hr hchan =>
    refine Or.inr ⟨t.item.respondTo, rfl, ?_⟩
    show Option.any _ (s.requests.set _ { r with chan := .full reply })[t.item.respondTo]?
    rw [List.getElem?_set_self (List.getElem?_eq_some_iff.mp hr).1]
    rfl
  | discard k t reply r ht hpc hr hchan =>
    refine Or.inr ⟨t.item.respondTo, State.dropSlot?_answered _ _, ?_⟩
    rw [State.dropSlot?_requests]
    show Option.any _ s.requests[t.item.respondTo]?
    rw [hr]
    simp [Request.used, hchan]
  | notify i r hr hpc =>
    left
    unfold State.notifyOne State.setRequest
    split <;> rfl
  | releaseBody | hangUp | settle | skip | backendErr =>
    left
    simp [State.setRequest, State.setTask, State.settle]
  | _ => exact Or.inl rfl

theorem Served.step {cfg : Config} {s s' : State R} {a : Action} (h : Served s)
    (hs : Stepped cfg s a s') : Served s' where
  toHandled := h.toHandled.step hs
  awaited := by
    by_cases hpush : ∃ j, a = .push j
    · obtain ⟨j, rfl⟩ := hpush
      intro i ri hi hawaits
      cases hs with
      | pushed _ r t queue hr hpc ht hroom hq =>
        rcases Tally.getElem?_set_cases hr hi with ⟨rfl, -⟩ | ⟨-, hold⟩
        · exact List.mem_append_right _ List.mem_cons_self
        · exact List.mem_append_left _ (h.awaited i ri hold hawaits)
      | queueFull _ r hr hpc hfull =>
        rcases Tally.getElem?_set_cases hr hi with ⟨-, rfl⟩ | ⟨-, hold⟩
        · exact absurd hawaits (by simp [Request.awaits])
        · exact h.awaited i ri hold hawaits
    · have haccepted : s'.accepted = s.accepted := by
        rcases (events_cases hs).1 with he | ⟨j, -, hj, -⟩
        · exact he
        · exact absurd ⟨j, hj⟩ hpush
      rw [haccepted]
      refine forall_requests hs (fun _ _ _ hfalse => ?_) (fun i _ _ _ hm _ hi hawaits => ?_)
        h.awaited
      · exact absurd hfalse (by simp [Request.arrived, Request.awaits])
      · exact hi (hm.awaits (fun ha => hpush ⟨i, ha⟩) hawaits)
  delivered := by
    have hold : ∀ i ∈ s.answered, s'.requests[i]?.any Request.used := fun i hi =>
      any_requests hs (fun _ _ _ hm => hm.used) (h.delivered i hi)
    intro i hi
    rcases answered_cases hs with he | ⟨j, he, hj⟩
    · exact hold i (he ▸ hi)
    · rw [he] at hi
      rcases List.mem_append.mp hi with hi | hi
      · exact hold i hi
      · rw [List.mem_singleton.mp hi]
        exact hj

theorem served_of_exec {cfg : Config} {tenants : List (Tenant R)} {actions : List Action}
    {s : State R} (hrun : exec (step cfg) (init cfg tenants) actions = some s) : Served s :=
  exec_invariant (fun _ _ _ h hs => h.step (step_cases hs)) (served_init cfg tenants) hrun

omit [Add R] [Sub R] [Mul R] [Min R] [LT R] [DecidableLT R] [NatCast R] [RatCast R] in
/-- An unused channel of an accepted request has its one sender on the way. -/
theorem Served.on_the_way {s : State R} (h : Served s) {i : ℕ} {r : Request}
    (hr : s.requests[i]? = some r) (hawaits : r.awaits) (hchan : r.chan = .empty) :
    i ∉ s.answered ∧ i ∉ s.skipped ∧ s.queued i + s.batched i + s.dispatched i = 1 := by
  have hanswered : i ∉ s.answered := by
    intro hi
    have hused := h.delivered i hi
    rw [hr] at hused
    exact absurd hchan (of_decide_eq_true hused)
  have hskipped : i ∉ s.skipped := by
    intro hi
    have hhung := h.skipped i hi
    unfold State.hungUp at hhung
    rw [hr] at hhung
    have hclosed : r.chan = .closed := of_decide_eq_true hhung
    rw [hchan] at hclosed
    exact absurd hclosed (by simp)
  refine ⟨hanswered, hskipped, ?_⟩
  have hplaces := h.places i
  have honce := (h.once i).trans (Bool.toNat_le _)
  have := List.count_pos_iff.mpr (h.awaited i r hr hawaits)
  rw [List.count_eq_zero.mpr hanswered, List.count_eq_zero.mpr hskipped] at hplaces
  omega

/-- A handler at `rx.await` has its reply in the channel, or the sender of its reply is with
exactly one item in the queue, the batch or a dispatch task: `rx.await` never fails, and no
request is answered with `scheduler_gone` by the gateway. -/
theorem reply_on_the_way (cfg : Config) (tenants : List (Tenant R)) (actions : List Action)
    (s : State R) (hrun : exec (step cfg) (init cfg tenants) actions = some s) (i : ℕ) (r : Request)
    (hr : s.requests[i]? = some r) (hpc : r.pc = .waiting) :
    (∃ reply, r.chan = .full reply ∧ i ∈ s.answered ∧
      s.queued i + s.batched i + s.dispatched i = 0) ∨
    r.chan = .empty ∧ i ∉ s.answered ∧ i ∉ s.skipped ∧
      s.queued i + s.batched i + s.dispatched i = 1 := by
  have h := served_of_exec hrun
  have hawaits : r.awaits := by
    unfold Request.awaits
    rw [hpc]
  have hcoherent := h.coherent i r hr
  rw [Request.Coherent, hpc] at hcoherent
  rcases hcoherent.2 with hempty | ⟨reply, hfull⟩
  · exact Or.inr ⟨hempty, h.on_the_way hr hawaits hempty⟩
  · have hanswered := h.answered i r hr (by rw [Request.replied, hfull])
    refine Or.inl ⟨reply, hfull, hanswered, ?_⟩
    have hplaces := h.places i
    have honce := (h.once i).trans (Bool.toNat_le _)
    have := List.count_pos_iff.mpr hanswered
    omega

/-- Two handlers wait: the reply of one has come, the other one's item is in the batch. -/
theorem reply_on_the_way_both :
    ∃ s : State ℚ, exec (step ⟨2, 0, 1, true, 16⟩)
        (init ⟨2, 0, 1, true, 16⟩ [.fromConfig ⟨"acme", "key", .paid, 600, 5, 4⟩ 0])
        [.arrive 0 ⟨none, false⟩, .arrive 0 ⟨some 8, true⟩, .admission 0 0, .push 0, .notify 0,
          .admission 1 0, .push 1, .notify 1, .acquire, .pop, .dispatchNext, .send 0 8,
          .backendErr 0 .backendUnreachable, .dispatchNext, .acquire, .pop, .deliver 0] = some s ∧
      0 ∈ s.answered ∧ s.queued 1 + s.batched 1 + s.dispatched 1 = 1 := by
  have hrun : (exec (step ⟨2, 0, 1, true, 16⟩)
      (init ⟨2, 0, 1, true, 16⟩ [.fromConfig ⟨"acme", "key", .paid, 600, 5, 4⟩ 0])
      [.arrive 0 ⟨none, false⟩, .arrive 0 ⟨some 8, true⟩, .admission 0 0, .push 0, .notify 0,
        .admission 1 0, .push 1, .notify 1, .acquire, .pop, .dispatchNext, .send 0 8,
        .backendErr 0 .backendUnreachable, .dispatchNext, .acquire, .pop, .deliver 0]).map
          (fun s : State ℚ => s.requests.map fun r => (r.pc, r.chan))
      = some [(.waiting, .full (.error .backendUnreachable)), (.waiting, .empty)] := by
    decide +kernel
  obtain ⟨s, hs, hl⟩ := Option.map_eq_some_iff.mp hrun
  obtain ⟨r₀, r₁, hrequests, h₀, h₁⟩ : ∃ r₀ r₁ : Request, s.requests = [r₀, r₁] ∧
      (r₀.pc, r₀.chan) = (.waiting, .full (.error .backendUnreachable)) ∧
      (r₁.pc, r₁.chan) = (.waiting, .empty) := by
    cases hrs : s.requests with
    | nil => simp [hrs] at hl
    | cons r₀ rest =>
      cases rest with
      | nil => simp [hrs] at hl
      | cons r₁ rest =>
        cases rest with
        | nil =>
          rw [hrs] at hl
          simp only [List.map_cons, List.map_nil, List.cons.injEq, and_true] at hl
          exact ⟨r₀, r₁, rfl, hl.1, hl.2⟩
        | cons r₂ rest => simp [hrs] at hl
  simp only [Prod.mk.injEq] at h₀ h₁
  have hfull := reply_on_the_way _ _ _ s hs 0 r₀ (by rw [hrequests]; rfl) h₀.1
  have hempty := reply_on_the_way _ _ _ s hs 1 r₁ (by rw [hrequests]; rfl) h₁.1
  rw [h₀.2] at hfull
  rw [h₁.2] at hempty
  refine ⟨s, hs, ?_, ?_⟩
  · rcases hfull with ⟨-, -, hanswered, -⟩ | ⟨hchan, -⟩
    · exact hanswered
    · exact absurd hchan (by simp)
  · rcases hempty with ⟨reply, hchan, -⟩ | ⟨-, -, -, hone⟩
    · exact absurd hchan (by simp)
    · exact hone

end Gateway
end OxideGate
