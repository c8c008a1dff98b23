import OxideGate.GatewayHandlers

/-!
# What a tenant is charged for a buffered reply

`buffered_response` records the tokens of a reply after the whole body is in hand; on every other
way out the lease is settled with nothing used. The backend generates from `Backend::send` on, in
a task that no disconnect cancels. `State.escapes` names the steps at which generated tokens get
away from the lease, and `generated_charged` says that there are no others.
-/

namespace OxideGate
namespace Gateway

open Runs

variable {R : Type}

/-- The tokens recorded on a lease. -/
def LeaseCell.used : LeaseCell → UInt64
  | .none => 0
  | .held l | .settled l => l.used

@[simp] theorem LeaseCell.used_settle (c : LeaseCell) : c.settle.used = c.used := by
  cases c <;> rfl

/-- What is recorded on a lease that is held. -/
theorem LeaseCell.used_recordTokens {c : LeaseCell} (h : c.isHeld) (n : UInt64) :
    (c.recordTokens n).used = c.used + n := by
  obtain ⟨l, rfl⟩ := exists_of_isHeld h
  rfl

namespace Request

/-- The backend has generated tokens for a request that is not streamed. -/
def owing (r : Request) : Bool := !r.req.stream && decide (r.generated ≠ 0)

/-- The reply that waits for the handler is an error. -/
def failed (r : Request) : Bool :=
  match r.chan with
  | .full (.error _) => true
  | .full (.ok _) | .empty | .taken | .closed => false

/-- What has been recorded, and what is still to be, for a request that is not streamed. -/
def Charged (r : Request) : Prop :=
  match r.pc with
  | .admitting | .pushing => r.generated = 0 ∧ r.lease.used = 0
  | .notifying | .waiting | .reading _ => r.lease.used = 0
  | .parsed _ n => r.generated ≤ n ∧ r.lease.used = 0
  | .streaming _ => False
  | .closing _ _ | .done => r.generated.toUInt64 ≤ r.lease.used

end Request

/-- The steps that let generated tokens go uncharged: the client hangs up or the body fails after
the backend has generated, `dispatch` reports an error although it has, or it is sent a request
whose client is gone. -/
def State.escapes (s : State R) : Action → Bool
  | .disconnect i | .bodyErr i => s.requests[i]?.any Request.owing
  | .receive i => s.requests[i]?.any fun r => r.owing && r.failed
  | .send k g => s.tasks[k]?.any fun t =>
      s.requests[t.item.respondTo]?.any fun r => !r.req.stream && r.hungUp && decide (g ≠ 0)
  | _ => false

/-- A well-formed buffered reply reports the tokens that were generated for it. -/
def State.misreports (s : State R) : Action → Bool
  | .bodyOk i n => s.requests[i]?.any fun r => decide (r.generated ≠ n)
  | _ => false

theorem toUInt64_zero_le (n : UInt64) : (0 : UInt32).toUInt64 ≤ n := by
  rw [UInt64.le_iff_toNat_le]
  exact Nat.zero_le _

theorem Request.eq_zero_of_not_owing {r : Request} (h : r.owing = false)
    (hstream : r.req.stream = false) : r.generated = 0 := by
  unfold Request.owing at h
  simpa [hstream] using h

/-- A request that generates nothing is charged wherever it is. -/
theorem Request.Charged.send_zero {r : Request} (h : r.Charged) :
    Request.Charged { r with generated := 0 } := by
  unfold Request.Charged at h ⊢
  split at h
  · rename_i hpc
    simp only [hpc]
    exact ⟨trivial, h.2⟩
  · rename_i hpc
    simp only [hpc]
    exact ⟨trivial, h.2⟩
  · rename_i hpc
    simp only [hpc]
    exact h
  · rename_i hpc
    simp only [hpc]
    exact h
  · rename_i slot hpc
    simp only [hpc]
    exact h
  · rename_i slot n hpc
    simp only [hpc]
    exact ⟨UInt32.zero_le, h.2⟩
  · exact absurd h id
  · rename_i slot exit hpc
    simp only [hpc]
    exact toUInt64_zero_le _
  · rename_i hpc
    simp only [hpc]
    exact toUInt64_zero_le _

/-- A move of a request that is not streamed keeps it charged, unless it is one at which generated
tokens get away. -/
theorem Request.Charged.moved {i : ℕ} {r r' : Request} {a : Action} (h : r.Charged)
    (hcoherent : r.Coherent) (hm : Moved i r a r') (hstream : r.req.stream = false)
    (hend : a = .disconnect i ∨ a = .bodyErr i → r.generated = 0)
    (hfailed : a = .receive i → r.failed → r.generated = 0)
    (hbody : ∀ n, a = .bodyOk i n → r.generated = n)
    (hsend : ∀ k g, a = .send k g → g = 0 ∨ r.pc = .notifying ∨ r.pc = .waiting) :
    r'.Charged := by
  cases hm with
  | granted now reserve hpc =>
    rw [Charged, hpc] at h
    exact ⟨h.1, rfl⟩
  | denied now reserve e hpc | queueFull hpc =>
    rw [Charged, hpc] at h
    show r.generated.toUInt64 ≤ r.lease.used
    rw [h.1]
    exact toUInt64_zero_le _
  | pushed hpc =>
    rw [Charged, hpc] at h
    exact h.2
  | receiveStream slot hpc hchan hstream' =>
    rw [hstream] at hstream'
    exact absurd hstream' (by simp)
  | notify hpc | receiveBuffered slot hpc =>
    rw [Charged, hpc] at h
    exact h
  -- `?` leaves before `record_tokens`, here and in the next ways out
  | receiveError e hpc hchan =>
    show r.generated.toUInt64 ≤ r.lease.used
    rw [hfailed rfl (by rw [failed, hchan])]
    exact toUInt64_zero_le _
  | bodyOk n slot hpc =>
    rw [Charged, hpc] at h
    rw [← hbody n rfl]
    exact ⟨UInt32.le_refl _, h⟩
  | bodyErr slot hpc =>
    show r.generated.toUInt64 ≤ r.lease.used
    rw [hend (Or.inr rfl)]
    exact toUInt64_zero_le _
  | releaseBody slot n hpc =>
    -- the only tokens that a buffered reply records, on a lease with nothing used
    rw [Charged, hpc] at h
    rw [Coherent, hpc] at hcoherent
    show r.generated.toUInt64 ≤ (r.lease.recordTokens n.toUInt64).used
    rw [LeaseCell.used_recordTokens hcoherent.1, h.2, UInt64.zero_add, UInt64.le_iff_toNat_le,
      UInt32.toNat_toUInt64, UInt32.toNat_toUInt64, ← UInt32.le_iff_toNat_le]
    exact h.1
  -- a request that is not streamed has no body to pipe through
  | chunk bytes slot hpc | closeBody slot hpc =>
    rw [Charged, hpc] at h
    exact absurd h id
  | hangUp hpc | cancel slot hpc =>
    show r.generated.toUInt64 ≤ r.lease.used
    rw [hend (Or.inl rfl)]
    exact toUInt64_zero_le _
  | settle now slot exit hpc =>
    rw [Charged, hpc] at h
    show r.generated.toUInt64 ≤ r.lease.settle.used
    rw [LeaseCell.used_settle]
    exact h
  -- from here on the backend generates; nothing is recorded while the handler waits
  | send k g =>
    rcases hsend k g rfl with rfl | hpc | hpc
    · exact h.send_zero
    · simp only [Charged, hpc] at h ⊢
      exact h
    · simp only [Charged, hpc] at h ⊢
      exact h
  | deliver k reply hchan => exact h

theorem any_eq_false {p : Request → Bool} {l : List Request} {i : ℕ} {r : Request}
    (h : l[i]?.any p = false) (hr : l[i]? = some r) : p r = false := by
  rw [hr] at h
  exact h

/-- A task that sends finds its request waiting, or its client gone. -/
theorem waiting_of_send {s : State R} (hhandled : Handled s) {k : ℕ} {t : Task} {r : Request}
    (ht : s.tasks[k]? = some t) (hpc : t.pc ≠ .finished)
    (hr : s.requests[t.item.respondTo]? = some r) (hchan : r.hungUp = false) :
    r.pc = .notifying ∨ r.pc = .waiting := by
  obtain ⟨haccepted, hanswered⟩ := hhandled.unanswered ht hpc
  have hentered := hhandled.entered _ haccepted
  rw [hr] at hentered
  have hempty : r.chan = .empty := by
    cases hc : r.chan with
    | empty => rfl
    | closed => simp [Request.hungUp, hc] at hchan
    | full reply =>
      exact absurd (hhandled.answered _ r hr (by rw [Request.replied, hc])) hanswered
    | taken => exact absurd (hhandled.answered _ r hr (by rw [Request.replied, hc])) hanswered
  exact ((hhandled.coherent _ r hr).of_empty hentered hempty).1

variable [Add R] [Sub R] [Mul R] [Min R] [LT R] [DecidableLT R] [NatCast R] [RatCast R]

/-- A step at which nothing escapes and no reply misreports keeps every buffered request
charged. -/
theorem charged_step {cfg : Config} {s s' : State R} {a : Action} (hhandled : Handled s)
    (hsafe : s.escapes a = false) (hreport : s.misreports a = false)
    (hs : Stepped cfg s a s')
    (h : ∀ (i : ℕ) r, s.requests[i]? = some r → r.req.stream = false → r.Charged) :
    ∀ (i : ℕ) r, s'.requests[i]? = some r → r.req.stream = false → r.Charged := by
  apply forall_requests hs (P := fun _ r => r.req.stream = false → r.Charged)
  · intro i tenant req _
    exact ⟨rfl, rfl⟩
  · intro i r r' hr hm hans hcharged hstream'
    have hstream : r.req.stream = false := by
      cases hm <;> exact hstream'
    apply (hcharged hstream).moved (hhandled.coherent i r hr) hm hstream
    · intro ha
      apply Request.eq_zero_of_not_owing _ hstream
      rcases ha with rfl | rfl
      · exact any_eq_false hsafe hr
      · exact any_eq_false hsafe hr
    · intro ha hfailed
      subst ha
      have howing := any_eq_false hsafe hr
      simp only [hfailed, Bool.and_true] at howing
      exact Request.eq_zero_of_not_owing howing hstream
    · intro n ha
      subst ha
      have hequal := any_eq_false hreport hr
      simpa using hequal
    · intro k g ha
      subst ha
      obtain ⟨t, ht, rfl, hpc⟩ := hans k rfl
      have hgone : s.requests[t.item.respondTo]?.any
          (fun r => !r.req.stream && r.hungUp && decide (g ≠ 0)) = false := by
        simp only [State.escapes, ht, Option.any_some] at hsafe
        exact hsafe
      have hcond := any_eq_false hgone hr
      cases hhung : r.hungUp with
      | true =>
        left
        simpa [hstream, hhung] using hcond
      | false => exact Or.inr (waiting_of_send hhandled ht hpc hr hhung)
  · exact h

/-- Every token that the backend generates for a buffered reply is charged, whatever the order of
the steps, in every run in which replies report what was generated and no step lets it escape. -/
theorem generated_charged (cfg : Config) (tenants : List (Tenant R)) (actions : List Action)
    (s : State R) (hrun : exec (step cfg) (init cfg tenants) actions = some s)
    (hreport : Along (step cfg) (fun s a => s.misreports a = false) (init cfg tenants) actions)
    (hsafe : Along (step cfg) (fun s a => s.escapes a = false) (init cfg tenants) actions)
    (i : ℕ) (r : Request) (l : Lease) (hr : s.requests[i]? = some r)
    (hstream : r.req.stream = false) (hl : r.lease = .settled l) :
    r.generated.toNat ≤ l.used.toNat := by
  have hstep : ∀ (s : State R) a s',
      Handled s ∧ (∀ (i : ℕ) r, s.requests[i]? = some r → r.req.stream = false → r.Charged) →
      s.misreports a = false ∧ s.escapes a = false → step cfg s a = some s' →
      Handled s' ∧ ∀ (i : ℕ) r, s'.requests[i]? = some r → r.req.stream = false → r.Charged := by
    intro s a s' ⟨hhandled, hcharged⟩ ⟨hreport, hsafe⟩ hs
    have hs' := step_cases hs
    exact ⟨hhandled.step hs', charged_step hhandled hsafe hreport hs' hcharged⟩
  obtain ⟨hhandled, hcharged⟩ := exec_invariant_along hstep
    ⟨handled_init cfg tenants, fun i r hr => by simp [init] at hr⟩ (hreport.and _ hsafe) hrun
  have hr' := hcharged i r hr hstream
  -- until it is done a handler has not settled its lease
  have hdone := (hhandled.coherent i r hr).of_settled hl
  rw [Request.Charged, hdone, hl] at hr'
  rw [← UInt32.toNat_toUInt64, ← UInt64.le_iff_toNat_le]
  exact hr'

/-- A buffered reply that is parsed and charged in full. -/
theorem generated_charged_reply :
    ∃ (s : State ℚ) (r : Request) (l : Lease), exec (step ⟨2, 0, 1, true, 16⟩)
        (init ⟨2, 0, 1, true, 16⟩ [.fromConfig ⟨"acme", "key", .paid, 600, 5, 4⟩ 0])
        [.arrive 0 ⟨some 8, false⟩, .admission 0 0, .push 0, .notify 0, .acquire, .pop,
          .dispatchNext, .send 0 5, .backendOk 0, .deliver 0, .receive 0, .bodyOk 0 5,
          .releaseBody 0, .settle 0 1] = some s ∧
      s.requests[0]? = some r ∧ r.lease = .settled l ∧ r.generated = 5 ∧
      r.generated.toNat ≤ l.used.toNat := by
  have hrun : (exec (step ⟨2, 0, 1, true, 16⟩)
      (init ⟨2, 0, 1, true, 16⟩ [.fromConfig ⟨"acme", "key", .paid, 600, 5, 4⟩ 0])
      [.arrive 0 ⟨some 8, false⟩, .admission 0 0, .push 0, .notify 0, .acquire, .pop,
        .dispatchNext, .send 0 5, .backendOk 0, .deliver 0, .receive 0, .bodyOk 0 5,
        .releaseBody 0, .settle 0 1]).map (fun s : State ℚ => s.requests)
      = some [⟨0, ⟨some 8, false⟩, .done, .settled ⟨8, 5⟩, .taken, .fresh, 5, [.ok]⟩] := by
    decide +kernel
  obtain ⟨s, hs, hl⟩ := Option.map_eq_some_iff.mp hrun
  have hr : s.requests[0]?
      = some ⟨0, ⟨some 8, false⟩, .done, .settled ⟨8, 5⟩, .taken, .fresh, 5, [.ok]⟩ := by
    rw [hl]
    rfl
  exact ⟨s, _, _, hs, hr, rfl, rfl,
    generated_charged _ _ _ s hs (by decide +kernel) (by decide +kernel) 0 _ _ hr rfl rfl⟩

/-- A client that hangs up while its request is at the backend gets the whole reservation
refunded: 8 tokens are generated, and the lease is settled with none. -/
theorem generated_uncharged :
    ∃ (s : State ℚ) (r : Request), exec (step ⟨2, 0, 1, true, 16⟩)
        (init ⟨2, 0, 1, true, 16⟩ [.fromConfig ⟨"acme", "key", .paid, 600, 5, 4⟩ 0])
        [.arrive 0 ⟨some 8, false⟩, .admission 0 0, .push 0, .notify 0, .acquire, .pop,
          .dispatchNext, .send 0 8, .disconnect 0, .settle 0 1] = some s ∧
      s.requests[0]? = some r ∧ r.req.stream = false ∧ r.generated = 8 ∧
      r.lease = .settled ⟨8, 0⟩ := by
  have hrun : (exec (step ⟨2, 0, 1, true, 16⟩)
      (init ⟨2, 0, 1, true, 16⟩ [.fromConfig ⟨"acme", "key", .paid, 600, 5, 4⟩ 0])
      [.arrive 0 ⟨some 8, false⟩, .admission 0 0, .push 0, .notify 0, .acquire, .pop,
        .dispatchNext, .send 0 8, .disconnect 0, .settle 0 1]).map (fun s : State ℚ => s.requests)
      = some [⟨0, ⟨some 8, false⟩, .done, .settled ⟨8, 0⟩, .closed, .fresh, 8, []⟩] := by
    decide +kernel
  obtain ⟨s, hs, hl⟩ := Option.map_eq_some_iff.mp hrun
  refine ⟨s, ⟨0, ⟨some 8, false⟩, .done, .settled ⟨8, 0⟩, .closed, .fresh, 8, []⟩, hs, ?_, rfl,
    rfl, rfl⟩
  rw [hl]
  rfl

end Gateway
end OxideGate
