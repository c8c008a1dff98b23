import OxideGate.GatewayOutcomes
import OxideGate.GatewayTimed

/-!
# What the latencies measure

The stopwatch of a request starts when its handler does, before the queue, so that what the queue
costs is part of `TTFT` and of `REQUEST_DURATION`. `OnClock` is what the readings of one request
are to each other. `latencies_measured` is that each request is measured once in each histogram
that it belongs to, and that a latency is never less than the time before the queue and the wait
in it.
-/

namespace OxideGate
namespace Gateway

open Runs

variable {R : Type}

/-- The readings of a request follow each other. -/
structure OnClock (s : Timed R) : Prop where
  handled : Handled s.gateway
  arrived : ∀ i, s.arrived i ≤ s.now
  enqueued : ∀ i ∈ s.gateway.accepted, s.arrived i ≤ s.enqueuedAt i ∧ s.enqueuedAt i ≤ s.now
  waits : s.queueWait.map Sample.request = s.gateway.sent
  waited : ∀ w ∈ s.queueWait, s.enqueuedAt w.request + w.time ≤ s.now

/-- Nothing has happened yet. -/
theorem onClock_init (cfg : Config) (tenants : List (Tenant R)) :
    OnClock (Timed.init cfg tenants) where
  handled := handled_init cfg tenants
  arrived := fun _ => le_rfl
  enqueued := fun _ hi => absurd hi List.not_mem_nil
  waits := rfl
  waited := fun _ hw => absurd hw List.not_mem_nil

/-- A request with a sample of its wait has been sent, so it has been accepted. -/
theorem OnClock.accepted {s : Timed R} (h : OnClock s) {w : Sample} (hw : w ∈ s.queueWait) :
    w.request ∈ s.gateway.sent ∧ w.request ∈ s.gateway.accepted := by
  have hsent : w.request ∈ s.gateway.sent := h.waits ▸ List.mem_map_of_mem hw
  refine ⟨hsent, ?_⟩
  by_contra hi
  exact (h.handled.unsent_of_unaccepted hi).2 hsent

/-! ## What an action reads -/

section Noted

variable {cfg : Config} {s u : Timed R} {a : Action}

theorem Noted.now (h : Noted cfg s a u) : u.now = s.now := by
  cases h <;> rfl

/-- An entry set to the present is not in the future. -/
theorem update_now_le {f : ℕ → ℕ} {now : ℕ} (h : ∀ i, f i ≤ now) (j i : ℕ) :
    Function.update f j now i ≤ now := by
  by_cases hi : i = j
  · rw [hi, Function.update_self]
  · rw [Function.update_of_ne hi]
    exact h i

/-- Nobody arrives in the future. -/
theorem Noted.arrived_le (h : Noted cfg s a u) (hs : ∀ i, s.arrived i ≤ s.now) (i : ℕ) :
    u.arrived i ≤ s.now := by
  cases h with
  | arrived tenant req => exact update_now_le hs _ i
  | _ => exact hs i

/-- A handler reads the clock once. -/
theorem Noted.arrived_eq (h : Noted cfg s a u) {i : ℕ} {r : Request}
    (hr : s.gateway.requests[i]? = some r) : u.arrived i = s.arrived i := by
  cases h with
  | arrived tenant req =>
    exact Function.update_of_ne (List.getElem?_eq_some_iff.mp hr).1.ne _ _
  | _ => rfl

theorem Noted.enqueuedAt_eq (h : Noted cfg s a u) {i : ℕ} (hi : a ≠ .push i) :
    u.enqueuedAt i = s.enqueuedAt i := by
  cases h with
  | pushed j => exact Function.update_of_ne (fun he => hi (congrArg Action.push he.symm)) _ _
  | _ => rfl

theorem Noted.enqueuedAt_push {i : ℕ} (h : Noted cfg s (.push i) u) :
    u.enqueuedAt i = s.now := by
  cases h with
  | pushed => exact Function.update_self _ _ _
  | quiet _ hpush => exact absurd rfl (hpush i)

theorem Noted.queueWait_eq (h : Noted cfg s a u) (ha : ∀ k g, a ≠ .send k g) :
    u.queueWait = s.queueWait := by
  cases h with
  | sent k g t ht => exact absurd rfl (ha k g)
  | _ => rfl

/-- A dispatch samples the time since the item was pushed. -/
theorem Noted.queueWait_send {k : ℕ} {g : UInt32} (h : Noted cfg s (.send k g) u) {t : Task}
    (ht : s.gateway.tasks[k]? = some t) :
    u.queueWait = s.queueWait ++
      [⟨t.item.respondTo, some t.item.tier, s.now - s.enqueuedAt t.item.respondTo⟩] := by
  cases h with
  | sent _ _ t' ht' =>
    rw [ht] at ht'
    rw [Option.some.inj ht']
  | quiet _ _ hsend =>
    rw [hsend k g rfl] at ht
    exact absurd ht (by simp)

theorem Noted.queueWait_subset (h : Noted cfg s a u) : s.queueWait ⊆ u.queueWait := by
  cases h with
  | sent => exact List.subset_append_left _ _
  | _ => exact List.Subset.refl _

/-- The first chunk of a request is sampled, and no other. -/
theorem Noted.ttft_cases (h : Noted cfg s a u) :
    u.ttft = s.ttft ∧ u.seenFirst = s.seenFirst ∧ (∀ i bytes, a = .chunk i bytes → s.seenFirst i) ∨
    ∃ i bytes, a = .chunk i bytes ∧ s.seenFirst i = false ∧
      u.seenFirst = Function.update s.seenFirst i true ∧
      u.ttft = s.ttft ++ [⟨i, s.gateway.tier? i, s.now - s.arrived i⟩] := by
  cases h with
  | first i n hi => exact Or.inr ⟨i, n, rfl, hi, rfl, rfl⟩
  | quiet _ _ _ hchunk => exact Or.inl ⟨rfl, rfl, hchunk⟩
  | _ => exact Or.inl ⟨rfl, rfl, by simp⟩

/-- A reply that is complete is sampled when its handler settles. -/
theorem Noted.requestDuration_cases (h : Noted cfg s a u) :
    u.requestDuration = s.requestDuration ∧ (∀ i now, a = .settle i now → ∀ r,
      s.gateway.requests[i]? = some r → r.complete = false) ∨
    ∃ i now r, a = .settle i now ∧ s.gateway.requests[i]? = some r ∧ r.complete ∧
      u.requestDuration = s.requestDuration ++ [⟨i, none, s.now - s.arrived i⟩] := by
  cases h with
  | answered i now r hr hc => exact Or.inr ⟨i, now, r, rfl, hr, hc, rfl⟩
  | quiet _ _ _ _ hsettle => exact Or.inl ⟨rfl, hsettle⟩
  | _ => exact Or.inl ⟨rfl, by simp⟩

end Noted

/-! ## Replies -/

namespace Request

/-- What is known of a request by the way it goes: a reply that is streamed is counted before its
body, a buffered one after it. -/
def OnCourse (r : Request) : Prop :=
  match r.pc with
  | .admitting | .pushing | .notifying | .waiting => r.outcomes = []
  | .reading _ | .parsed _ _ | .closing _ (.returned (.ok ())) =>
    r.outcomes = [] ∧ r.req.stream = false ∧ r.chan = .taken
  | .closing _ (.returned (.error _)) | .closing _ .cancelled => r.outcomes = []
  | .streaming _ | .closing _ .bodyClosed => r.req.stream = true
  | .done => True

/-- A buffered reply has been handed to the client. -/
def delivered (r : Request) : Bool :=
  !r.req.stream && decide (r.pc = .done) && decide (.ok ∈ r.outcomes)

theorem OnCourse.moved {i : ℕ} {r r' : Request} {a : Action} (h : r.OnCourse)
    (hm : Moved i r a r') : r'.OnCourse := by
  cases hm with
  | granted now reserve hpc | notify hpc | pushed hpc =>
    rw [OnCourse, hpc] at h
    exact h
  | queueFull hpc | receiveError e hpc | hangUp hpc =>
    rw [OnCourse, hpc] at h
    exact h
  | denied | settle => trivial
  | receiveStream slot hpc hchan hstream => exact hstream
  | receiveBuffered slot hpc hchan hstream =>
    rw [OnCourse, hpc] at h
    exact ⟨h, hstream, rfl⟩
  | bodyOk n slot hpc =>
    rw [OnCourse, hpc] at h
    exact h
  | bodyErr slot hpc | cancel slot hpc =>
    rw [OnCourse, hpc] at h
    exact h.1
  | releaseBody n slot hpc =>
    rw [OnCourse, hpc] at h
    exact h
  | chunk bytes slot hpc =>
    rw [OnCourse, hpc] at h
    rw [OnCourse, hpc]
    exact h
  | closeBody slot hpc =>
    rw [OnCourse, hpc] at h
    exact h
  | send k g => exact h
  | deliver k reply hchan =>
    unfold OnCourse at h ⊢
    split at h <;> simp_all

/-- A complete reply is a buffered one that is about to be returned. -/
theorem OnCourse.of_complete {r : Request} (h : r.OnCourse) (hc : r.complete) :
    (∃ slot, r.pc = .closing slot (.returned (.ok ()))) ∧ r.outcomes = [] ∧
      r.req.stream = false ∧ r.chan = .taken := by
  unfold complete at hc
  split at hc
  · rename_i slot hpc
    rw [OnCourse, hpc] at h
    exact ⟨⟨slot, hpc⟩, h⟩
  · exact absurd hc (by simp)

theorem not_delivered {r : Request} (h : r.pc ≠ .done) : r.delivered = false := by
  simp [delivered, h]

/-- What has been delivered stays so. -/
theorem delivered_moved {i : ℕ} {r r' : Request} {a : Action} (hm : Moved i r a r')
    (h : r.delivered) : r'.delivered := by
  have hdone : r.pc = .done := by
    by_contra hpc
    rw [not_delivered hpc] at h
    exact absurd h (by simp)
  cases hm with
  | send | deliver => exact h
  | _ => simp_all

/-- A reply is delivered when the handler that has all of it is done. -/
theorem OnCourse.delivered {i : ℕ} {r r' : Request} {a : Action} (h : r.OnCourse)
    (hm : Moved i r a r') (hdelivered : r'.delivered) :
    r.delivered ∨ (∃ now, a = .settle i now) ∧ r.complete := by
  cases hm with
  | send | deliver => exact Or.inl hdelivered
  | denied now reserve e hpc =>
    rw [OnCourse, hpc] at h
    simp [Request.delivered, h, Outcome.of, GatewayError.parts] at hdelivered
  | settle now slot exit hpc =>
    rw [OnCourse, hpc] at h
    cases exit with
    | returned result =>
      cases result with
      | ok => exact Or.inr ⟨⟨now, rfl⟩, by rw [complete, hpc]⟩
      | error e =>
        have hnone : r.outcomes = [] := h
        cases e <;> simp [Request.delivered, hnone, Exit.outcomes, Outcome.of] at hdelivered
    | cancelled =>
      have hnone : r.outcomes = [] := h
      simp [Request.delivered, hnone, Exit.outcomes] at hdelivered
    | bodyClosed =>
      have hstream : r.req.stream = true := h
      simp [Request.delivered, hstream] at hdelivered
  | _ =>
    rw [not_delivered (by simp [*])] at hdelivered
    exact absurd hdelivered (by simp)

end Request

/-! ## The histograms -/

/-- What is in the histograms of the latencies. -/
structure Measured (s : Timed R) : Prop extends OnClock s where
  course : ∀ (i : ℕ) (r : Request), s.gateway.requests[i]? = some r → r.OnCourse
  /-- The wait is in the latency. -/
  covered : ∀ x ∈ s.ttft ++ s.requestDuration, ∃ w ∈ s.queueWait, w.request = x.request ∧
    s.enqueuedAt x.request - s.arrived x.request + w.time ≤ x.time
  firsts : ∀ i, i ∈ s.ttft.map Sample.request ↔ s.seenFirst i
  firstOnce : (s.ttft.map Sample.request).Nodup
  streams : ∀ i ∈ s.ttft.map Sample.request, s.gateway.requests[i]?.any fun r => r.req.stream
  charged : ∀ (i : ℕ) (r : Request), s.gateway.requests[i]? = some r → r.req.stream →
    r.lease.used ≠ 0 → s.seenFirst i
  durations : ∀ (i : ℕ) (r : Request), s.gateway.requests[i]? = some r → r.delivered →
    i ∈ s.requestDuration.map Sample.request
  durationOnce : (s.requestDuration.map Sample.request).Nodup
  replies : ∀ i ∈ s.requestDuration.map Sample.request,
    s.gateway.requests[i]?.any Request.delivered

/-- No sample has been taken yet. -/
theorem measured_init (cfg : Config) (tenants : List (Tenant R)) :
    Measured (Timed.init cfg tenants) where
  toOnClock := onClock_init cfg tenants
  course := fun i r hr => by simp [Timed.init, init] at hr
  covered := fun _ hx => absurd hx List.not_mem_nil
  firsts := fun _ => by simp [Timed.init]
  firstOnce := List.nodup_nil
  streams := fun _ hi => absurd hi List.not_mem_nil
  charged := fun i r hr => by simp [Timed.init, init] at hr
  durations := fun i r hr => by simp [Timed.init, init] at hr
  durationOnce := List.nodup_nil
  replies := fun _ hi => absurd hi List.not_mem_nil

/-- A reply that has come has waited in the queue, and that is part of its latency. -/
theorem OnClock.covers {s : Timed R} (h : OnClock s) {i : ℕ} {r : Request}
    (hr : s.gateway.requests[i]? = some r) (hchan : r.chan = .taken) :
    ∃ w ∈ s.queueWait, w.request = i ∧
      s.enqueuedAt i - s.arrived i + w.time ≤ s.now - s.arrived i := by
  have hsent : i ∈ s.gateway.sent := by
    have hcount := (h.handled.sent_of_taken hr hchan).1
    exact List.count_pos_iff.mp (by omega)
  obtain ⟨w, hw, rfl⟩ := List.mem_map.mp (h.waits ▸ hsent)
  have hread := h.enqueued _ (h.accepted hw).2
  have hwait := h.waited w hw
  exact ⟨w, hw, rfl, by omega⟩

theorem mem_concat_request {l : List Sample} {x : Sample} {i : ℕ} :
    i ∈ (l ++ [x]).map Sample.request ↔ i ∈ l.map Sample.request ∨ i = x.request := by
  simp

/-! ## Steps -/

variable [Add R] [Sub R] [Mul R] [Min R] [LT R] [DecidableLT R] [NatCast R] [RatCast R]

/-- Only `Backend::send` sends, and only what has been accepted. -/
theorem sent_cases {cfg : Config} {s s' : State R} {a : Action} (hs : Stepped cfg s a s') :
    s'.sent = s.sent ∧ (∀ k g, a ≠ .send k g) ∨
    ∃ k g t slot, a = .send k g ∧ s.tasks[k]? = some t ∧ t.pc = .ready slot ∧
      s'.sent = s.sent ++ [t.item.respondTo] := by
  cases hs with
  | send k g t slot r ht hpc hr => exact Or.inr ⟨k, g, t, slot, rfl, ht, hpc, rfl⟩
  | notify i r hr hpc =>
    refine Or.inl ⟨?_, by simp⟩
    unfold State.notifyOne State.setRequest
    split <;> rfl
  | releaseBody | hangUp | settle | skip | backendErr | discard =>
    refine Or.inl ⟨?_, by simp⟩
    simp [State.setRequest, State.setTask, State.settle]
  | _ => exact Or.inl ⟨rfl, by simp⟩

/-- What has been accepted is not pushed again. -/
theorem Placed.not_pushed {cfg : Config} {s s' : State R} {a : Action} (h : Placed s)
    (hs : Stepped cfg s a s') {i : ℕ} (hi : i ∈ s.accepted) : a ≠ .push i := by
  rintro rfl
  have haccepted := List.count_pos_iff.mpr hi
  cases hs with
  | pushed _ r t queue hr hpc ht hroom hq =>
    have hfresh := h.fresh hr (by rw [Request.submitted, hpc])
    omega
  | queueFull _ r hr hpc hfull =>
    have hfresh := h.fresh hr (by rw [Request.submitted, hpc])
    omega

/-- A step keeps the stopwatches and the samples behind the clock. -/
theorem OnClock.step {cfg : Config} {s s' : Timed R} (h : OnClock s)
    (hs : TimedStepped cfg s s') : OnClock s' := by
  cases hs with
  | passed d =>
    have hlater : s.now ≤ s.now + d := Nat.le_add_right _ _
    exact {
      handled := h.handled
      arrived := fun i => (h.arrived i).trans hlater
      enqueued := fun i hi => ⟨(h.enqueued i hi).1, (h.enqueued i hi).2.trans hlater⟩
      waits := h.waits
      waited := fun w hw => (h.waited w hw).trans hlater }
  | acted a u g hallows hs hnoted =>
    have hevents := (events_cases hs).1
    refine {
      handled := h.handled.step hs
      arrived := fun i => hnoted.now ▸ hnoted.arrived_le h.arrived i
      enqueued := fun i hi => ?_
      waits := ?_
      waited := fun w hw => ?_ }
    · show u.arrived i ≤ u.enqueuedAt i ∧ u.enqueuedAt i ≤ u.now
      rw [hnoted.now]
      by_cases hpush : a = .push i
      · subst hpush
        rw [hnoted.enqueuedAt_push]
        exact ⟨hnoted.arrived_le h.arrived i, le_rfl⟩
      · have hold : i ∈ s.gateway.accepted := by
          rcases hevents with he | ⟨j, r, rfl, hr, hpc, -, he⟩
          · exact he ▸ hi
          · rcases List.mem_append.mp (he ▸ hi) with hi | hi
            · exact hi
            · exact absurd (by rw [List.mem_singleton.mp hi]) hpush
        obtain ⟨r, hr⟩ := exists_request (h.handled.entered i hold)
        rw [hnoted.arrived_eq hr, hnoted.enqueuedAt_eq hpush]
        exact h.enqueued i hold
    · show u.queueWait.map Sample.request = g.sent
      rcases sent_cases hs with ⟨he, ha⟩ | ⟨k, n, t, slot, rfl, ht, hpc, he⟩
      · rw [hnoted.queueWait_eq ha, he, h.waits]
      · rw [hnoted.queueWait_send ht, he, List.map_append, h.waits]
        rfl
    · show u.enqueuedAt w.request + w.time ≤ u.now
      rw [hnoted.now]
      rcases sent_cases hs with ⟨-, ha⟩ | ⟨k, n, t, slot, rfl, ht, hpc, -⟩
      · replace hw : w ∈ s.queueWait := hnoted.queueWait_eq ha ▸ hw
        rw [hnoted.enqueuedAt_eq (h.handled.not_pushed hs (h.accepted hw).2)]
        exact h.waited w hw
      · rw [hnoted.enqueuedAt_eq (by simp)]
        replace hw : w ∈ s.queueWait ++ [_] := hnoted.queueWait_send ht ▸ hw
        rcases List.mem_append.mp hw with hw | hw
        · exact h.waited w hw
        · have haccepted := (h.handled.unanswered ht (by simp [hpc])).1
          rw [List.mem_singleton.mp hw]
          exact (Nat.add_sub_cancel' (h.enqueued _ haccepted).2).le

/-- What is covered stays covered: the readings of a request that has been sent do not change. -/
theorem Measured.covered_mono {cfg : Config} {s u : Timed R} {a : Action} {g : State R}
    (h : Measured s) (hs : Stepped cfg s.gateway a g) (hnoted : Noted cfg s a u) {x : Sample}
    (hx : x ∈ s.ttft ++ s.requestDuration) : ∃ w ∈ u.queueWait, w.request = x.request ∧
      u.enqueuedAt x.request - u.arrived x.request + w.time ≤ x.time := by
  obtain ⟨w, hw, hwx, hle⟩ := h.covered x hx
  have haccepted := (h.toOnClock.accepted hw).2
  obtain ⟨r, hr⟩ := exists_request (h.handled.entered _ haccepted)
  have hpush := h.handled.not_pushed hs haccepted
  refine ⟨w, hnoted.queueWait_subset hw, hwx, ?_⟩
  rw [← hwx, hnoted.enqueuedAt_eq hpush, hnoted.arrived_eq hr, hwx]
  exact hle

/-- The reply that comes to an end is measured, as a reply to a client that waits for all of it. -/
theorem delivered_of_settle {cfg : Config} {s s' : State R} {i : ℕ} {now : Instant} {r : Request}
    (hs : Stepped cfg s (.settle i now) s') (hr : s.requests[i]? = some r) (hcourse : r.OnCourse)
    (hc : r.complete) : s'.requests[i]?.any Request.delivered := by
  obtain ⟨⟨slot, hpc⟩, hnone, hstream, -⟩ := hcourse.of_complete hc
  cases hs with
  | settle _ _ r' slot' exit hr' hpc' =>
    rw [hr] at hr'
    obtain rfl := Option.some.inj hr'
    rw [hpc] at hpc'
    obtain ⟨rfl, rfl⟩ := HandlerPc.closing.inj hpc'
    show Option.any Request.delivered (s.requests.set i _)[i]? = true
    rw [List.getElem?_set_self (List.getElem?_eq_some_iff.mp hr).1]
    simp [Request.delivered, hnone, hstream, Exit.outcomes, Outcome.of]

/-- Only a chunk and the end of a buffered reply are measured. -/
theorem Measured.covered_step {cfg : Config} {s u : Timed R} {a : Action} {g : State R}
    (h : Measured s) (hs : Stepped cfg s.gateway a g) (hnoted : Noted cfg s a u) :
    ∀ x ∈ u.ttft ++ u.requestDuration, ∃ w ∈ u.queueWait, w.request = x.request ∧
      u.enqueuedAt x.request - u.arrived x.request + w.time ≤ x.time := by
  intro x hx
  have hnew : ∀ (i : ℕ) (r : Request) (tier : Option String), a ≠ .push i →
      s.gateway.requests[i]? = some r → r.chan = .taken → x ∈ [⟨i, tier, s.now - s.arrived i⟩] →
      ∃ w ∈ u.queueWait, w.request = x.request ∧
        u.enqueuedAt x.request - u.arrived x.request + w.time ≤ x.time := by
    intro i r tier hpush hr hchan hx
    obtain ⟨w, hw, hwx, hle⟩ := h.toOnClock.covers hr hchan
    rw [List.mem_singleton.mp hx, hnoted.enqueuedAt_eq hpush, hnoted.arrived_eq hr]
    exact ⟨w, hnoted.queueWait_subset hw, hwx, hle⟩
  rcases List.mem_append.mp hx with hx | hx
  · rcases hnoted.ttft_cases with ⟨httft, -, -⟩ | ⟨i, n, rfl, -, -, httft⟩
    · exact h.covered_mono hs hnoted (List.mem_append_left _ (httft ▸ hx))
    · rcases List.mem_append.mp (httft ▸ hx) with hx | hx
      · exact h.covered_mono hs hnoted (List.mem_append_left _ hx)
      · cases hs with
        | chunk _ _ r slot hr hpc =>
          have hcoherent := h.handled.coherent i r hr
          rw [Request.Coherent, hpc] at hcoherent
          exact hnew i r _ (by simp) hr hcoherent.2 hx
  · rcases hnoted.requestDuration_cases with ⟨hd, -⟩ | ⟨i, now, r, rfl, hr, hc, hd⟩
    · exact h.covered_mono hs hnoted (List.mem_append_right _ (hd ▸ hx))
    · rcases List.mem_append.mp (hd ▸ hx) with hx | hx
      · exact h.covered_mono hs hnoted (List.mem_append_right _ hx)
      · obtain ⟨-, -, -, hchan⟩ := (h.course i r hr).of_complete hc
        exact hnew i r _ (by simp) hr hchan hx

/-- A request that has no sample yet gets one. -/
theorem nodup_concat {l : List Sample} {x : Sample} (h : (l.map Sample.request).Nodup)
    (hx : x.request ∉ l.map Sample.request) : ((l ++ [x]).map Sample.request).Nodup := by
  rw [List.map_append, List.map_singleton, ← List.concat_eq_append]
  exact h.concat hx

/-- A step takes each sample where it belongs, and only once. -/
theorem Measured.step {cfg : Config} {s s' : Timed R} (h : Measured s)
    (hs : TimedStepped cfg s s') : Measured s' := by
  have hclock := h.toOnClock.step hs
  cases hs with
  | passed d => exact { h with toOnClock := hclock }
  | acted a u g hallows hs hnoted =>
    have hseen : ∀ i, s.seenFirst i → u.seenFirst i := by
      intro i hi
      rcases hnoted.ttft_cases with ⟨-, he, -⟩ | ⟨j, n, -, -, he, -⟩
      · rwa [he]
      · rw [he, Function.update_apply]
        split
        · rfl
        · exact hi
    refine {
      toOnClock := hclock
      course := forall_requests hs (fun _ _ _ => rfl)
        (fun _ _ _ _ hm _ hcourse => hcourse.moved hm) h.course
      covered := fun x hx => h.covered_step hs hnoted x hx
      firsts := fun i => ?_
      firstOnce := ?_
      streams := fun i hi => ?_
      charged := ?_
      durations := ?_
      durationOnce := ?_
      replies := fun i hi => ?_ }
    · show i ∈ u.ttft.map Sample.request ↔ u.seenFirst i
      rcases hnoted.ttft_cases with ⟨httft, he, -⟩ | ⟨j, n, -, -, he, httft⟩
      · rw [httft, he]
        exact h.firsts i
      · rw [httft, he, mem_concat_request, h.firsts i, Function.update_apply]
        by_cases hi : i = j <;> simp [hi]
    · show (u.ttft.map Sample.request).Nodup
      rcases hnoted.ttft_cases with ⟨httft, -, -⟩ | ⟨j, n, -, hj, -, httft⟩
      · rw [httft]
        exact h.firstOnce
      · rw [httft]
        refine nodup_concat h.firstOnce fun hmem => ?_
        rw [(h.firsts j).mp hmem] at hj
        exact absurd hj (by simp)
    · refine any_requests hs (fun _ _ _ hm hstream => ?_) (p := fun r => r.req.stream) ?_
      · cases hm <;> exact hstream
      · replace hi : i ∈ u.ttft.map Sample.request := hi
        rcases hnoted.ttft_cases with ⟨httft, -, -⟩ | ⟨j, n, rfl, hj, -, httft⟩
        · exact h.streams i (httft ▸ hi)
        · rw [httft, mem_concat_request] at hi
          rcases hi with hi | rfl
          · exact h.streams i hi
          · cases hs with
            | chunk _ _ r slot hr hpc =>
              have hcourse := h.course _ r hr
              rw [Request.OnCourse, hpc] at hcourse
              rw [hr]
              exact hcourse
    · refine forall_requests hs (P := fun i r => r.req.stream → r.lease.used ≠ 0 → u.seenFirst i)
        ?_ ?_ fun i r hr hstream hused => hseen i (h.charged i r hr hstream hused)
      · exact fun _ _ _ _ hused => absurd rfl hused
      · intro i r r' hr hm _ hold hstream hused
        cases hm with
        | granted => exact absurd rfl hused
        | releaseBody n slot hpc =>
          -- a buffered reply
          have hcourse := h.course i r hr
          rw [Request.OnCourse, hpc] at hcourse
          exact absurd (hcourse.2.1.symm.trans hstream) (by simp)
        | chunk bytes slot hpc =>
          rcases hnoted.ttft_cases with ⟨-, he, hchunk⟩ | ⟨j, m, ha, -, he, -⟩
          · rw [he]
            exact hchunk i bytes rfl
          · rw [he, (Action.chunk.inj ha).1]
            exact Function.update_self _ _ _
        | settle now slot exit hpc =>
          rw [LeaseCell.used_settle] at hused
          exact hold hstream hused
        | _ => exact hold hstream hused
    · refine forall_requests hs
        (P := fun i r => r.delivered → i ∈ u.requestDuration.map Sample.request) ?_ ?_ ?_
      · exact fun _ _ _ hfalse => absurd hfalse (by simp [Request.delivered, Request.arrived])
      · intro i r r' hr hm _ hold hdelivered
        rcases (h.course i r hr).delivered hm hdelivered with hr' | ⟨⟨now, rfl⟩, hc⟩
        · exact hold hr'
        · rcases hnoted.requestDuration_cases with ⟨-, hnone⟩ | ⟨j, now', r'', ha, -, -, hd⟩
          · exact absurd hc (by rw [hnone i now rfl r hr]; simp)
          · rw [hd, mem_concat_request, (Action.settle.inj ha).1]
            exact Or.inr rfl
      · intro i r hr hdelivered
        have hold := h.durations i r hr hdelivered
        rcases hnoted.requestDuration_cases with ⟨hd, -⟩ | ⟨j, now', r'', -, -, -, hd⟩
        · rwa [hd]
        · rw [hd, mem_concat_request]
          exact Or.inl hold
    · show (u.requestDuration.map Sample.request).Nodup
      rcases hnoted.requestDuration_cases with ⟨hd, -⟩ | ⟨j, now, r, -, hr, hc, hd⟩
      · rw [hd]
        exact h.durationOnce
      · rw [hd]
        refine nodup_concat h.durationOnce fun hmem => ?_
        -- a reply that has been delivered does not end again
        obtain ⟨⟨slot, hpc⟩, -⟩ := (h.course j r hr).of_complete hc
        have hdelivered := h.replies j hmem
        rw [hr, Option.any_some, Request.not_delivered (by simp [hpc])] at hdelivered
        exact absurd hdelivered (by simp)
    · show g.requests[i]?.any Request.delivered
      replace hi : i ∈ u.requestDuration.map Sample.request := hi
      rcases hnoted.requestDuration_cases with ⟨hd, -⟩ | ⟨j, now, r, rfl, hr, hc, hd⟩
      · exact any_requests hs (fun _ _ _ hm => Request.delivered_moved hm) (h.replies i (hd ▸ hi))
      · rw [hd, mem_concat_request] at hi
        rcases hi with hi | rfl
        · exact any_requests hs (fun _ _ _ hm => Request.delivered_moved hm) (h.replies i hi)
        · exact delivered_of_settle hs hr (h.course _ r hr) hc

/-- So in every timed run the samples are those of `Measured`. -/
theorem measured_of_exec {cfg : Config} {tenants : List (Tenant R)} {actions : List TimedAction}
    {s : Timed R} (hrun : exec (Timed.step cfg) (Timed.init cfg tenants) actions = some s) :
    Measured s :=
  exec_invariant (fun _ _ _ h hs => h.step (timed_cases hs)) (measured_init cfg tenants) hrun

/-- Whatever happens when: each request that is sent has one sample of its wait, a stream one of
its first chunk, if it is charged for one, and a buffered reply one of its end, if it gets there;
and no latency is less than the time before the queue and the wait in it. -/
theorem latencies_measured (cfg : Config) (tenants : List (Tenant R)) (actions : List TimedAction)
    (s : Timed R) (hrun : exec (Timed.step cfg) (Timed.init cfg tenants) actions = some s) :
    s.queueWait.map Sample.request = s.gateway.sent ∧ s.gateway.sent.Nodup ∧
    ((s.ttft ++ s.requestDuration).map Sample.request).Nodup ∧
    (∀ x ∈ s.ttft ++ s.requestDuration, ∃ w ∈ s.queueWait, w.request = x.request ∧
      s.enqueuedAt x.request - s.arrived x.request + w.time ≤ x.time) ∧
    ∀ (i : ℕ) (r : Request), s.gateway.requests[i]? = some r →
      (i ∈ s.requestDuration.map Sample.request ↔
        r.req.stream = false ∧ r.pc = .done ∧ .ok ∈ r.outcomes) ∧
      (i ∈ s.ttft.map Sample.request → r.req.stream = true) ∧
      (r.req.stream = true → r.lease.used ≠ 0 → i ∈ s.ttft.map Sample.request) := by
  have h := measured_of_exec hrun
  have hdisjoint : ∀ i, i ∈ s.ttft.map Sample.request →
      i ∉ s.requestDuration.map Sample.request := by
    intro i hi hi'
    obtain ⟨r, hr⟩ := exists_request (h.streams i hi)
    have hstream := h.streams i hi
    have hdelivered := h.replies i hi'
    rw [hr, Option.any_some] at hstream hdelivered
    simp [Request.delivered, hstream] at hdelivered
  refine ⟨h.waits, ?_, ?_, h.covered, fun i r hr => ⟨⟨fun hi => ?_, fun hdone => ?_⟩,
    fun hi => ?_, fun hstream hused => (h.firsts i).mpr (h.charged i r hr hstream hused)⟩⟩
  · refine List.nodup_iff_count_le_one.mpr fun i => ?_
    have hsends := h.handled.sends i
    have honce := (h.handled.once i).trans (Bool.toNat_le _)
    omega
  · rw [List.map_append]
    exact h.firstOnce.append h.durationOnce fun i hi hi' => hdisjoint i hi hi'
  · have hdelivered := h.replies i hi
    rw [hr] at hdelivered
    simpa [Request.delivered, and_assoc] using hdelivered
  · exact h.durations i r hr (by simpa [Request.delivered, and_assoc] using hdone)
  · have hstream := h.streams i hi
    rwa [hr] at hstream

/-- A stream, and a buffered reply that waits for its slot. -/
theorem latencies_measured_two :
    ∃ s : Timed ℚ, exec (Timed.step ⟨4, 0, 1, true, 16⟩)
        (Timed.init ⟨4, 0, 1, true, 16⟩ [.fromConfig ⟨"acme", "key", .paid, 600, 5, 4⟩ 0])
        [.act .acquire, .pass 5, .act (.arrive 0 ⟨none, true⟩), .pass 1, .act (.admission 0 0),
          .act (.push 0), .act (.notify 0), .act .pop, .act .dispatchNext, .act .dispatchNext,
          .act (.arrive 0 ⟨some 8, false⟩), .act (.admission 1 0), .pass 2, .act (.push 1),
          .act (.notify 1), .act (.send 0 8), .pass 10, .act (.backendOk 0), .act (.deliver 0),
          .act (.receive 0), .act (.chunk 0 (ascii "data: a\n\n")), .pass 3,
          .act (.chunk 0 (ascii "data: b\n\n")), .act (.closeBody 0), .act (.settle 0 0),
          .act .acquire, .act .pop, .act .dispatchNext, .pass 4,
          .act (.send 1 8), .act (.backendOk 1), .act (.deliver 1), .act (.receive 1), .pass 20,
          .act (.bodyOk 1 8), .act (.releaseBody 1), .act (.settle 1 0)] = some s ∧
      s.gateway.sent = [0, 1] ∧ s.ttft = [⟨0, some "paid", 13⟩] ∧
      s.requestDuration = [⟨1, none, 39⟩] ∧
      ∃ w ∈ s.queueWait, w.request = 1 ∧ s.enqueuedAt 1 - s.arrived 1 + w.time ≤ 39 := by
  have hrun : (exec (Timed.step ⟨4, 0, 1, true, 16⟩)
      (Timed.init ⟨4, 0, 1, true, 16⟩ [.fromConfig ⟨"acme", "key", .paid, 600, 5, 4⟩ 0])
      [.act .acquire, .pass 5, .act (.arrive 0 ⟨none, true⟩), .pass 1, .act (.admission 0 0),
        .act (.push 0), .act (.notify 0), .act .pop, .act .dispatchNext, .act .dispatchNext,
        .act (.arrive 0 ⟨some 8, false⟩), .act (.admission 1 0), .pass 2, .act (.push 1),
        .act (.notify 1), .act (.send 0 8), .pass 10, .act (.backendOk 0), .act (.deliver 0),
        .act (.receive 0), .act (.chunk 0 (ascii "data: a\n\n")), .pass 3,
        .act (.chunk 0 (ascii "data: b\n\n")), .act (.closeBody 0), .act (.settle 0 0),
        .act .acquire, .act .pop, .act .dispatchNext, .pass 4,
        .act (.send 1 8), .act (.backendOk 1), .act (.deliver 1), .act (.receive 1), .pass 20,
        .act (.bodyOk 1 8), .act (.releaseBody 1), .act (.settle 1 0)]).map
        (fun s : Timed ℚ => (s.gateway.sent, s.ttft, s.requestDuration))
      = some ([0, 1], [⟨0, some "paid", 13⟩], [⟨1, none, 39⟩]) := by
    decide +kernel
  obtain ⟨s, hs, hstate⟩ := Option.map_eq_some_iff.mp hrun
  simp only [Prod.mk.injEq] at hstate
  obtain ⟨hsent, httft, hduration⟩ := hstate
  have hcovered := (latencies_measured _ _ _ s hs).2.2.2.1 ⟨1, none, 39⟩ (by simp [hduration])
  exact ⟨s, hs, hsent, httft, hduration, hcovered⟩

end Gateway
end OxideGate
