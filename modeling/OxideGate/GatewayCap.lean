import OxideGate.GatewaySlots

/-!
# The cap on a tenant's requests in the system

`admit` counts the leases of a tenant, and a lease goes with its handler. A request whose client
hangs up leaves without one and stays where it is: in the queue, in the batch, or with its
dispatch task. Such a request is an orphan. A tenant's requests in the system are among those
with a lease and the orphans (`inSystem_subset`), so the cap holds as long as an admission leaves
room for the orphans (`in_system_cap`), and nobody is an orphan unless clients hang up
(`orphans_eq_empty`).
-/

namespace OxideGate
namespace Gateway

open Runs

variable {R : Type}

/-! ## Who counts -/

namespace Request

/-- A request of the tenant, with its lease. -/
def holds (t : ℕ) (r : Request) : Bool := decide (r.tenant = t) && r.lease.isHeld

/-- A request of the tenant, whose lease is gone. -/
def lost (t : ℕ) (r : Request) : Bool := decide (r.tenant = t) && !r.lease.isHeld && r.entered

/-- The backend works on the reply, or its body has not been dropped yet. -/
def answering (r : Request) : Bool := r.chan.slot.isSome || r.pc.slot.isSome

end Request

namespace State

variable (s : State R)

/-- Request `i` is in the queue, in the batch, or with a dispatch task. -/
def inFlight (i : ℕ) : Bool := decide (0 < s.queued i + s.batched i + s.dispatched i)

/-- The requests that hold a lease of the tenant. -/
def leases (t : ℕ) : Finset ℕ :=
  (Finset.range s.requests.length).filter fun i => s.requests[i]?.any (Request.holds t)

/-- The requests of the tenant that have lost their lease on the way. -/
def orphans (t : ℕ) : Finset ℕ :=
  (Finset.range s.requests.length).filter fun i =>
    s.requests[i]?.any (Request.lost t) && s.inFlight i

/-- The requests of the tenant in the system: queued, in the batch, being sent or answered. -/
def inSystem (t : ℕ) : Finset ℕ :=
  (Finset.range s.requests.length).filter fun i =>
    s.requests[i]?.any fun r => decide (r.tenant = t) && (s.inFlight i || r.answering)

/-- An admission that finds the tenant below its cap finds it below with its orphans as well. -/
def roomForOrphans : Action → Bool
  | .admission i _ =>
    s.requests[i]?.all fun r => s.tenants[r.tenant]?.all fun t =>
      !decide (t.state.active < t.maxConcurrent) ||
        decide (t.state.active.toNat + (s.orphans r.tenant).card < t.maxConcurrent.toNat)
  | _ => true

theorem any_lt {s : State R} {p : Request → Bool} {i : ℕ} (h : s.requests[i]?.any p) :
    i < s.requests.length := by
  by_contra hlen
  rw [List.getElem?_eq_none (Nat.le_of_not_lt hlen)] at h
  exact absurd h (by simp)

/-- The leases of a tenant are those its requests hold. -/
@[simp] theorem mem_leases {s : State R} {t i : ℕ} :
    i ∈ s.leases t ↔ s.requests[i]?.any (Request.holds t) := by
  unfold leases
  rw [Finset.mem_filter, Finset.mem_range]
  exact ⟨And.right, fun h => ⟨any_lt h, h⟩⟩

/-- The orphans of a tenant: lost by their clients and still in flight. -/
@[simp] theorem mem_orphans {s : State R} {t i : ℕ} :
    i ∈ s.orphans t ↔ s.requests[i]?.any (Request.lost t) ∧ s.inFlight i := by
  unfold orphans
  rw [Finset.mem_filter, Finset.mem_range, Bool.and_eq_true]
  exact ⟨And.right, fun h => ⟨any_lt h.1, h⟩⟩

/-- A request in the system is one of its tenant's, in flight or being answered. -/
theorem exists_of_mem_inSystem {s : State R} {t i : ℕ} (h : i ∈ s.inSystem t) :
    ∃ r, s.requests[i]? = some r ∧ r.tenant = t ∧ (s.inFlight i ∨ r.answering) := by
  obtain ⟨-, h⟩ := Finset.mem_filter.mp h
  cases hr : s.requests[i]? with
  | none =>
    rw [hr] at h
    exact absurd h (by simp)
  | some r =>
    rw [hr] at h
    simp only [Option.any_some, Bool.and_eq_true, Bool.or_eq_true, decide_eq_true_eq] at h
    exact ⟨r, rfl, h.1, h.2⟩

end State

/-- A request is in flight when it has been accepted and neither answered nor skipped. -/
theorem Placed.inFlight_iff {s : State R} (h : Placed s) (i : ℕ) :
    s.inFlight i ↔ i ∈ s.accepted ∧ i ∉ s.answered ∧ i ∉ s.skipped := by
  have hplaces := h.places i
  have honce := (h.once i).trans (Bool.toNat_le _)
  unfold State.inFlight
  rw [decide_eq_true_iff, ← List.count_pos_iff, ← List.count_pos_iff, ← List.count_pos_iff]
  omega

/-- A request that holds a slot after its dispatch has its lease. -/
theorem Request.Coherent.of_answering {r : Request} (h : r.Coherent) (hans : r.answering) :
    r.lease.isHeld := by
  unfold Request.answering at hans
  cases hchan : r.chan with
  | full reply => exact (h.of_full hchan).2
  | empty | taken | closed =>
    rw [hchan] at hans
    unfold Request.Coherent at h
    split at h
    all_goals first
      | exact h.1
      | (rename_i hpc; rw [hpc] at hans; exact absurd hans (by simp [Chan.slot, HandlerPc.slot]))

/-- Whatever a tenant has in the system has a lease or is an orphan. -/
theorem inSystem_subset {s : State R} (hhandled : Handled s) (t : ℕ) :
    s.inSystem t ⊆ s.leases t ∪ s.orphans t := by
  intro i hi
  obtain ⟨r, hr, ht, hwhere⟩ := State.exists_of_mem_inSystem hi
  rw [Finset.mem_union, State.mem_leases, State.mem_orphans, hr]
  cases hheld : r.lease.isHeld with
  | true =>
    left
    simp [Request.holds, ht, hheld]
  | false =>
    -- without a lease it can only be in flight: replies are kept by handlers with one
    right
    rcases hwhere with hflight | hans
    · have hentered := hhandled.entered i ((hhandled.inFlight_iff i).mp hflight).1
      rw [hr, Option.any_some] at hentered
      exact ⟨by simp [Request.lost, ht, hheld, hentered], hflight⟩
    · have := (hhandled.coherent i r hr).of_answering hans
      rw [hheld] at this
      exact absurd this (by simp)

/-! ## What a move does to a lease -/

namespace Request

/-- A request does not change its tenant. -/
theorem Moved.tenant {i : ℕ} {r r' : Request} {a : Action} (hm : Moved i r a r') :
    r'.tenant = r.tenant := by
  cases hm <;> rfl

/-- Only an admission gives a lease, and only the end of the handler takes it. -/
theorem Moved.isHeld {i : ℕ} {r r' : Request} {a : Action} (hm : Moved i r a r')
    (hadmission : ∀ now, a ≠ .admission i now) (hsettle : ∀ now, a ≠ .settle i now) :
    r'.lease.isHeld = r.lease.isHeld := by
  cases hm with
  | granted now => exact absurd rfl (hadmission now)
  | denied now => exact absurd rfl (hadmission now)
  | settle now => exact absurd rfl (hsettle now)
  | releaseBody slot n hpc => exact LeaseCell.isHeld_recordTokens _ _
  | chunk bytes slot hpc => exact LeaseCell.isHeld_recordTokens _ _
  | _ => rfl

/-- A lease is lost when the handler drops it, and at no other move. -/
theorem Moved.lost {t i : ℕ} {r r' : Request} {a : Action} (hm : Moved i r a r')
    (hcoherent : r.Coherent) (h : r'.lost t) : r.lost t ∨ ∃ now, a = .settle i now := by
  unfold Request.lost at h ⊢
  simp only [Bool.and_eq_true, decide_eq_true_eq, Bool.not_eq_true', entered_iff] at h ⊢
  obtain ⟨⟨ht, hheld⟩, hadmitting, hpushing, hlease⟩ := h
  rw [hm.tenant] at ht
  by_cases hsettle : ∃ now, a = .settle i now
  · exact Or.inr hsettle
  left
  cases hm with
  | granted now reserve hpc => exact absurd hheld (by simp [LeaseCell.isHeld])
  | denied now reserve e hpc =>
    rw [Coherent, hpc] at hcoherent
    exact absurd hcoherent.1 hlease
  -- between admission and `push` the lease is there
  | pushed hpc | queueFull hpc =>
    rw [Coherent, hpc] at hcoherent
    exact absurd hcoherent.1 (by simpa using hheld)
  | settle now slot exit hpc => exact absurd ⟨now, rfl⟩ hsettle
  | send k g => exact ⟨⟨ht, hheld⟩, hadmitting, hpushing, hlease⟩
  | deliver k reply hchan => exact ⟨⟨ht, hheld⟩, hadmitting, hpushing, hlease⟩
  | releaseBody slot n hpc | chunk bytes slot hpc =>
    refine ⟨⟨ht, by simpa using hheld⟩, by simp [hpc], by simp [hpc], ?_⟩
    intro hnone
    exact hlease (by rw [hnone]; rfl)
  | notify hpc | receiveStream _ hpc | receiveBuffered _ hpc | receiveError _ hpc | bodyOk _ _ hpc
  | bodyErr _ hpc | closeBody _ hpc | hangUp hpc | cancel _ hpc =>
    exact ⟨⟨ht, hheld⟩, by simp [hpc], by simp [hpc], hlease⟩

end Request

variable [Add R] [Sub R] [Mul R] [Min R] [LT R] [DecidableLT R] [NatCast R] [RatCast R]

/-- What holds of a request after a step, and is not new at this step, held before. -/
theorem any_requests_back {cfg : Config} {s s' : State R} {a : Action} (hs : Stepped cfg s a s')
    {p : Request → Bool} (harrived : ∀ tenant req, p (Request.arrived tenant req) = false)
    {i : ℕ} (hmoved : ∀ r r', s.requests[i]? = some r → Request.Moved i r a r' → p r' → p r)
    (h : s'.requests[i]?.any p) : s.requests[i]?.any p := by
  obtain he | ⟨tenant, req, he⟩ | ⟨j, rj, rj', hj, hm, hans, he⟩ := requests_cases hs
  · rw [← he]
    exact h
  · rw [he, List.getElem?_append] at h
    split at h
    · exact h
    · cases hk : [Request.arrived tenant req][i - s.requests.length]? with
      | none =>
        rw [hk] at h
        exact absurd h (by simp)
      | some r =>
        rw [hk, List.mem_singleton.mp (List.mem_of_getElem? hk), Option.any_some, harrived] at h
        exact absurd h (by simp)
  · by_cases hji : j = i
    · subst hji
      rw [he, List.getElem?_set_self (List.getElem?_eq_some_iff.mp hj).1] at h
      rw [hj]
      exact hmoved rj rj' hj hm h
    · rw [he, List.getElem?_set_ne hji] at h
      exact h

/-- A request comes into flight when it is pushed. -/
theorem inFlight_step {cfg : Config} {s s' : State R} {a : Action} (hplaced : Placed s)
    (hs : Stepped cfg s a s') {i : ℕ} (h : s'.inFlight i) :
    s.inFlight i ∨ ∃ r, s.requests[i]? = some r ∧ r.pc = .pushing := by
  rw [(hplaced.step hs).inFlight_iff] at h
  rw [hplaced.inFlight_iff]
  obtain ⟨haccepted, hanswered, hskipped⟩ := h
  obtain ⟨hpushed, hanswers, hskips, -⟩ := events_cases hs
  have hold : i ∉ s.answered ∧ i ∉ s.skipped :=
    ⟨fun hi => hanswered (hanswers hi), fun hi => hskipped (hskips hi)⟩
  rcases hpushed with he | ⟨j, r, -, hr, hpc, -, he⟩
  · exact Or.inl ⟨he ▸ haccepted, hold⟩
  · rw [he] at haccepted
    rcases List.mem_append.mp haccepted with hi | hi
    · exact Or.inl ⟨hi, hold⟩
    · rw [List.mem_singleton.mp hi]
      exact Or.inr ⟨r, hr, hpc⟩

/-- Nobody becomes an orphan but the request whose handler ends. -/
theorem orphans_step {cfg : Config} {s s' : State R} {a : Action} (hhandled : Handled s)
    (hs : Stepped cfg s a s') {t i : ℕ} (h : i ∈ s'.orphans t) :
    i ∈ s.orphans t ∨
      (∃ now, a = .settle i now) ∧ s'.requests[i]?.any fun r => decide (r.tenant = t) := by
  rw [State.mem_orphans] at h ⊢
  by_cases hsettle : ∃ now, a = .settle i now
  · right
    refine ⟨hsettle, ?_⟩
    revert h
    cases s'.requests[i]? with
    | none => simp
    | some r => simp +contextual [Request.lost]
  · left
    have hlost : s.requests[i]?.any (Request.lost t) := by
      apply any_requests_back hs _ _ h.1
      · intro tenant req
        simp [Request.lost, Request.entered, Request.arrived]
      · intro r r' hr hm hr'
        exact (hm.lost (hhandled.coherent i r hr) hr').resolve_right hsettle
    refine ⟨hlost, ?_⟩
    rcases inFlight_step hhandled.toPlaced hs h.2 with hflight | ⟨r, hr, hpc⟩
    · exact hflight
    · rw [hr, Option.any_some] at hlost
      exact absurd hlost (by simp [Request.lost, Request.entered, hpc])

/-- Without an admission or the end of a handler, the leases are as before. -/
theorem leases_step {cfg : Config} {s s' : State R} {a : Action} (hs : Stepped cfg s a s')
    (hadmission : ∀ i now, a ≠ .admission i now) (hsettle : ∀ i now, a ≠ .settle i now) (t : ℕ) :
    s'.leases t = s.leases t := by
  have hsame : ∀ i r r', Request.Moved i r a r' → r'.holds t = r.holds t := by
    intro i r r' hm
    unfold Request.holds
    rw [hm.tenant, hm.isHeld (hadmission i) (hsettle i)]
  ext i
  rw [State.mem_leases, State.mem_leases]
  constructor
  · apply any_requests_back hs
    · intro tenant req
      simp [Request.holds, Request.arrived, LeaseCell.isHeld]
    · intro r r' _ hm hr'
      rw [← hsame i r r' hm]
      exact hr'
  · apply any_requests hs
    intro i r r' hm hr
    rw [hsame i r r' hm]
    exact hr

/-! ## The cap -/

section Sets

omit [Add R] [Sub R] [Mul R] [Min R] [LT R] [DecidableLT R] [NatCast R] [RatCast R]

theorem mem_leases_set {s s' : State R} {i t : ℕ} {r r' : Request} (hr : s.requests[i]? = some r)
    (hrequests : s'.requests = s.requests.set i r') (j : ℕ) :
    j ∈ s'.leases t ↔ if j = i then r'.holds t = true else j ∈ s.leases t := by
  rw [State.mem_leases, State.mem_leases, hrequests]
  by_cases hij : j = i
  · subst hij
    rw [List.getElem?_set_self (List.getElem?_eq_some_iff.mp hr).1, if_pos rfl, Option.any_some]
  · rw [List.getElem?_set_ne (Ne.symm hij), if_neg hij]

/-- One lease more. -/
theorem leases_insert {s s' : State R} {i t : ℕ} {r r' : Request} (hr : s.requests[i]? = some r)
    (hrequests : s'.requests = s.requests.set i r') (h : r'.holds t) :
    s'.leases t = insert i (s.leases t) := by
  ext j
  rw [mem_leases_set hr hrequests, Finset.mem_insert]
  split
  · simp [*]
  · simp [*]

/-- One lease less. -/
theorem leases_erase {s s' : State R} {i t : ℕ} {r r' : Request} (hr : s.requests[i]? = some r)
    (hrequests : s'.requests = s.requests.set i r') (h : r'.holds t = false) :
    s'.leases t = (s.leases t).erase i := by
  ext j
  rw [mem_leases_set hr hrequests, Finset.mem_erase]
  split
  · simp [*]
  · simp [*]

/-- A request that holds no lease does not count. -/
theorem notMem_leases {s : State R} {i t : ℕ} {r : Request} (hr : s.requests[i]? = some r)
    (h : r.holds t = false) : i ∉ s.leases t := by
  rw [State.mem_leases, hr, Option.any_some, h]
  simp

theorem Request.holds_of_ne {r : Request} {t : ℕ} (h : r.tenant ≠ t) : r.holds t = false := by
  simp [Request.holds, h]

theorem Request.holds_of_not_held {r : Request} (t : ℕ) (h : r.lease.isHeld = false) :
    r.holds t = false := by
  simp [Request.holds, h]

/-- What every tenant has, as long as admissions leave room for its orphans. -/
structure Capped (s : State R) : Prop where
  /-- `active` counts the leases. -/
  active : ∀ (t : ℕ) (tenant : Tenant R), s.tenants[t]? = some tenant →
    tenant.state.active.toNat = (s.leases t).card
  room : ∀ (t : ℕ) (tenant : Tenant R), s.tenants[t]? = some tenant →
    (s.leases t).card + (s.orphans t).card ≤ tenant.maxConcurrent.toNat

/-- Nobody is in the system yet. -/
theorem capped_init (cfg : Config) {tenants : List (Tenant R)}
    (hfresh : ∀ t ∈ tenants, t.state.active = 0) : Capped (init cfg tenants) where
  active := by
    intro t tenant ht
    rw [hfresh tenant (List.mem_of_getElem? ht)]
    rfl
  room := by
    intro t tenant ht
    exact Nat.zero_le _

/-- A step that leaves the tenants alone, and every tenant's leases, and makes no orphans. -/
theorem Capped.frame {s s' : State R} (h : Capped s) (htenants : s'.tenants = s.tenants)
    (hothers : ∀ (t : ℕ) tenant, s.tenants[t]? = some tenant →
      s'.leases t = s.leases t ∧ s'.orphans t ⊆ s.orphans t) : Capped s' where
  active := by
    intro t tenant ht
    rw [htenants] at ht
    rw [(hothers t tenant ht).1]
    exact h.active t tenant ht
  room := by
    intro t tenant ht
    rw [htenants] at ht
    have hroom := h.room t tenant ht
    have hcard := Finset.card_le_card (hothers t tenant ht).2
    rw [(hothers t tenant ht).1]
    omega

/-- A step that changes one tenant and what it has. -/
theorem Capped.set {s s' : State R} (h : Capped s) {t : ℕ} {old new : Tenant R}
    (hold : s.tenants[t]? = some old) (htenants : s'.tenants = s.tenants.set t new)
    (hothers : ∀ t' ≠ t, s'.leases t' = s.leases t' ∧ s'.orphans t' ⊆ s.orphans t')
    (hactive : new.state.active.toNat = (s'.leases t).card)
    (hroom : (s'.leases t).card + (s'.orphans t).card ≤ new.maxConcurrent.toNat) : Capped s' := by
  constructor
  · intro t' tenant ht'
    rw [htenants] at ht'
    obtain ⟨rfl, rfl⟩ | ⟨htt, ht'⟩ := Tally.getElem?_set_cases hold ht'
    · exact hactive
    · rw [(hothers t' htt).1]
      exact h.active t' tenant ht'
  · intro t' tenant ht'
    rw [htenants] at ht'
    obtain ⟨rfl, rfl⟩ | ⟨htt, ht'⟩ := Tally.getElem?_set_cases hold ht'
    · exact hroom
    · have hbefore := h.room t' tenant ht'
      have hcard := Finset.card_le_card (hothers t' htt).2
      rw [(hothers t' htt).1]
      omega

/-- A granted admission gives a lease to a request that had none. -/
theorem Capped.granted {s s' : State R} (h : Capped s) {i : ℕ} {r r' : Request}
    {old new : Tenant R} (hr : s.requests[i]? = some r) (hr' : r.lease.isHeld = false)
    (hrequests : s'.requests = s.requests.set i r') (htenant : r'.tenant = r.tenant)
    (hheld : r'.lease.isHeld) (hold : s.tenants[r.tenant]? = some old)
    (htenants : s'.tenants = s.tenants.set r.tenant new)
    (hlt : old.state.active < old.maxConcurrent)
    (hactive : new.state.active = old.state.active + 1)
    (hmax : new.maxConcurrent = old.maxConcurrent)
    (hroom : old.state.active.toNat + (s.orphans r.tenant).card < old.maxConcurrent.toNat)
    (horphans : ∀ t, s'.orphans t ⊆ s.orphans t) : Capped s' := by
  have hbefore := h.active r.tenant old hold
  have hcard := Finset.card_le_card (horphans r.tenant)
  have hleases : (s'.leases r.tenant).card = (s.leases r.tenant).card + 1 := by
    rw [leases_insert hr hrequests (by simp [Request.holds, htenant, hheld]),
      Finset.card_insert_of_notMem (notMem_leases hr (Request.holds_of_not_held _ hr'))]
  apply h.set hold htenants
  · intro t ht
    refine ⟨?_, horphans t⟩
    rw [leases_erase hr hrequests (Request.holds_of_ne (by rw [htenant]; exact Ne.symm ht)),
      Finset.erase_eq_of_notMem (notMem_leases hr (Request.holds_of_not_held _ hr'))]
  · rw [hactive, Tenant.toNat_add_one hlt, hleases, hbefore]
  · rw [hmax, hleases]
    omega

/-- A refused admission gives none. -/
theorem Capped.denied {s s' : State R} (h : Capped s) {i : ℕ} {r r' : Request}
    {old new : Tenant R} (hr : s.requests[i]? = some r) (hr' : r.lease.isHeld = false)
    (hrequests : s'.requests = s.requests.set i r') (hheld : r'.lease.isHeld = false)
    (hold : s.tenants[r.tenant]? = some old)
    (htenants : s'.tenants = s.tenants.set r.tenant new)
    (hactive : new.state.active = old.state.active)
    (hmax : new.maxConcurrent = old.maxConcurrent)
    (horphans : ∀ t, s'.orphans t ⊆ s.orphans t) : Capped s' := by
  have hbefore := h.active r.tenant old hold
  have hroom := h.room r.tenant old hold
  have hcard := Finset.card_le_card (horphans r.tenant)
  have hleases : ∀ t, s'.leases t = s.leases t := by
    intro t
    rw [leases_erase hr hrequests (Request.holds_of_not_held _ hheld),
      Finset.erase_eq_of_notMem (notMem_leases hr (Request.holds_of_not_held _ hr'))]
  apply h.set hold htenants
  · intro t _
    exact ⟨hleases t, horphans t⟩
  · rw [hactive, hleases, hbefore]
  · rw [hmax, hleases]
    omega

/-- A handler that drops its lease may leave an orphan, which takes the place of the lease. -/
theorem Capped.settled {s s' : State R} (h : Capped s) {i : ℕ} {r r' : Request} {l : Lease}
    (hr : s.requests[i]? = some r) (hl : r.lease = .held l)
    (hrequests : s'.requests = s.requests.set i r') (hheld : r'.lease.isHeld = false)
    {old new : Tenant R} (hold : s.tenants[r.tenant]? = some old)
    (htenants : s'.tenants = s.tenants.set r.tenant new)
    (hactive : new.state.active = Tenant.release old.state.active)
    (hmax : new.maxConcurrent = old.maxConcurrent)
    (hothers : ∀ t ≠ r.tenant, s'.orphans t ⊆ s.orphans t)
    (horphans : s'.orphans r.tenant ⊆ insert i (s.orphans r.tenant)) : Capped s' := by
  have hmem : i ∈ s.leases r.tenant := by
    rw [State.mem_leases, hr]
    simp [Request.holds, hl, LeaseCell.isHeld]
  have hbefore := h.active r.tenant old hold
  have hroom := h.room r.tenant old hold
  have hpos : 0 < (s.leases r.tenant).card := Finset.card_pos.mpr ⟨i, hmem⟩
  have hleases : (s'.leases r.tenant).card = (s.leases r.tenant).card - 1 := by
    rw [leases_erase hr hrequests (Request.holds_of_not_held _ hheld),
      Finset.card_erase_of_mem hmem]
  have hcard := (Finset.card_le_card horphans).trans (Finset.card_insert_le _ _)
  apply h.set hold htenants
  · intro t ht
    refine ⟨?_, hothers t ht⟩
    rw [leases_erase hr hrequests (Request.holds_of_not_held _ hheld),
      Finset.erase_eq_of_notMem (notMem_leases hr (Request.holds_of_ne (Ne.symm ht)))]
  · rw [hactive, Tenant.toNat_release (by omega), hleases, hbefore]
  · rw [hmax, hleases]
    omega

end Sets

/-- A step that leaves room for the orphans keeps each tenant within its cap. -/
theorem Capped.step {cfg : Config} {s s' : State R} {a : Action} (hhandled : Handled s)
    (h : Capped s) (hroom : s.roomForOrphans a = true)
    (hs : Stepped cfg s a s') : Capped s' := by
  have horphans : (∀ i now, a ≠ .settle i now) → ∀ t, s'.orphans t ⊆ s.orphans t := by
    intro ha t i hi
    exact (orphans_step hhandled hs hi).resolve_right fun hsettle =>
      hsettle.1.elim fun now => ha i now
  have horphan : ∀ {t i}, i ∈ s'.orphans t → i ∈ s.orphans t ∨
      (∃ now, a = .settle i now) ∧ s'.requests[i]?.any fun r => decide (r.tenant = t) :=
    orphans_step hhandled hs
  have hleases := leases_step hs
  cases hs with
  | granted i now r tenant reserve l hr hpc ht hreserve hl =>
    -- the grant has passed the concurrency check, so the condition gives room
    obtain ⟨-, hlt, hactive, hmax⟩ := Tenant.admitLease_ok hl
    have hcoherent := hhandled.coherent i r hr
    rw [Request.Coherent, hpc] at hcoherent
    simp only [State.roomForOrphans, hr, ht, Option.all_some, hlt, decide_true, Bool.not_true,
      Bool.false_or, decide_eq_true_eq] at hroom
    exact h.granted hr (by rw [hcoherent.1]; rfl) rfl rfl rfl ht rfl hlt hactive hmax hroom
      (horphans (by simp))
  | denied i now r tenant reserve e hr hpc ht hreserve he =>
    obtain ⟨hactive, hmax⟩ := Tenant.admitLease_error he
    have hcoherent := hhandled.coherent i r hr
    rw [Request.Coherent, hpc] at hcoherent
    have hheld : r.lease.isHeld = false := by rw [hcoherent.1]; rfl
    exact h.denied hr hheld rfl hheld ht rfl hactive hmax (horphans (by simp))
  | settle i now r slot exit hr hpc =>
    have hcoherent := hhandled.coherent i r hr
    rw [Request.Coherent, hpc] at hcoherent
    obtain ⟨l, hl⟩ := LeaseCell.exists_of_isHeld hcoherent.1
    have hlt := (List.getElem?_eq_some_iff.mp hr).1
    have hheld : r.lease.settle.isHeld = false := LeaseCell.isHeld_settle _
    -- only the request itself can become an orphan, and only of its own tenant
    have hself : ∀ {t j}, j ∈ (s.settle i r slot exit now).orphans t →
        j ∈ s.orphans t ∨ j = i ∧ t = r.tenant := by
      intro t j hj
      rcases horphan hj with hold | ⟨⟨now', he⟩, htenant⟩
      · exact Or.inl hold
      · cases he
        right
        simp only [State.settle, List.getElem?_set_self hlt, Option.any_some,
          decide_eq_true_eq] at htenant
        exact ⟨rfl, htenant.symm⟩
    have hothers : ∀ t ≠ r.tenant, (s.settle i r slot exit now).orphans t ⊆ s.orphans t := by
      intro t ht j hj
      exact (hself hj).resolve_right fun he => ht he.2
    cases ht : s.tenants[r.tenant]? with
    | some tenant =>
      apply h.settled hr hl rfl hheld ht
      · simp only [State.settle, State.dropLease, hl, ht]
        rfl
      · rfl
      · rfl
      · exact hothers
      · intro j hj
        rw [Finset.mem_insert]
        exact (hself hj).symm.imp_left And.left
    | none =>
      -- a request without a tenant counts for nobody
      apply h.frame
      · simp only [State.settle, State.dropLease, hl, ht]
      · intro t tenant ht'
        have hne : t ≠ r.tenant := by
          rintro rfl
          rw [ht] at ht'
          exact absurd ht' (by simp)
        refine ⟨?_, hothers t hne⟩
        rw [leases_erase hr rfl (Request.holds_of_not_held _ hheld),
          Finset.erase_eq_of_notMem (notMem_leases hr (Request.holds_of_ne (Ne.symm hne)))]
  | notify i r hr hpc =>
    refine h.frame ?_ fun t _ _ => ⟨hleases (by simp) (by simp) t, horphans (by simp) t⟩
    unfold State.notifyOne State.setRequest
    split <;> rfl
  | releaseBody | hangUp | skip | backendErr | discard =>
    refine h.frame (by simp [State.setRequest, State.setTask]) fun t _ _ =>
      ⟨hleases (by simp) (by simp) t, horphans (by simp) t⟩
  | _ => exact h.frame rfl fun t _ _ => ⟨hleases (by simp) (by simp) t, horphans (by simp) t⟩

/-- The cap on a tenant's requests in the system holds in every run in which an admission that
finds the tenant below its cap leaves room for its orphans. -/
theorem in_system_cap (cfg : Config) (tenants : List (Tenant R))
    (hfresh : ∀ t ∈ tenants, t.state.active = 0) (actions : List Action) (s : State R)
    (hrun : exec (step cfg) (init cfg tenants) actions = some s)
    (hroom : Along (step cfg) (fun s a => s.roomForOrphans a = true) (init cfg tenants) actions)
    (t : ℕ) (tenant : Tenant R) (ht : s.tenants[t]? = some tenant) :
    (s.inSystem t).card ≤ tenant.maxConcurrent.toNat := by
  have hstep : ∀ (s : State R) a s', Handled s ∧ Capped s → s.roomForOrphans a = true →
      step cfg s a = some s' → Handled s' ∧ Capped s' := by
    intro s a s' ⟨hhandled, hcapped⟩ hroom hs
    exact ⟨hhandled.step (step_cases hs), hcapped.step hhandled hroom (step_cases hs)⟩
  obtain ⟨hhandled, hcapped⟩ := exec_invariant_along hstep
    ⟨handled_init cfg tenants, capped_init cfg hfresh⟩ hroom hrun
  calc (s.inSystem t).card
      ≤ (s.leases t ∪ s.orphans t).card := Finset.card_le_card (inSystem_subset hhandled t)
    _ ≤ (s.leases t).card + (s.orphans t).card := Finset.card_union_le _ _
    _ ≤ tenant.maxConcurrent.toNat := hcapped.room t tenant ht

/-- A client that hangs up while its request is queued, and a second request of its tenant: the
cap is two. -/
theorem in_system_cap_orphan :
    ∃ s : State ℚ, exec (step ⟨4, 0, 1, true, 16⟩)
        (init ⟨4, 0, 1, true, 16⟩ [.fromConfig ⟨"acme", "key", .paid, 600, 5, 2⟩ 0])
        [.arrive 0 ⟨some 8, false⟩, .admission 0 0, .push 0, .notify 0, .disconnect 0, .settle 0 0,
          .arrive 0 ⟨some 8, false⟩, .admission 1 1, .push 1] = some s ∧
      s.orphans 0 = {0} ∧ (s.inSystem 0).card ≤ 2 := by
  have hrun : (exec (step ⟨4, 0, 1, true, 16⟩)
      (init ⟨4, 0, 1, true, 16⟩ [.fromConfig ⟨"acme", "key", .paid, 600, 5, 2⟩ 0])
      [.arrive 0 ⟨some 8, false⟩, .admission 0 0, .push 0, .notify 0, .disconnect 0, .settle 0 0,
        .arrive 0 ⟨some 8, false⟩, .admission 1 1, .push 1]).map
        (fun s : State ℚ => (s.orphans 0, s.tenants.map Tenant.maxConcurrent))
      = some ({0}, [2]) := by
    decide +kernel
  obtain ⟨s, hs, hl⟩ := Option.map_eq_some_iff.mp hrun
  simp only [Prod.mk.injEq] at hl
  obtain ⟨tenant, htenants, hmax⟩ := List.map_eq_singleton_iff.mp hl.2
  have ht : s.tenants[0]? = some tenant := by
    rw [htenants]
    rfl
  have hcap := in_system_cap _ _ (by decide +kernel) _ s hs (by decide +kernel) 0 tenant ht
  rw [hmax] at hcap
  exact ⟨s, hs, hl.1, hcap⟩

/-- Two clients of a tenant that may have one request in the system connect and hang up, and a
third connects: three requests of the tenant are in the queue. -/
theorem in_system_flood :
    ∃ (s : State ℚ) (tenant : Tenant ℚ), exec (step ⟨4, 0, 1, true, 16⟩)
        (init ⟨4, 0, 1, true, 16⟩ [.fromConfig ⟨"acme", "key", .paid, 600, 5, 1⟩ 0])
        [.arrive 0 ⟨some 8, false⟩, .admission 0 0, .push 0, .notify 0, .disconnect 0, .settle 0 0,
          .arrive 0 ⟨some 8, false⟩, .admission 1 0, .push 1, .notify 1, .disconnect 1, .settle 1 0,
          .arrive 0 ⟨some 8, false⟩, .admission 2 0, .push 2] = some s ∧
      s.tenants[0]? = some tenant ∧ tenant.maxConcurrent = 1 ∧ s.queue.len = 3 ∧
      s.inSystem 0 = {0, 1, 2} ∧ tenant.maxConcurrent.toNat < (s.inSystem 0).card := by
  have hrun : (exec (step ⟨4, 0, 1, true, 16⟩)
      (init ⟨4, 0, 1, true, 16⟩ [.fromConfig ⟨"acme", "key", .paid, 600, 5, 1⟩ 0])
      [.arrive 0 ⟨some 8, false⟩, .admission 0 0, .push 0, .notify 0, .disconnect 0, .settle 0 0,
        .arrive 0 ⟨some 8, false⟩, .admission 1 0, .push 1, .notify 1, .disconnect 1, .settle 1 0,
        .arrive 0 ⟨some 8, false⟩, .admission 2 0, .push 2]).map (fun s : State ℚ =>
          (s.tenants.map Tenant.maxConcurrent, s.queue.len, s.inSystem 0))
      = some ([1], 3, {0, 1, 2}) := by
    decide +kernel
  obtain ⟨s, hs, hl⟩ := Option.map_eq_some_iff.mp hrun
  simp only [Prod.mk.injEq] at hl
  obtain ⟨tenant, htenants, hmax⟩ := List.map_eq_singleton_iff.mp hl.1
  refine ⟨s, tenant, hs, by rw [htenants]; rfl, hmax, hl.2.1, hl.2.2, ?_⟩
  rw [hmax, hl.2.2]
  decide

/-! ## Clients that stay -/

/-- A client hangs up while its handler waits for the reply. -/
def State.hangsUp (s : State R) : Action → Bool
  | .disconnect i => s.requests[i]?.any fun r => decide (r.pc = .waiting)
  | _ => false

/-- While no client hangs up, a receiver is dropped only by `submit` when the queue is full. -/
def Connected (s : State R) : Prop := ∀ i, s.hungUp i → i ∈ s.refused

/-- A step at which nobody hangs up makes no orphans. -/
theorem Connected.step {cfg : Config} {s s' : State R} {a : Action} (hhandled : Handled s)
    (h : Connected s) (hstay : s.hangsUp a = false) (hs : Stepped cfg s a s') : Connected s' := by
  intro i hi
  by_cases hpush : a = .push i
  · subst hpush
    cases hs with
    | pushed _ r t queue hr hpc ht hroom hq =>
      have hcoherent := hhandled.coherent i r hr
      rw [Request.Coherent, hpc] at hcoherent
      unfold State.hungUp at hi
      rw [List.getElem?_set_self (List.getElem?_eq_some_iff.mp hr).1] at hi
      simp [Request.hungUp, hcoherent.2] at hi
    | queueFull _ r hr hpc hfull => exact List.mem_append_right _ List.mem_cons_self
  · have hbefore : s.hungUp i := by
      apply any_requests_back hs _ _ hi
      · intro tenant req
        rfl
      · intro r r' hr hm hr'
        cases hm with
        | queueFull hpc => exact absurd rfl hpush
        | hangUp hpc =>
          simp only [State.hangsUp, hr, Option.any_some, hpc] at hstay
          exact absurd hstay (by simp)
        | receiveStream | receiveBuffered | receiveError | deliver =>
          exact absurd hr' (by simp [Request.hungUp])
        | _ => exact hr'
    have hrefused := h i hbefore
    exact (events_cases hs).2.2.2 hrefused
omit [Add R] [Sub R] [Mul R] [Min R] [LT R] [DecidableLT R] [NatCast R] [RatCast R] in
/-- While no client hangs up, nobody is an orphan. -/
theorem orphans_eq_empty {s : State R} (hhandled : Handled s) (h : Connected s) (t : ℕ) :
    s.orphans t = ∅ := by
  apply Finset.eq_empty_of_forall_notMem
  intro i hi
  rw [State.mem_orphans, hhandled.inFlight_iff] at hi
  obtain ⟨hlost, haccepted, hanswered, -⟩ := hi
  cases hr : s.requests[i]? with
  | none => simp [hr] at hlost
  | some r =>
    rw [hr, Option.any_some] at hlost
    simp only [Request.lost, Bool.and_eq_true, Bool.not_eq_true', Request.entered_iff] at hlost
    obtain ⟨⟨-, hheld⟩, -, -, hlease⟩ := hlost
    have hcoherent := hhandled.coherent i r hr
    have hchan : r.chan = .taken ∨ r.chan = .closed := by
      unfold Request.Coherent at hcoherent
      split at hcoherent <;> simp_all
    rcases hchan with hchan | hchan
    · exact hanswered (hhandled.answered i r hr (by simp [Request.replied, hchan]))
    · have hrefused := h i (by simp [State.hungUp, hr, Request.hungUp, hchan])
      have honce := (hhandled.once i).trans (Bool.toNat_le _)
      have := List.count_pos_iff.mpr hrefused
      have := List.count_pos_iff.mpr haccepted
      omega

/-- Admissions leave room for orphans in every run in which no client hangs up on a request that
waits: there are none. -/
theorem along_roomForOrphans {cfg : Config} {tenants : List (Tenant R)} {actions : List Action}
    (hstay : Along (step cfg) (fun s a => s.hangsUp a = false) (init cfg tenants) actions) :
    Along (step cfg) (fun s a => s.roomForOrphans a = true) (init cfg tenants) actions := by
  have hstep : ∀ (s : State R) a s', Handled s ∧ Connected s → s.hangsUp a = false →
      step cfg s a = some s' → Handled s' ∧ Connected s' := by
    intro s a s' ⟨hhandled, hconnected⟩ hstay hs
    exact ⟨hhandled.step (step_cases hs), hconnected.step hhandled hstay (step_cases hs)⟩
  have hroom : ∀ (s : State R) a, Handled s ∧ Connected s → s.hangsUp a = false →
      s.roomForOrphans a = true := by
    intro s a ⟨hhandled, hconnected⟩ _
    unfold State.roomForOrphans
    split
    · rw [Option.all_eq_true]
      intro r _
      rw [Option.all_eq_true]
      intro t _
      rw [orphans_eq_empty hhandled hconnected, Finset.card_empty, Nat.add_zero]
      by_cases hlt : t.state.active < t.maxConcurrent
      · simp [UInt32.lt_iff_toNat_lt.mp hlt]
      · simp [hlt]
    · rfl
  refine Along.of_invariant hstep hroom ⟨handled_init cfg tenants, ?_⟩ hstay
  intro i hi
  simp [State.hungUp, init] at hi

end Gateway
end OxideGate
