import OxideGate.GatewayCap

/-!
# What the gateway does to tenants and leases

Handlers ask tenants for leases, record tokens on them and drop them; no other party touches a
tenant. `LeaseMove` lists what a step can do to the tenants and to the cells that hold the leases,
and `leases_cases` reads it off the steps. Nothing depends on the arithmetic of the buckets.
-/

namespace OxideGate
namespace Gateway

open Runs

variable {R : Type}

/-- The tenant and the lease of a request. -/
def Request.cell (r : Request) : ℕ × LeaseCell := (r.tenant, r.lease)

def State.cells (s : State R) : List (ℕ × LeaseCell) := s.requests.map Request.cell

/-- The cell of a request stands at the request's place. -/
theorem cells_getElem? {s : State R} {i : ℕ} {r : Request} (h : s.requests[i]? = some r) :
    s.cells[i]? = some r.cell := by
  rw [State.cells, List.getElem?_map, h]
  rfl

/-- A request that keeps its tenant and its lease keeps all the cells. -/
theorem cells_set_eq {s s' : State R} {i : ℕ} {r : Request} (r' : Request)
    (hr : s.requests[i]? = some r) (hcell : r'.cell = r.cell)
    (hrequests : s'.requests = s.requests.set i r') : s'.cells = s.cells := by
  obtain ⟨hi, he⟩ := List.getElem?_eq_some_iff.mp (cells_getElem? hr)
  unfold State.cells at hi he ⊢
  rw [hrequests, List.map_set, hcell, ← he, List.set_getElem_self]

/-- Every request belongs to a tenant of the gateway. -/
def Housed (s : State R) : Prop := ∀ r ∈ s.requests, r.tenant < s.tenants.length

/-- A request that has arrived has a tenant. -/
theorem Housed.exists_tenant {s : State R} (h : Housed s) {i : ℕ} {r : Request}
    (hr : s.requests[i]? = some r) : ∃ t, s.tenants[r.tenant]? = some t :=
  ⟨_, List.getElem?_eq_getElem (h r (List.mem_of_getElem? hr))⟩

section Housed

variable [Add R] [Sub R] [Mul R] [Min R] [LT R] [DecidableLT R] [NatCast R] [RatCast R]

/-- No step adds or removes a tenant. -/
theorem tenants_length {cfg : Config} {s s' : State R} {a : Action} (hs : Stepped cfg s a s') :
    s'.tenants.length = s.tenants.length := by
  cases hs with
  | granted | denied => exact List.length_set
  | notify i r hr hpc =>
    unfold State.notifyOne State.setRequest
    split <;> rfl
  | settle i now r slot exit hr hpc =>
    show (s.dropLease r now).length = _
    unfold State.dropLease
    split
    · exact List.length_set
    · rfl
  | releaseBody | hangUp | skip | backendErr | discard =>
    simp [State.setRequest, State.setTask]
  | _ => rfl

/-- Only the arrival of a request of a tenant makes the list of requests longer. -/
theorem length_requests_cases {cfg : Config} {s s' : State R} {a : Action}
    (hs : Stepped cfg s a s') :
    s'.requests.length = s.requests.length ∨ ∃ tenant req, tenant < s.tenants.length ∧
      s'.requests = s.requests ++ [Request.arrived tenant req] := by
  cases hs with
  | arrive tenant req ht => exact Or.inr ⟨tenant, req, ht, rfl⟩
  | notify i r hr hpc =>
    left
    rw [State.setRequest, notifyOne_requests, List.length_set]
  | releaseBody | hangUp | settle | skip | backendErr | discard =>
    left
    simp [State.setRequest, State.setTask, State.settle]
  | send | deliver | granted | denied | pushed | queueFull | receiveStream | receiveBuffered
  | receiveError | bodyOk | bodyErr | chunk | closeBody | cancel => exact Or.inl List.length_set
  | _ => exact Or.inl rfl

/-- A step keeps every request with its tenant. -/
theorem Housed.step {cfg : Config} {s s' : State R} {a : Action} (h : Housed s)
    (hs : Stepped cfg s a s') : Housed s' := by
  intro r' hr'
  rw [tenants_length hs]
  rcases length_requests_cases hs with hlen | ⟨tenant, req, ht, he⟩
  · obtain ⟨i, hi⟩ := List.getElem?_of_mem hr'
    obtain he | ⟨tenant, req, he⟩ | ⟨j, r, r'', hr, hm, -, he⟩ := requests_cases hs
    · exact h r' (he ▸ hr')
    · rw [he, List.length_append, List.length_singleton] at hlen
      omega
    · rw [he] at hi
      rcases Tally.getElem?_set_cases hr hi with ⟨-, rfl⟩ | ⟨-, hold⟩
      · rw [hm.tenant]
        exact h r (List.mem_of_getElem? hr)
      · exact h r' (List.mem_of_getElem? hold)
  · rw [he] at hr'
    rcases List.mem_append.mp hr' with hold | hnew
    · exact h r' hold
    · rw [List.mem_singleton.mp hnew]
      exact ht

/-- So in every run each request has a tenant. -/
theorem housed_of_exec {cfg : Config} {tenants : List (Tenant R)} {actions : List Action}
    {s : State R} (hrun : exec (Gateway.step cfg) (init cfg tenants) actions = some s) : Housed s :=
  exec_invariant (fun _ _ _ h hs => Housed.step h (step_cases hs))
    (fun _ hr => absurd hr List.not_mem_nil) hrun

end Housed

section Moves

variable [Add R] [Sub R] [Mul R] [Min R] [LT R] [DecidableLT R] [NatCast R] [RatCast R]

/-- What a step does to the tenants and to the leases. -/
inductive LeaseMove (s s' : State R) : Action → Prop
  | same {a : Action} (htenants : s'.tenants = s.tenants) (hcells : s'.cells = s.cells) :
      LeaseMove s s' a
  | arrived {a : Action} (n : ℕ) (htenants : s'.tenants = s.tenants)
      (hcells : s'.cells = s.cells ++ [(n, .none)]) : LeaseMove s s' a
  /-- A tenant is asked for a lease. -/
  | admitted (i : ℕ) (now : Instant) (n : ℕ) (t : Tenant R) (reserve : UInt64)
      (hcell : s.cells[i]? = some (n, .none)) (ht : s.tenants[n]? = some t)
      (htenants : s'.tenants = s.tenants.set n (t.admitLease now reserve).2)
      (hcells : s'.cells = match (t.admitLease now reserve).1 with
        | .ok l => s.cells.set i (n, .held l)
        | .error _ => s.cells) :
      LeaseMove s s' (.admission i now)
  | recorded {a : Action} (i n : ℕ) (l : Lease) (k : UInt64)
      (hcell : s.cells[i]? = some (n, .held l)) (htenants : s'.tenants = s.tenants)
      (hcells : s'.cells = s.cells.set i (n, .held (l.recordTokens k))) : LeaseMove s s' a
  | dropped (i : ℕ) (now : Instant) (n : ℕ) (t : Tenant R) (l : Lease)
      (hcell : s.cells[i]? = some (n, .held l)) (ht : s.tenants[n]? = some t)
      (htenants : s'.tenants = s.tenants.set n (t.dropLease l now))
      (hcells : s'.cells = s.cells.set i (n, .settled l)) : LeaseMove s s' (.settle i now)

/-- What a step does to the leases: one of them is granted, charged or dropped, or none is
touched. -/
theorem leases_cases {cfg : Config} {s s' : State R} {a : Action} (hhandled : Handled s)
    (hhoused : Housed s) (hs : Stepped cfg s a s') : LeaseMove s s' a := by
  cases hs with
  | arrive tenant req ht =>
    exact .arrived tenant rfl List.map_append
  | granted i now r t reserve l hr hpc ht hreserve hl =>
    have hlease := hhandled.coherent i r hr
    rw [Request.Coherent, hpc] at hlease
    refine .admitted i now r.tenant t reserve.toUInt64 ?_ ht rfl ?_
    · rw [cells_getElem? hr, Request.cell, hlease.1]
    · rw [hl]
      exact List.map_set
  | denied i now r t reserve e hr hpc ht hreserve he =>
    have hlease := hhandled.coherent i r hr
    rw [Request.Coherent, hpc] at hlease
    refine .admitted i now r.tenant t reserve.toUInt64 ?_ ht rfl ?_
    · rw [cells_getElem? hr, Request.cell, hlease.1]
    · rw [he]
      exact cells_set_eq _ hr (by rfl) rfl
  | releaseBody i r slot n hr hpc =>
    have hheld := hhandled.coherent i r hr
    rw [Request.Coherent, hpc] at hheld
    obtain ⟨l, hl⟩ := LeaseCell.exists_of_isHeld hheld.1
    refine .recorded i r.tenant l n.toUInt64 (by rw [cells_getElem? hr, Request.cell, hl]) rfl ?_
    refine List.map_set.trans ?_
    rw [Request.cell, hl]
    rfl
  | chunk i bytes r slot hr hpc =>
    have hheld := hhandled.coherent i r hr
    rw [Request.Coherent, hpc] at hheld
    obtain ⟨l, hl⟩ := LeaseCell.exists_of_isHeld hheld.1
    refine .recorded i r.tenant l (r.frames.feed bytes).1.toUInt64
      (by rw [cells_getElem? hr, Request.cell, hl]) rfl ?_
    refine List.map_set.trans ?_
    rw [Request.cell, hl]
    rfl
  | settle i now r slot exit hr hpc =>
    have hheld := hhandled.coherent i r hr
    rw [Request.Coherent, hpc] at hheld
    obtain ⟨l, hl⟩ := LeaseCell.exists_of_isHeld hheld.1
    obtain ⟨t, ht⟩ := hhoused.exists_tenant hr
    refine .dropped i now r.tenant t l (by rw [cells_getElem? hr, Request.cell, hl]) ht ?_ ?_
    · show s.dropLease r now = _
      unfold State.dropLease
      rw [hl, ht]
    · refine List.map_set.trans ?_
      rw [Request.cell, hl]
      rfl
  | notify i r hr hpc =>
    refine .same ?_ (cells_set_eq { r with pc := .waiting } hr rfl ?_)
    · unfold State.notifyOne State.setRequest
      split <;> rfl
    · rw [State.setRequest, notifyOne_requests]
  | hangUp i r hr hpc =>
    refine .same (State.dropSlot?_tenants _ _)
      (cells_set_eq { r with chan := .closed, pc := .closing none .cancelled } hr rfl ?_)
    rw [State.setRequest, State.dropSlot?_requests]
  | pushed i r t queue hr hpc | queueFull i r hr hpc | receiveStream i r slot hr hpc
  | receiveBuffered i r slot hr hpc | receiveError i r e hr hpc | bodyOk i n r slot hr hpc
  | bodyErr i r slot hr hpc | closeBody i r slot hr hpc | cancel i r slot hr hpc =>
    exact .same rfl (cells_set_eq _ hr (by rfl) rfl)
  | send k g t slot r ht hpc hr | deliver k t reply r ht hpc hr =>
    exact .same rfl (cells_set_eq _ hr (by rfl) rfl)
  | skip item slot rest r hpc hbatch hr hchan | discard k t reply r ht hpc hr hchan =>
    refine .same (State.dropSlot?_tenants _ _) ?_
    unfold State.cells
    rw [State.dropSlot?_requests]
  | _ => exact .same rfl rfl

end Moves

end Gateway
end OxideGate
