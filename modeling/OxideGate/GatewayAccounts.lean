import OxideGate.GatewayLeases
import OxideGate.Lib.Simulation
import OxideGate.RequestWindow

/-!
# The gateway keeps every tenant's account

An `Account` is what any number of threads do to one tenant, one critical section after the other.
The gateway is such threads: seen from tenant number `n`, a run of it is a run of its account, with
the same clock readings in the same order, in which every lease belongs to one request (`Mirrors`).
The limits that hold for accounts therefore hold for what the gateway lets through, whatever
happens to the requests on the way.
-/

namespace OxideGate

open Runs Tally

/-- The cell of the request that holds a lease, or held it. -/
def Record.cell (rec : Record) : Gateway.LeaseCell :=
  if rec.isLive then .held rec.lease else .settled rec.lease

/-- A lease that was given is in a cell. -/
theorem Record.cell_ne_none (rec : Record) : rec.cell ≠ .none := by
  unfold Record.cell
  split <;> simp

/-- A held cell is a live lease. -/
theorem Record.of_cell_held {rec : Record} {l : Lease} (h : rec.cell = .held l) :
    rec.isLive ∧ rec.lease = l := by
  unfold Record.cell at h
  split at h
  · rename_i hlive
    exact ⟨hlive, Gateway.LeaseCell.held.inj h⟩
  · exact absurd h (by simp)

namespace Account

theorem admission_tenant (s : Account) (now : Instant) (reserve : UInt64) :
    (s.admission now reserve).tenant = (s.tenant.admitLease now reserve).2 := by
  unfold admission
  dsimp only
  split <;> rfl

theorem admission_leases (s : Account) (now : Instant) (reserve : UInt64) :
    (s.admission now reserve).leases = match (s.tenant.admitLease now reserve).1 with
      | .ok l => s.leases ++ [⟨l, now, none⟩]
      | .error _ => s.leases := by
  unfold admission
  dsimp only
  split <;> rename_i h <;> rw [h]

theorem step_recordTokens {s : Account} {id : ℕ} {r : Record} (hr : s.leases[id]? = some r)
    (hlive : r.isLive) (n : UInt64) : s.step (.recordTokens id n) = some (s.recordOn id r n) := by
  simp [step, hr, hlive]

theorem step_drop {s : Account} {id : ℕ} {r : Record} (hr : s.leases[id]? = some r)
    (hlive : r.isLive) (now : Instant) : s.step (.drop id now) = some (s.dropOn id r now) := by
  simp [step, hr, hlive]

end Account

namespace Gateway

/-- The clock readings that an action uses. -/
def Action.readings : Action → List Instant
  | .admission _ now | .settle _ now => [now]
  | _ => []

/-- Those that it takes to the lock of tenant number `n`. -/
def State.readings {R : Type} (n : ℕ) (s : State R) : Action → List Instant
  | .admission i now | .settle i now =>
    if s.requests[i]?.map Request.tenant = some n then [now] else []
  | _ => []

/-- What a tenant's lock gets to see is among what the step has read. -/
theorem readings_sublist {R : Type} (n : ℕ) (s : State R) (a : Action) :
    (s.readings n a).Sublist a.readings := by
  unfold State.readings Action.readings
  split
  · split
    · exact List.Sublist.refl _
    · exact List.nil_sublist _
  · split
    · exact List.Sublist.refl _
    · exact List.nil_sublist _
  · exact List.nil_sublist _

/-- What a request reads, it reads for its tenant. -/
theorem readings_of_cell {R : Type} {n i : ℕ} {s : State R} {c : LeaseCell}
    (hcell : s.cells[i]? = some (n, c)) (now : Instant) :
    s.readings n (.admission i now) = [now] ∧ s.readings n (.settle i now) = [now] := by
  rw [State.cells, List.getElem?_map, Option.map_eq_some_iff] at hcell
  obtain ⟨r, hr, hc⟩ := hcell
  have htenant : s.requests[i]?.map Request.tenant = some n := by
    rw [hr, Option.map_some]
    exact congrArg some (congrArg Prod.fst hc)
  exact ⟨if_pos htenant, if_pos htenant⟩

/-- The account has the tenant's limits, and the `k`-th lease of it is that of request
`owners[k]`. -/
structure Mirrors (n : ℕ) (owners : List ℕ) (s : State ℚ) (acc : Account) : Prop where
  tenant : s.tenants[n]? = some acc.tenant
  length : owners.length = acc.leases.length
  nodup : owners.Nodup
  leases : ∀ (k i : ℕ) (rec : Record), owners[k]? = some i → acc.leases[k]? = some rec →
    s.cells[i]? = some (n, rec.cell)
  complete : ∀ i c, s.cells[i]? = some (n, c) → c ≠ .none → i ∈ owners

variable {n m : ℕ} {owners : List ℕ} {s s' : State ℚ} {acc acc' : Account}

/-- The lease of an owner. -/
theorem Mirrors.exists_lease (h : Mirrors n owners s acc) {k i : ℕ} (hk : owners[k]? = some i) :
    ∃ rec : Record, acc.leases[k]? = some rec ∧ s.cells[i]? = some (n, rec.cell) := by
  have hlt := (List.getElem?_eq_some_iff.mp hk).1
  rw [h.length] at hlt
  exact ⟨_, List.getElem?_eq_getElem hlt, h.leases k i _ hk (List.getElem?_eq_getElem hlt)⟩

/-- The owner of a lease is a request of the tenant with a cell for it. -/
theorem Mirrors.exists_cell (h : Mirrors n owners s acc) {i : ℕ} (hi : i ∈ owners) :
    ∃ c, s.cells[i]? = some (n, c) ∧ c ≠ .none := by
  obtain ⟨k, hk⟩ := List.getElem?_of_mem hi
  obtain ⟨rec, -, hcell⟩ := h.exists_lease hk
  exact ⟨rec.cell, hcell, rec.cell_ne_none⟩

/-- A cell of the tenant with a live lease, and the lease. -/
theorem Mirrors.exists_owner (h : Mirrors n owners s acc) {i : ℕ} {l : Lease}
    (hcell : s.cells[i]? = some (n, .held l)) :
    ∃ (k : ℕ) (rec : Record), owners[k]? = some i ∧ acc.leases[k]? = some rec ∧ rec.isLive ∧
      rec.lease = l := by
  obtain ⟨k, hk⟩ := List.getElem?_of_mem (h.complete i _ hcell (by simp))
  obtain ⟨rec, hrec, hcell'⟩ := h.exists_lease hk
  rw [hcell, Option.some.injEq, Prod.mk.injEq] at hcell'
  exact ⟨k, rec, hk, hrec, Record.of_cell_held hcell'.2.symm⟩

/-- Nothing happens to the leases. -/
theorem Mirrors.frame (h : Mirrors n owners s acc) (hcells : s'.cells = s.cells)
    (hleases : acc'.leases = acc.leases) (htenant : s'.tenants[n]? = some acc'.tenant) :
    Mirrors n owners s' acc' where
  tenant := htenant
  length := by rw [hleases, h.length]
  nodup := h.nodup
  leases := by
    rw [hcells, hleases]
    exact h.leases
  complete := by
    rw [hcells]
    exact h.complete

/-- The cells of the other tenants do not matter. -/
theorem Mirrors.other (h : Mirrors n owners s acc) (hne : m ≠ n) {i : ℕ} {c c' : LeaseCell}
    (hcell : s.cells[i]? = some (m, c)) (hcells : s'.cells = s.cells.set i (m, c'))
    (htenant : s'.tenants[n]? = s.tenants[n]?) : Mirrors n owners s' acc where
  tenant := htenant.trans h.tenant
  length := h.length
  nodup := h.nodup
  leases := by
    intro k j rec hk hrec
    have hold := h.leases k j rec hk hrec
    have hij : i ≠ j := by
      rintro rfl
      rw [hcell, Option.some.injEq, Prod.mk.injEq] at hold
      exact hne hold.1
    rw [hcells, List.getElem?_set_ne hij, hold]
  complete := by
    intro j d hj hd
    rw [hcells] at hj
    rcases getElem?_set_cases hcell hj with ⟨-, he⟩ | ⟨-, hold⟩
    · exact absurd (Prod.mk.inj he).1.symm hne
    · exact h.complete j d hold hd

/-- The lease of one owner changes. -/
theorem Mirrors.set (h : Mirrors n owners s acc) {k i : ℕ} {rec rec' : Record}
    (hk : owners[k]? = some i) (hrec : acc.leases[k]? = some rec)
    (hleases : acc'.leases = acc.leases.set k rec')
    (hcells : s'.cells = s.cells.set i (n, rec'.cell))
    (htenant : s'.tenants[n]? = some acc'.tenant) : Mirrors n owners s' acc' where
  tenant := htenant
  length := by rw [hleases, List.length_set, h.length]
  nodup := h.nodup
  leases := by
    intro j i' r hj hr
    rw [hleases] at hr
    rw [hcells]
    rcases getElem?_set_cases hrec hr with ⟨rfl, rfl⟩ | ⟨hjk, hold⟩
    · rw [hj, Option.some.injEq] at hk
      subst hk
      exact List.getElem?_set_self (List.getElem?_eq_some_iff.mp (h.leases _ _ _ hj hrec)).1
    · -- two owners are two requests
      have hii : i ≠ i' := by
        rintro rfl
        exact hjk ((List.getElem?_inj (List.getElem?_eq_some_iff.mp hj).1 h.nodup).mp
          (hj.trans hk.symm))
      rw [List.getElem?_set_ne hii]
      exact h.leases j i' r hj hold
  complete := by
    intro j c hj hc
    rw [hcells] at hj
    have hcell := h.leases k i rec hk hrec
    rcases getElem?_set_cases hcell hj with ⟨rfl, -⟩ | ⟨-, hold⟩
    · exact List.mem_of_getElem? hk
    · exact h.complete j c hold hc

/-- A new request has no lease yet. -/
theorem Mirrors.arrived (h : Mirrors n owners s acc) (htenants : s'.tenants = s.tenants)
    (hcells : s'.cells = s.cells ++ [(m, .none)]) : Mirrors n owners s' acc where
  tenant := by rw [htenants, h.tenant]
  length := h.length
  nodup := h.nodup
  leases := by
    intro k i rec hk hrec
    have hold := h.leases k i rec hk hrec
    rw [hcells, List.getElem?_append_left (List.getElem?_eq_some_iff.mp hold).1, hold]
  complete := by
    intro i c hi hc
    rw [hcells, List.getElem?_append] at hi
    split at hi
    · exact h.complete i c hi hc
    · have hmem := List.mem_singleton.mp (List.mem_of_getElem? hi)
      exact absurd (Prod.mk.inj hmem).2 hc

/-- A tenant that gives a lease has one owner more. -/
theorem Mirrors.granted (h : Mirrors n owners s acc) {i : ℕ} {l : Lease} {now : Instant}
    (hcell : s.cells[i]? = some (n, .none)) (hleases : acc'.leases = acc.leases ++ [⟨l, now, none⟩])
    (hcells : s'.cells = s.cells.set i (n, .held l)) (htenant : s'.tenants[n]? = some acc'.tenant) :
    Mirrors n (owners ++ [i]) s' acc' := by
  have hnew : i ∉ owners := by
    intro hi
    obtain ⟨c, hc, hne⟩ := h.exists_cell hi
    rw [hcell, Option.some.injEq, Prod.mk.injEq] at hc
    exact hne hc.2.symm
  have hset : s'.cells[i]? = some (n, .held l) := by
    rw [hcells, List.getElem?_set_self (List.getElem?_eq_some_iff.mp hcell).1]
  refine
    { tenant := htenant
      length := by rw [hleases, List.length_append, List.length_append, h.length]; rfl
      nodup := List.nodup_append.mpr ⟨h.nodup, by simp, fun a ha b hb hab => ?_⟩
      leases := fun k j rec hk hrec => ?_
      complete := fun j c hj hc => ?_ }
  · rw [List.mem_singleton.mp hb] at hab
    exact hnew (hab ▸ ha)
  · rw [List.getElem?_append] at hk
    rw [hleases, List.getElem?_append, ← h.length] at hrec
    split at hk
    · rename_i hlt
      rw [if_pos hlt] at hrec
      have hij : i ≠ j := fun hij => hnew (hij ▸ List.mem_of_getElem? hk)
      rw [hcells, List.getElem?_set_ne hij]
      exact h.leases k j rec hk hrec
    · rename_i hlt
      rw [if_neg hlt] at hrec
      rw [List.mem_singleton.mp (List.mem_of_getElem? hk),
        List.mem_singleton.mp (List.mem_of_getElem? hrec)]
      exact hset
  · rw [hcells] at hj
    rcases getElem?_set_cases hcell hj with ⟨rfl, -⟩ | ⟨-, hold⟩
    · exact List.mem_append_right _ List.mem_cons_self
    · exact List.mem_append_left _ (h.complete j c hold hc)

/-- A step of the gateway is what the account of a tenant sees of it: nothing, or one critical
section. -/
theorem Mirrors.step {a : Action} (h : Mirrors n owners s acc) (hm : LeaseMove s s' a) :
    ∃ acts acc' owners', exec Account.step acc acts = some acc' ∧ Mirrors n owners' s' acc' ∧
      (acts.flatMap fun b => b.reading.toList).Sublist (s.readings n a) := by
  cases hm with
  | same htenants hcells =>
    refine ⟨[], acc, owners, rfl, h.frame hcells rfl ?_, List.nil_sublist _⟩
    rw [htenants, h.tenant]
  | arrived m htenants hcells =>
    exact ⟨[], acc, owners, rfl, h.arrived htenants hcells, List.nil_sublist _⟩
  | admitted i now m t reserve hcell ht htenants hcells =>
    by_cases hmn : m = n
    · subst hmn
      rw [h.tenant, Option.some.injEq] at ht
      subst ht
      have htenant : s'.tenants[m]? = some (acc.admission now reserve).tenant := by
        rw [htenants, List.getElem?_set_self (List.getElem?_eq_some_iff.mp h.tenant).1,
          Account.admission_tenant]
      have hleases := acc.admission_leases now reserve
      rw [(readings_of_cell hcell now).1]
      cases hl : (acc.tenant.admitLease now reserve).1 with
      | ok l =>
        rw [hl] at hcells hleases
        exact ⟨[.admission now reserve], _, owners ++ [i], rfl,
          h.granted hcell hleases hcells htenant, List.Sublist.refl _⟩
      | error e =>
        rw [hl] at hcells hleases
        exact ⟨[.admission now reserve], _, owners, rfl, h.frame hcells hleases htenant,
          List.Sublist.refl _⟩
    · have htenant : s'.tenants[n]? = s.tenants[n]? := by
        rw [htenants, List.getElem?_set_ne hmn]
      refine ⟨[], acc, owners, rfl, ?_, List.nil_sublist _⟩
      cases hl : (t.admitLease now reserve).1 with
      | ok l =>
        rw [hl] at hcells
        exact h.other hmn hcell hcells htenant
      | error e =>
        rw [hl] at hcells
        exact h.frame hcells rfl (htenant.trans h.tenant)
  | recorded i m l k hcell htenants hcells =>
    by_cases hmn : m = n
    · subst hmn
      obtain ⟨id, rec, hid, hrec, hlive, rfl⟩ := h.exists_owner hcell
      have hstep := Account.step_recordTokens hrec hlive k
      refine ⟨[.recordTokens id k], acc.recordOn id rec k, owners,
        (exec_cons _).mpr ⟨_, hstep, rfl⟩,
        h.set hid hrec rfl ?_ ?_, List.nil_sublist _⟩
      · rw [hcells, Record.cell, if_pos (show Record.isLive { rec with
          lease := rec.lease.recordTokens k } from hlive)]
      · rw [htenants, h.tenant]
        rfl
    · exact ⟨[], acc, owners, rfl, h.other hmn hcell hcells (by rw [htenants]), List.nil_sublist _⟩
  | dropped i now m t l hcell ht htenants hcells =>
    by_cases hmn : m = n
    · subst hmn
      rw [h.tenant, Option.some.injEq] at ht
      subst ht
      obtain ⟨id, rec, hid, hrec, hlive, rfl⟩ := h.exists_owner hcell
      have hstep := Account.step_drop hrec hlive now
      rw [(readings_of_cell hcell now).2]
      refine ⟨[.drop id now], acc.dropOn id rec now, owners, (exec_cons _).mpr ⟨_, hstep, rfl⟩,
        h.set hid hrec rfl hcells ?_, List.Sublist.refl _⟩
      rw [htenants, List.getElem?_set_self (List.getElem?_eq_some_iff.mp h.tenant).1]
      rfl
    · refine ⟨[], acc, owners, rfl, h.other hmn hcell hcells ?_, List.nil_sublist _⟩
      rw [htenants, List.getElem?_set_ne hmn]

/-- Each step of the gateway is a run of each tenant's account. -/
theorem simulates_account (cfg : Config) (n : ℕ) : Simulates (step cfg) Account.step
    (fun s acc => Handled s ∧ Housed s ∧ ∃ owners, Mirrors n owners s acc)
    (State.readings n) fun b => b.reading.toList := by
  intro s a s' acc ⟨hhandled, hhoused, owners, hmirrors⟩ hs
  have hs' := step_cases hs
  obtain ⟨acts, acc', owners', hacts, hmirrors', hseen⟩ :=
    hmirrors.step (leases_cases hhandled hhoused hs')
  exact ⟨acts, acc', hacts, ⟨hhandled.step hs', hhoused.step hs', owners', hmirrors'⟩, hseen⟩

/-- A gateway for the tenants of a file. -/
def start (cfg : Config) (configs : List (TenantConfig ℚ)) (t0 : Instant) : State ℚ :=
  init cfg (configs.map fun c => .fromConfig c t0)

/-- No lease has been given: the tenant is the one of a new account. -/
theorem mirrors_start (cfg : Config) {configs : List (TenantConfig ℚ)} (t0 : Instant)
    {c : TenantConfig ℚ} (hc : configs[n]? = some c) :
    Mirrors n [] (start cfg configs t0) (.new c t0) where
  tenant := by
    show (configs.map _)[n]? = _
    rw [List.getElem?_map, hc]
    rfl
  length := rfl
  nodup := List.nodup_nil
  leases := fun k i rec hk => by simp at hk
  complete := fun i d hi => by simp [State.cells, start, init] at hi

/-- A run of the gateway, seen by one of its tenants. -/
theorem account_of_exec {cfg : Config} {configs : List (TenantConfig ℚ)} {t0 : Instant}
    {actions : List Action} {s : State ℚ}
    (hrun : exec (step cfg) (start cfg configs t0) actions = some s) {c : TenantConfig ℚ}
    (hc : configs[n]? = some c) :
    ∃ acts acc, exec Account.step (.new c t0) acts = some acc ∧
      (Handled s ∧ Housed s ∧ ∃ owners, Mirrors n owners s acc) ∧
      (acts.flatMap fun b => b.reading.toList).Sublist
        (outputs (step cfg) (State.readings n) (start cfg configs t0) actions) :=
  (simulates_account cfg n).exec ⟨handled_init cfg _, fun _ hr => absurd hr List.not_mem_nil, [],
    mirrors_start cfg t0 hc⟩ hrun

/-- Whatever the interleaving, the configuration and the clock readings: a run of the gateway is for
each configured tenant a run of its account. The tenant has the limits of the account, the leases of
the account are those of the tenant's requests, each of one request, and live as long as the request
holds it; the readings that the account uses come from the run, in its order. -/
theorem gateway_accounts (cfg : Config) (configs : List (TenantConfig ℚ)) (t0 : Instant)
    (actions : List Action) (s : State ℚ)
    (hrun : exec (step cfg) (start cfg configs t0) actions = some s) (n : ℕ) (c : TenantConfig ℚ)
    (hc : configs[n]? = some c) :
    ∃ acts acc owners, exec Account.step (.new c t0) acts = some acc ∧ Mirrors n owners s acc ∧
      (acts.flatMap fun b => b.reading.toList).Sublist (actions.flatMap Action.readings) := by
  obtain ⟨acts, acc, hacts, ⟨-, -, owners, hmirrors⟩, hseen⟩ := account_of_exec hrun hc
  exact ⟨acts, acc, owners, hacts, hmirrors, hseen.trans (outputs_sublist (readings_sublist n) _ _)⟩

/-- `n` token frames. -/
def tokenFrames (n : ℕ) : List UInt8 := (List.replicate n (ascii "data: a\n")).flatten

/-- A request of tenant 0 for a hundred tokens is streamed, twenty tokens too many, while one for
eighty is admitted, or refused, at `now`. -/
def overrunning (tenant : ℕ) (now : Instant) : List Action :=
  [.arrive 0 ⟨some 100, true⟩, .arrive tenant ⟨some 80, false⟩, .admission 0 0, .admission 1 now,
    .push 0, .notify 0, .acquire, .pop, .dispatchNext, .send 0 120, .backendOk 0, .deliver 0,
    .receive 0, .chunk 0 (tokenFrames 70), .chunk 0 (tokenFrames 50), .closeBody 0, .settle 0 2]

/-- The budget of a second tenant refuses its request: its account has no lease. -/
theorem gateway_accounts_two :
    ∃ s, exec (step ⟨2, 0, 1, true, 16⟩)
        (start ⟨2, 0, 1, true, 16⟩
          [⟨"acme", "k1", .paid, 600, 5, 4⟩, ⟨"beta", "k2", .free, 60, 1, 1⟩] 0)
        (overrunning 1 0) = some s ∧
      ∃ acts acc owners,
        exec Account.step (.new ⟨"beta", "k2", .free, 60, 1, 1⟩ 0) acts = some acc ∧
        Mirrors 1 owners s acc ∧
        (acts.flatMap fun b => b.reading.toList).Sublist [0, 0, 2] := by
  have hsome : (exec (step ⟨2, 0, 1, true, 16⟩)
      (start ⟨2, 0, 1, true, 16⟩
        [⟨"acme", "k1", .paid, 600, 5, 4⟩, ⟨"beta", "k2", .free, 60, 1, 1⟩] 0)
      (overrunning 1 0)).isSome := by
    decide +kernel
  obtain ⟨s, hs⟩ := Option.isSome_iff_exists.mp hsome
  exact ⟨s, hs, gateway_accounts _ _ _ _ s hs 1 _ rfl⟩

end Gateway
end OxideGate
