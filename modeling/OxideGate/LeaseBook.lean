import OxideGate.Account

/-!
# A tenant and its live leases

A `LeaseBook` is a tenant with the leases it has given, whatever the arithmetic of its buckets,
and every operation on it has the answer that its caller gets. As in `Account`, what any number
of threads do to one tenant is a list of critical sections with their clock readings.
-/

namespace OxideGate

structure LeaseBook (R : Type) where
  tenant : Tenant R
  /-- The leases given so far, in the order of the grants, without those that were dropped. -/
  leases : List (Option Lease)
deriving DecidableEq

namespace LeaseBook

open Account (Act)

variable {R : Type}

/-- What an operation returns to its caller. -/
inductive Answer (R : Type) where
  | admission (r : Except AdmitError Lease)
  | tokensAvailable (level : R)
  | active (n : UInt32)
  | done
deriving DecidableEq

/-- A tenant that has given no lease yet. -/
def new (t : Tenant R) : LeaseBook R := ⟨t, []⟩

/-- The live leases. -/
def live (s : LeaseBook R) : ℕ := s.leases.countP Option.isSome

variable [Add R] [Sub R] [Mul R] [Min R] [LT R] [DecidableLT R] [NatCast R] [RatCast R]

/-- `admit`. -/
def admission (s : LeaseBook R) (now : Instant) (reserve : UInt64) : Answer R × LeaseBook R :=
  let r := s.tenant.admitLease now reserve
  match r.1 with
  | .ok lease => (.admission (.ok lease), ⟨r.2, s.leases ++ [some lease]⟩)
  | .error e => (.admission (.error e), ⟨r.2, s.leases⟩)

/-- One critical section. Only the owner of a live lease can use or drop it. -/
def call (s : LeaseBook R) : Act → Option (Answer R × LeaseBook R)
  | .admission now reserve => some (s.admission now reserve)
  | .recordTokens id n => s.leases[id]?.join.map fun l =>
      (.done, { s with leases := s.leases.set id (some (l.recordTokens n)) })
  | .drop id now => s.leases[id]?.join.map fun l =>
      (.done, ⟨s.tenant.dropLease l now, s.leases.set id none⟩)
  | .tokensAvailable now =>
    let r := s.tenant.tokensAvailable now
    some (.tokensAvailable r.1, { s with tenant := r.2 })
  | .active => some (.active s.tenant.state.active, s)

def step (s : LeaseBook R) (a : Act) : Option (LeaseBook R) := (s.call a).map Prod.snd

/-- Operations one after the other, with readings that do not go back, and their answers. -/
def transcript (s : LeaseBook R) (clock : Instant) : List Act → Option (List (Act × Answer R))
  | [] => some []
  | a :: as =>
    let now := a.reading.getD clock
    if clock ≤ now then
      (s.call a).bind fun r => (r.2.transcript now as).map fun tr => (a, r.1) :: tr
    else none

/-- The leases of an account, with those that were dropped left out. -/
def ofAccount (s : Account) : LeaseBook ℚ :=
  ⟨s.tenant, s.leases.map fun r => if r.isLive then some r.lease else none⟩

end LeaseBook
end OxideGate
