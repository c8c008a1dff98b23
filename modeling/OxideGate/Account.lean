import OxideGate.Lib.Runs
import OxideGate.Lib.Tally
import OxideGate.Tenants

/-!
# A tenant's account: a tenant with every lease it ever gave

Every operation on a tenant runs its critical section under the tenant's lock, so what any
number of threads do to one tenant is a list of critical sections, in the order in which they
take the lock. Each carries the clock reading it uses. Nothing is assumed about these readings
here; `Clocked` and `Serial` say where they come from.

Besides the tenant an `Account` records what the source does not store: every lease given so
far with the readings it was granted and dropped at, the amount that refills have added to the
token bucket, and the refunds cut off at its capacity.
-/

namespace OxideGate

/-- What a refill at the reading `now` adds to the level. -/
def Bucket.gain (b : Bucket ℚ) (now : Instant) : ℚ := (b.refill now).level - b.level

/-- A lease that was given, with the reading of its `admit` and, once it is dropped, the
reading of the drop. -/
structure Record where
  lease : Lease
  grantedAt : Instant
  droppedAt : Option Instant
deriving DecidableEq, Repr

namespace Record

def isLive (r : Record) : Bool := r.droppedAt.isNone

/-- Tokens a live lease holds. -/
def held (r : Record) : ℚ := if r.isLive then (r.lease.reserved.toNat : ℚ) else 0

/-- Tokens a dropped lease has used. -/
def spent (r : Record) : ℚ := if r.isLive then 0 else (r.lease.used.toNat : ℚ)

/-- What a dropped lease has used beyond its reservation. -/
def overuse (r : Record) : ℚ :=
  if r.isLive then 0 else max ((r.lease.used.toNat : ℚ) - (r.lease.reserved.toNat : ℚ)) 0

end Record

structure Account where
  tenant : Tenant ℚ
  /-- Every lease given so far, in the order of the grants. -/
  leases : List Record
  /-- What refills have added to the token bucket. -/
  added : ℚ
  /-- What was cut off from refunds at the capacity of the token bucket. -/
  cutOff : ℚ
deriving DecidableEq

namespace Account

/-- A tenant built from its configuration at `t0`. -/
def new (cfg : TenantConfig ℚ) (t0 : Instant) : Account := ⟨.fromConfig cfg t0, [], 0, 0⟩

/-- The token bucket. -/
def tokens (s : Account) : Bucket ℚ := s.tenant.state.tokens

/-- The request bucket. -/
def requests (s : Account) : Bucket ℚ := s.tenant.state.requests

/-- One operation on the tenant, with the clock reading it uses. A lease is named by its
place in the order of the grants. -/
inductive Act where
  | admission (now : Instant) (reserve : UInt64)
  | recordTokens (id : ℕ) (n : UInt64)
  | drop (id : ℕ) (now : Instant)
  | tokensAvailable (now : Instant)
  | active
deriving DecidableEq, Repr

/-- The reading that an operation uses, if it uses one. -/
def Act.reading : Act → Option Instant
  | .admission now _ => some now
  | .drop _ now => some now
  | .tokensAvailable now => some now
  | .recordTokens _ _ => none
  | .active => none

/-- `admit`. It refills the token bucket unless an earlier check refuses. -/
def admission (s : Account) (now : Instant) (reserve : UInt64) : Account :=
  let r := s.tenant.admitLease now reserve
  match r.1 with
  | .ok lease => { s with
      tenant := r.2
      leases := s.leases ++ [⟨lease, now, none⟩]
      added := s.added + s.tokens.gain now }
  | .error .tokenBudget => { s with tenant := r.2, added := s.added + s.tokens.gain now }
  | .error .rateLimited => { s with tenant := r.2 }
  | .error .concurrencyLimited => { s with tenant := r.2 }

/-- `record_tokens` on the record of a live lease. -/
def recordOn (s : Account) (id : ℕ) (r : Record) (n : UInt64) : Account :=
  { s with leases := s.leases.set id { r with lease := r.lease.recordTokens n } }

/-- What dropping the lease gives back: the unused part of the reservation, negative if more
was used. -/
def refund (l : Lease) : ℚ := (l.reserved.toNat : ℚ) - (l.used.toNat : ℚ)

/-- `Lease::drop` on the record of a live lease. -/
def dropOn (s : Account) (id : ℕ) (r : Record) (now : Instant) : Account where
  tenant := s.tenant.dropLease r.lease now
  leases := s.leases.set id { r with droppedAt := some now }
  added := s.added + s.tokens.gain now
  cutOff := s.cutOff
    + max ((s.tokens.refill now).level + refund r.lease - s.tokens.capacity) 0

/-- One critical section. Only the owner of a live lease can use or drop it. -/
def step (s : Account) : Act → Option Account
  | .admission now reserve => some (s.admission now reserve)
  | .recordTokens id n => (s.leases[id]?.filter Record.isLive).map fun r => s.recordOn id r n
  | .drop id now => (s.leases[id]?.filter Record.isLive).map fun r => s.dropOn id r now
  | .tokensAvailable now => some { s with
      tenant := (s.tenant.tokensAvailable now).2
      added := s.added + s.tokens.gain now }
  | .active => some s

end Account
end OxideGate
