import Mathlib.Algebra.Order.Field.Rat
import Mathlib.Data.List.AList

/-!
# Tenants and their limits (`tenants.rs`)

The source keeps bucket levels in `f64`. The definitions here leave the number type `R` open:
the exact statements take `R := ℚ`, and nothing about the concurrency cap depends on it, so
those statements hold for any arithmetic (the anonymous tenant's infinite buckets included).
Times are exact too: an `Instant` is a number of seconds, and a `Duration` the difference of
two of them. Counters keep the width they have in the source.

`admit` and `Lease::drop` take the clock reading as an argument: the source reads
`Instant::now()` before it takes the tenant's lock, so the reading is an input of the critical
section, not part of it.

The `HashMap` of `Tenants` is an association list with distinct keys.
-/

namespace OxideGate

/-- A point in time, in seconds. -/
abbrev Instant := ℚ

/-- `Instant::saturating_duration_since`, in seconds. -/
def saturatingDurationSince (now earlier : Instant) : ℚ := max (now - earlier) 0

inductive Tier where
  | free
  | paid
deriving DecidableEq, Repr

/-- `Tier::weight`: share of dispatches when tenants are competing. -/
def Tier.weight : Tier → ℚ
  | .free => 1 / 2
  | .paid => 1

/-- `Tier::as_str`. -/
def Tier.asStr : Tier → String
  | .free => "free"
  | .paid => "paid"

/-- One entry in the tenants file. -/
structure TenantConfig (R : Type) where
  id : String
  apiKey : String
  tier : Tier
  tokensPerMinute : UInt64
  requestsPerSecond : R
  maxConcurrent : UInt32
deriving DecidableEq, Repr

/-- Why a tenant's request was refused at admission. -/
inductive AdmitError where
  | rateLimited
  | concurrencyLimited
  | tokenBudget
deriving DecidableEq, Repr

/-- A token bucket: holds up to `capacity`, refills at `perSec`. -/
structure Bucket (R : Type) where
  capacity : R
  perSec : R
  level : R
  last : Instant
deriving DecidableEq, Repr

namespace Bucket

variable {R : Type}

def full (capacity perSec : R) (now : Instant) : Bucket R := ⟨capacity, perSec, capacity, now⟩

/-- A bucket that never runs out. -/
def unlimited [Top R] (now : Instant) : Bucket R := full ⊤ ⊤ now

/-- `refill`: the level rises only when time has passed, `last` is set in any case. -/
def refill [Add R] [Mul R] [Min R] [RatCast R] (b : Bucket R) (now : Instant) : Bucket R :=
  let dt := saturatingDurationSince now b.last
  if 0 < dt then { b with level := min (b.level + (dt : R) * b.perSec) b.capacity, last := now }
  else { b with last := now }

end Bucket

structure TenantState (R : Type) where
  requests : Bucket R
  tokens : Bucket R
  active : UInt32
deriving DecidableEq, Repr

structure Tenant (R : Type) where
  id : String
  tier : Tier
  maxConcurrent : UInt32
  state : TenantState R
deriving DecidableEq, Repr

/-- A tenant's claim on its limits for one request. -/
structure Lease where
  reserved : UInt64
  used : UInt64
deriving DecidableEq, Repr

/-- `Lease::record_tokens`. -/
def Lease.recordTokens (l : Lease) (n : UInt64) : Lease := { l with used := l.used + n }

namespace Tenant

variable {R : Type}

/-- `Tenant::from_config`: a burst of one second's worth of requests, at least one. -/
def fromConfig [Max R] [Div R] [NatCast R] (cfg : TenantConfig R) (now : Instant) : Tenant R :=
  let tpm : R := (cfg.tokensPerMinute.toNat : R)
  { id := cfg.id
    tier := cfg.tier
    maxConcurrent := cfg.maxConcurrent
    state :=
      { requests := .full (max cfg.requestsPerSecond ((1 : ℕ) : R)) cfg.requestsPerSecond now
        tokens := .full tpm (tpm / ((60 : ℕ) : R)) now
        active := 0 } }

/-- `Tenant::unlimited`: the tenant of single-tenant mode. -/
def unlimited [Top R] (id : String) (now : Instant) : Tenant R where
  id := id
  tier := .paid
  maxConcurrent := UInt32.ofNat (2 ^ 32 - 1)
  state := { requests := .unlimited now, tokens := .unlimited now, active := 0 }

variable [Add R] [Sub R] [Mul R] [Min R] [LT R] [DecidableLT R] [NatCast R] [RatCast R]

/-- `Tenant::admit`, with the clock reading `now`: check every limit; if all pass, take from
each. A refusal after the first check has refilled the buckets it looked at. -/
def admitLease (t : Tenant R) (now : Instant) (reserve : UInt64) :
    Except AdmitError Lease × Tenant R :=
  if t.maxConcurrent ≤ t.state.active then (.error .concurrencyLimited, t)
  else
    let requests := t.state.requests.refill now
    if requests.level < ((1 : ℕ) : R) then
      (.error .rateLimited, { t with state := { t.state with requests } })
    else
      let tokens := t.state.tokens.refill now
      if tokens.level < (reserve.toNat : R) then
        (.error .tokenBudget, { t with state := { t.state with requests, tokens } })
      else
        (.ok ⟨reserve, 0⟩, { t with state :=
          { requests := { requests with level := requests.level - ((1 : ℕ) : R) }
            tokens := { tokens with level := tokens.level - (reserve.toNat : R) }
            active := t.state.active + 1 } })

/-- `Tenant::tokens_available`, with the clock reading taken under the lock. -/
def tokensAvailable (t : Tenant R) (now : Instant) : R × Tenant R :=
  let tokens := t.state.tokens.refill now
  (tokens.level, { t with state := { t.state with tokens } })

/-- `u32::saturating_sub(1)`. -/
def release (active : UInt32) : UInt32 := if active = 0 then 0 else active - 1

/-- `Lease::drop`, with the clock reading `now`: the slot is returned and the unused part of
the reservation refunded; more used than reserved is charged as debt. -/
def dropLease (t : Tenant R) (l : Lease) (now : Instant) : Tenant R :=
  let tokens := t.state.tokens.refill now
  let delta := (l.reserved.toNat : R) - (l.used.toNat : R)
  { t with state := { t.state with
      active := release t.state.active
      tokens := { tokens with level := min (tokens.level + delta) tokens.capacity } } }

end Tenant

/-- `TenantsError`, less what goes wrong before there is a list of tenants. -/
inductive TenantsError where
  | duplicateKey (id : String)
  | badRate (id : String)
deriving DecidableEq, Repr

/-- All tenants, looked up by API key. -/
structure Tenants (R : Type) where
  byKey : AList fun _ : String => Tenant R
  anonymous : Option (Tenant R)

namespace Tenants

variable {R : Type}

/-- `Tenants::anonymous`: single-tenant mode. -/
def singleTenant [Top R] (now : Instant) : Tenants R where
  byKey := ∅
  anonymous := some (.unlimited "anonymous" now)

/-- The loop of `from_configs`. -/
def insertConfigs [Max R] [Div R] [LT R] [DecidableLT R] [NatCast R] (now : Instant) :
    AList (fun _ : String => Tenant R) → List (TenantConfig R) →
    Except TenantsError (AList fun _ : String => Tenant R)
  | byKey, [] => .ok byKey
  | byKey, cfg :: configs =>
    -- `is_nan() || <= 0.0`: NaN is not above zero either
    if ¬ ((0 : ℕ) : R) < cfg.requestsPerSecond then .error (.badRate cfg.id)
    -- `insert` returns the tenant that had the key before
    else if (byKey.lookup cfg.apiKey).isSome then .error (.duplicateKey cfg.id)
    else insertConfigs now (byKey.insert cfg.apiKey (.fromConfig cfg now)) configs

/-- `Tenants::from_configs`, with the clock reading `now`. -/
def fromConfigs [Max R] [Div R] [LT R] [DecidableLT R] [NatCast R] (configs : List (TenantConfig R))
    (now : Instant) : Except TenantsError (Tenants R) :=
  (insertConfigs now ∅ configs).map fun byKey => ⟨byKey, none⟩

/-- `Tenants::resolve`: in single-tenant mode every caller is the anonymous tenant, key or no
key. -/
def resolve (tenants : Tenants R) (apiKey : Option String) : Option (Tenant R) :=
  match tenants.anonymous with
  | some anon => some anon
  | none => apiKey.bind fun k => tenants.byKey.lookup k

/-- The tenants, without their keys. -/
def toList (tenants : Tenants R) : List (Tenant R) :=
  tenants.anonymous.toList ++ tenants.byKey.entries.map Sigma.snd

end Tenants
end OxideGate
