import OxideGate.Account

/-!
# Where the clock readings come from

`admit` and `Lease::drop` read `Instant::now()` before they wait for the tenant's lock;
`tokens_available` reads it under the lock. There are two systems over an `Account`:

* `Clocked`: any number of threads. Reading the clock and running the critical section are two
  steps, and other threads may run in between;
* `Serial`: operations that do not overlap, so that readings never go back.
-/

namespace OxideGate

/-- Every refill of the critical section has a reading that is not older than the last one
that the same bucket has seen. -/
def Account.InOrder (s : Account) : Account.Act → Prop
  | .admission now _ => s.tenant.state.active < s.tenant.maxConcurrent →
      s.requests.last ≤ now ∧ (1 ≤ (s.requests.refill now).level → s.tokens.last ≤ now)
  | .drop _ now => s.tokens.last ≤ now
  | .tokensAvailable now => s.tokens.last ≤ now
  | .recordTokens _ _ => True
  | .active => True

instance (s : Account) : (a : Account.Act) → Decidable (s.InOrder a)
  | .admission now _ => inferInstanceAs (Decidable
      (s.tenant.state.active < s.tenant.maxConcurrent →
        s.requests.last ≤ now ∧ (1 ≤ (s.requests.refill now).level → s.tokens.last ≤ now)))
  | .drop _ now => inferInstanceAs (Decidable (s.tokens.last ≤ now))
  | .tokensAvailable now => inferInstanceAs (Decidable (s.tokens.last ≤ now))
  | .recordTokens _ _ => isTrue trivial
  | .active => isTrue trivial

/-! ## Threads -/

/-- A call that reads the clock before it takes the lock. -/
inductive Call where
  | admission (reserve : UInt64)
  | drop (id : ℕ)
deriving DecidableEq, Repr

/-- The critical section of a call that has read the clock at `now`. -/
def Call.act (now : Instant) : Call → Account.Act
  | .admission reserve => .admission now reserve
  | .drop id => .drop id now

structure Clocked where
  account : Account
  clock : Instant
  /-- The call of each thread that waits for the lock, with its reading. -/
  calls : ℕ → Option (Call × Instant)

namespace Clocked

inductive Event where
  | tick (dt : ℚ)
  | read (thread : ℕ) (call : Call)
  | enter (thread : ℕ)
  | tokensAvailable
  | recordTokens (id : ℕ) (n : UInt64)
  | active
deriving DecidableEq, Repr

def start (cfg : TenantConfig ℚ) (t0 : Instant) : Clocked := ⟨.new cfg t0, t0, fun _ => none⟩

/-- A critical section, with the clock as it is. -/
def enterWith (s : Clocked) (a : Account.Act) : Option Clocked :=
  (s.account.step a).map fun account => { s with account := account }

def step (s : Clocked) : Event → Option Clocked
  | .tick dt => if 0 ≤ dt then some { s with clock := s.clock + dt } else none
  | .read thread call =>
    match s.calls thread with
    | some _ => none
    | none => some { s with calls := Function.update s.calls thread (some (call, s.clock)) }
  | .enter thread =>
    match s.calls thread with
    | none => none
    | some (call, now) =>
      enterWith { s with calls := Function.update s.calls thread none } (call.act now)
  | .tokensAvailable => s.enterWith (.tokensAvailable s.clock)
  | .recordTokens id n => s.enterWith (.recordTokens id n)
  | .active => s.enterWith .active

/-- No thread that takes the lock has been overtaken since it read the clock, as far as the
buckets it refills are concerned. -/
def InOrder (s : Clocked) : Event → Prop
  | .enter thread =>
    match s.calls thread with
    | none => True
    | some (call, now) => s.account.InOrder (call.act now)
  | _ => True

instance (s : Clocked) : (e : Event) → Decidable (s.InOrder e)
  | .enter thread =>
    match h : s.calls thread with
    | none => isTrue (by simp [InOrder, h])
    | some (call, now) =>
      decidable_of_iff (s.account.InOrder (call.act now)) (by simp [InOrder, h])
  | .tick _ => isTrue trivial
  | .read _ _ => isTrue trivial
  | .tokensAvailable => isTrue trivial
  | .recordTokens _ _ => isTrue trivial
  | .active => isTrue trivial

end Clocked

/-! ## One operation after the other -/

structure Serial where
  account : Account
  /-- The latest reading. -/
  clock : Instant

namespace Serial

def start (cfg : TenantConfig ℚ) (t0 : Instant) : Serial := ⟨.new cfg t0, t0⟩

/-- An operation whose reading, if it takes one, is not older than the readings before it. -/
def step (s : Serial) (a : Account.Act) : Option Serial :=
  let now := a.reading.getD s.clock
  if s.clock ≤ now then (s.account.step a).map fun account => ⟨account, now⟩ else none

end Serial
end OxideGate
