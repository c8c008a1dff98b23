import OxideGate.Loadgen

/-!
# What the counters of the load generator count

`Tallies` relates `Stats` to the outcomes they were made of: each counter is the number of
outcomes of its kind, the histograms have one sample for each reply and for each first byte.
It holds of new `Stats`, and `record` and `merge` keep it, as long as a `u64` can count the
outcomes.
-/

namespace OxideGate
namespace Loadgen

/-- How long the reply took. -/
def Outcome.e2e? : Outcome → Option Duration
  | .ok _ e2e => some e2e
  | _ => none

/-- When its first byte came. -/
def Outcome.ttft? : Outcome → Option Duration
  | .ok ttft _ => ttft
  | _ => none

def Outcome.isOk (outcome : Outcome) : Bool := outcome.e2e?.isSome

def Outcome.hasTtft (outcome : Outcome) : Bool := outcome.ttft?.isSome

variable {H : Type}

/-- What `hdrhistogram` is used for: samples are kept, as many as a `u64` can count. -/
structure HistogramCrate.Counting (crate : HistogramCrate H) : Prop where
  new_len : ∀ {h}, crate.newWithBounds = .ok h → crate.len h = 0
  record_len : ∀ h v, crate.len h + 1 < 2 ^ 64 →
    crate.len (crate.saturatingRecord h v) = crate.len h + 1
  add_len : ∀ {h h' sum}, crate.add h h' = .ok sum → crate.len h + crate.len h' < 2 ^ 64 →
    crate.len sum = crate.len h + crate.len h'

/-- `stats` are those of `outcomes`. -/
structure Tallies (crate : HistogramCrate H) (outcomes : List Outcome) (stats : Stats H) :
    Prop where
  ok : stats.ok.toNat = outcomes.countP Outcome.isOk
  rejected : stats.rejected.toNat = outcomes.countP (· == .rejected)
  httpError : stats.httpError.toNat = outcomes.countP (· == .httpError)
  transport : stats.transport.toNat = outcomes.countP (· == .transport)
  truncated : stats.truncated.toNat = outcomes.countP (· == .truncated)
  e2e : crate.len stats.e2e = outcomes.countP Outcome.isOk
  ttft : crate.len stats.ttft = outcomes.countP Outcome.hasTtft

/-- Every outcome is of one kind. -/
theorem length_outcomes (outcomes : List Outcome) :
    outcomes.countP Outcome.isOk + outcomes.countP (· == .rejected)
      + outcomes.countP (· == .httpError) + outcomes.countP (· == .transport)
      + outcomes.countP (· == .truncated) = outcomes.length := by
  induction outcomes with
  | nil => rfl
  | cons outcome outcomes ih =>
    simp only [List.countP_cons, List.length_cons]
    cases outcome <;> simp [Outcome.isOk, Outcome.e2e?] <;> omega

/-- Only replies that are ok have a first token. -/
theorem countP_hasTtft_le (outcomes : List Outcome) :
    outcomes.countP Outcome.hasTtft ≤ outcomes.countP Outcome.isOk := by
  refine List.countP_mono_left fun outcome _ h => ?_
  cases outcome with
  | ok ttft e2e => rfl
  | rejected | httpError | transport | truncated => exact h

theorem toNat_add_of_lt {a b : UInt64} (h : a.toNat + b.toNat < 2 ^ 64) :
    (a + b).toNat = a.toNat + b.toNat := by
  rw [UInt64.toNat_add, Nat.mod_eq_of_lt h]

/-! ## One counter, one histogram -/

section

variable {outcomes outcomes' : List Outcome}

/-- Two counters that count one kind add up, if a `u64` can count all outcomes. -/
theorem counter_append {p : Outcome → Bool} {c c' : UInt64} (h : c.toNat = outcomes.countP p)
    (h' : c'.toNat = outcomes'.countP p) (hlen : (outcomes ++ outcomes').length < 2 ^ 64) :
    (c + c').toNat = (outcomes ++ outcomes').countP p := by
  have hle := List.countP_le_length (p := p) (l := outcomes ++ outcomes')
  rw [List.countP_append, ← h, ← h'] at hle ⊢
  exact toNat_add_of_lt (hle.trans_lt hlen)

theorem counter_concat {p : Outcome → Bool} {c : UInt64} (h : c.toNat = outcomes.countP p)
    (outcome : Outcome) (hlen : (outcomes ++ [outcome]).length < 2 ^ 64) :
    (if p outcome then c + 1 else c).toNat = (outcomes ++ [outcome]).countP p := by
  by_cases hp : p outcome = true
  · rw [if_pos hp]
    refine counter_append h ?_ hlen
    rw [List.countP_singleton, if_pos hp]
    rfl
  · rw [if_neg hp, List.countP_append, List.countP_singleton, if_neg hp, Nat.add_zero]
    exact h

variable {crate : HistogramCrate H} (hcrate : crate.Counting)

include hcrate

theorem histogram_append {p : Outcome → Bool} {h h' sum : H}
    (hh : crate.len h = outcomes.countP p) (hh' : crate.len h' = outcomes'.countP p)
    (hlen : (outcomes ++ outcomes').length < 2 ^ 64) (hsum : crate.add h h' = .ok sum) :
    crate.len sum = (outcomes ++ outcomes').countP p := by
  have hle := List.countP_le_length (p := p) (l := outcomes ++ outcomes')
  rw [List.countP_append, ← hh, ← hh'] at hle ⊢
  exact hcrate.add_len hsum (hle.trans_lt hlen)

theorem histogram_concat {sample : Outcome → Option Duration} {h : H}
    (hh : crate.len h = outcomes.countP fun outcome => (sample outcome).isSome)
    (outcome : Outcome) (hlen : (outcomes ++ [outcome]).length < 2 ^ 64) :
    crate.len ((sample outcome).elim h fun d => crate.saturatingRecord h (micros d))
      = (outcomes ++ [outcome]).countP fun outcome => (sample outcome).isSome := by
  rw [List.countP_append, List.countP_singleton, ← hh]
  cases hd : sample outcome with
  | none => rfl
  | some d =>
    have hle : crate.len h ≤ outcomes.length := hh ▸ List.countP_le_length
    rw [List.length_append, List.length_singleton] at hlen
    exact hcrate.record_len h (micros d) (by omega)

end

/-! ## `Stats` -/

/-- `record`, counter by counter. -/
theorem Stats.record_eq (crate : HistogramCrate H) (stats : Stats H) (outcome : Outcome) :
    stats.record crate outcome = {
      ttft := outcome.ttft?.elim stats.ttft fun d => crate.saturatingRecord stats.ttft (micros d)
      e2e := outcome.e2e?.elim stats.e2e fun d => crate.saturatingRecord stats.e2e (micros d)
      ok := if outcome.isOk then stats.ok + 1 else stats.ok
      rejected := if outcome == .rejected then stats.rejected + 1 else stats.rejected
      httpError := if outcome == .httpError then stats.httpError + 1 else stats.httpError
      transport := if outcome == .transport then stats.transport + 1 else stats.transport
      truncated := if outcome == .truncated then stats.truncated + 1 else stats.truncated } := by
  cases outcome with
  | ok ttft e2e => cases ttft <;> rfl
  | rejected | httpError | transport | truncated => rfl

namespace Tallies

variable {crate : HistogramCrate H} {outcomes outcomes' : List Outcome} {stats stats' sum : Stats H}

/-- The five counters add up to the requests. -/
theorem length (h : Tallies crate outcomes stats) :
    stats.ok.toNat + stats.rejected.toNat + stats.httpError.toNat + stats.transport.toNat
      + stats.truncated.toNat = outcomes.length := by
  rw [h.ok, h.rejected, h.httpError, h.transport, h.truncated, length_outcomes]

/-- The sum in `failed` does not wrap around. -/
theorem failed (h : Tallies crate outcomes stats) (hlen : outcomes.length < 2 ^ 64) :
    stats.ok.toNat + stats.failed.toNat = outcomes.length := by
  have hsum := h.length
  have hhttp : (stats.rejected + stats.httpError).toNat
      = stats.rejected.toNat + stats.httpError.toNat := toNat_add_of_lt (by omega)
  have htransport : (stats.rejected + stats.httpError + stats.transport).toNat
      = (stats.rejected + stats.httpError).toNat + stats.transport.toNat :=
    toNat_add_of_lt (by omega)
  rw [Stats.failed, toNat_add_of_lt (by omega)]
  omega

variable (hcrate : crate.Counting)

include hcrate

/-- Nothing is recorded yet. -/
theorem new (h : Stats.new crate = .ok stats) : Tallies crate [] stats := by
  cases hnew : crate.newWithBounds with
  | error e => simp [Stats.new, hnew, bind, Except.bind] at h
  | ok hist =>
    simp only [Stats.new, hnew, bind, Except.bind, pure, Except.pure, Except.ok.injEq] at h
    subst h
    exact ⟨rfl, rfl, rfl, rfl, rfl, hcrate.new_len hnew, hcrate.new_len hnew⟩

/-- Recording an outcome counts it. -/
theorem record (h : Tallies crate outcomes stats) (outcome : Outcome)
    (hlen : (outcomes ++ [outcome]).length < 2 ^ 64) :
    Tallies crate (outcomes ++ [outcome]) (stats.record crate outcome) := by
  rw [Stats.record_eq]
  exact {
    ok := counter_concat h.ok outcome hlen
    rejected := counter_concat h.rejected outcome hlen
    httpError := counter_concat h.httpError outcome hlen
    transport := counter_concat h.transport outcome hlen
    truncated := counter_concat h.truncated outcome hlen
    e2e := histogram_concat hcrate h.e2e outcome hlen
    ttft := histogram_concat hcrate h.ttft outcome hlen }

/-- Merging adds what the two workers have counted. -/
theorem merge (h : Tallies crate outcomes stats) (h' : Tallies crate outcomes' stats')
    (hlen : (outcomes ++ outcomes').length < 2 ^ 64)
    (hmerge : stats.merge crate stats' = .ok sum) : Tallies crate (outcomes ++ outcomes') sum := by
  cases httft : crate.add stats.ttft stats'.ttft with
  | error e => simp [Stats.merge, httft, bind, Except.bind] at hmerge
  | ok ttft =>
    cases he2e : crate.add stats.e2e stats'.e2e with
    | error e => simp [Stats.merge, httft, he2e, bind, Except.bind] at hmerge
    | ok e2e =>
      simp only [Stats.merge, httft, he2e, bind, Except.bind, pure, Except.pure,
        Except.ok.injEq] at hmerge
      subst hmerge
      exact {
        ok := counter_append h.ok h'.ok hlen
        rejected := counter_append h.rejected h'.rejected hlen
        httpError := counter_append h.httpError h'.httpError hlen
        transport := counter_append h.transport h'.transport hlen
        truncated := counter_append h.truncated h'.truncated hlen
        e2e := histogram_append hcrate h.e2e h'.e2e hlen he2e
        ttft := histogram_append hcrate h.ttft h'.ttft hlen httft }

end Tallies

end Loadgen
end OxideGate
