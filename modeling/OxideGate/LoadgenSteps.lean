import OxideGate.Loadgen

/-!
# What a step of `run_phase` finds and leaves

`Stepped` has a case for each branch of a worker and of the main task; `step_cases` is the only
place where `step` is unfolded.
-/

namespace OxideGate
namespace Loadgen

variable {H : Type} {crate : HistogramCrate H} {args : Args} {s s' : State H} {w : ℕ}

/-- What one step finds and leaves. -/
inductive Stepped (crate : HistogramCrate H) (args : Args) (s : State H) : State H → Prop
  | started (w : ℕ) (outs : List Outcome) (stats : Stats H)
      (hw : s.workers[w]? = some ⟨.starting, false, outs⟩) (hnew : Stats.new crate = .ok stats) :
      Stepped crate args s { s with workers := s.workers.set w ⟨.claiming stats, false, outs⟩ }
  /-- A panic, or no `Stats` to start with. -/
  | crashed (w : ℕ) (pc : WorkerPc H) (outs : List Outcome)
      (hw : s.workers[w]? = some ⟨pc, false, outs⟩) (hpc : ∀ stats, pc ≠ .finished stats) :
      Stepped crate args s { s with workers := s.workers.set w ⟨pc, true, outs⟩ }
  /-- No number is left. -/
  | finished (w : ℕ) (outs : List Outcome) (stats : Stats H)
      (hw : s.workers[w]? = some ⟨.claiming stats, false, outs⟩) (hnext : args.total ≤ s.next) :
      Stepped crate args s { s with
        next := fetchAdd args s.next
        workers := s.workers.set w ⟨.finished stats, false, outs⟩ }
  | claimed (w : ℕ) (outs : List Outcome) (stats : Stats H)
      (hw : s.workers[w]? = some ⟨.claiming stats, false, outs⟩) (hnext : s.next < args.total) :
      Stepped crate args s { s with
        next := fetchAdd args s.next
        claims := s.claims ++ [(w, s.next)]
        workers := s.workers.set w ⟨.claimed s.next stats, false, outs⟩ }
  | issued (w i : ℕ) (outs : List Outcome) (stats : Stats H)
      (hw : s.workers[w]? = some ⟨.claimed i stats, false, outs⟩) :
      Stepped crate args s { s with
        issued := s.issued ++ [i]
        workers := s.workers.set w ⟨.requesting i stats, false, outs⟩ }
  | responded (w i : ℕ) (outs : List Outcome) (stats : Stats H) (outcome : Outcome)
      (hw : s.workers[w]? = some ⟨.requesting i stats, false, outs⟩) :
      Stepped crate args s { s with
        workers := s.workers.set w
          ⟨.claiming (stats.record crate outcome), false, outs ++ [outcome]⟩ }
  | collected (stats : Stats H) (hmain : s.main = .spawned) (hnew : Stats.new crate = .ok stats) :
      Stepped crate args s { s with main := .joining 0 stats }
  | joined (k : ℕ) (merged : Stats H) (outs : List Outcome) (stats sum : Stats H)
      (hmain : s.main = .joining k merged)
      (hk : s.workers[k]? = some ⟨.finished stats, false, outs⟩)
      (hsum : merged.merge crate stats = .ok sum) :
      Stepped crate args s { s with main := .joining (k + 1) sum }
  | returnedOk (k : ℕ) (merged : Stats H) (hmain : s.main = .joining k merged)
      (hk : s.workers[k]? = none) :
      Stepped crate args s { s with main := .returned (some merged) }
  | returnedErr (hmain : ∀ result, s.main ≠ .returned result) :
      Stepped crate args s { s with main := .returned none }

/-- What a worker's step does, by the place it stands at. -/
theorem worker_cases {pc : WorkerPc H} {outs : List Outcome} {a : Action}
    (hw : s.workers[w]? = some ⟨pc, false, outs⟩)
    (h : workerStep crate args s w ⟨pc, false, outs⟩ a = some s') : Stepped crate args s s' := by
  cases a with
  | start v =>
    cases pc with
    | starting =>
      cases hnew : Stats.new crate with
      | error e =>
        simp only [workerStep, hnew, Option.some.injEq] at h
        rw [← h]
        exact .crashed w .starting outs hw (fun _ => nofun)
      | ok stats =>
        simp only [workerStep, hnew, Option.some.injEq] at h
        rw [← h]
        exact .started w outs stats hw hnew
    | claiming stats | claimed i stats | requesting i stats | finished stats =>
      simp [workerStep] at h
  | claim v =>
    cases pc with
    | claiming stats =>
      simp only [workerStep] at h
      split at h
      · rename_i hnext
        rw [← Option.some.inj h]
        exact .finished w outs stats hw hnext
      · rename_i hnext
        rw [← Option.some.inj h]
        exact .claimed w outs stats hw (Nat.lt_of_not_le hnext)
    | starting | claimed i stats | requesting i stats | finished stats => simp [workerStep] at h
  | issue v =>
    cases pc with
    | claimed i stats =>
      rw [← Option.some.inj h]
      exact .issued w i outs stats hw
    | starting | claiming stats | requesting i stats | finished stats => simp [workerStep] at h
  | respond v outcome =>
    cases pc with
    | requesting i stats =>
      rw [← Option.some.inj h]
      exact .responded w i outs stats outcome hw
    | starting | claiming stats | claimed i stats | finished stats => simp [workerStep] at h
  | crash v =>
    cases pc with
    | finished stats => simp [workerStep] at h
    | starting | claiming stats | claimed i stats | requesting i stats =>
      rw [← Option.some.inj h]
      exact .crashed w _ outs hw (fun _ => nofun)
  | collect | join => simp [workerStep] at h

/-- What a step of the main task does: it waits for the first worker that has not been joined. -/
theorem main_cases {a : Action} (h : mainStep crate s a = some s') : Stepped crate args s s' := by
  cases a with
  | collect =>
    cases hmain : s.main with
    | spawned =>
      cases hnew : Stats.new crate with
      | error e =>
        simp only [mainStep, hmain, hnew, Option.some.injEq] at h
        rw [← h]
        exact .returnedErr (fun _ => by rw [hmain]; nofun)
      | ok stats =>
        simp only [mainStep, hmain, hnew, Option.some.injEq] at h
        rw [← h]
        exact .collected stats hmain hnew
    | joining k merged | returned result => simp [mainStep, hmain] at h
  | join =>
    cases hmain : s.main with
    | joining k merged =>
      have herr : ∀ result, s.main ≠ .returned result := fun _ => by rw [hmain]; nofun
      cases hk : s.workers[k]? with
      | none =>
        simp only [mainStep, hmain, hk, Option.some.injEq] at h
        rw [← h]
        exact .returnedOk k merged hmain hk
      | some t =>
        obtain ⟨pc, failed, outs⟩ := t
        simp only [mainStep, hmain, hk] at h
        cases failed with
        | true =>
          rw [← Option.some.inj h]
          exact .returnedErr herr
        | false =>
          cases pc with
          | finished stats =>
            cases hsum : merged.merge crate stats with
            | error e =>
              simp only [hsum, Bool.false_eq_true, if_false, Option.some.injEq] at h
              rw [← h]
              exact .returnedErr herr
            | ok sum =>
              simp only [hsum, Bool.false_eq_true, if_false, Option.some.injEq] at h
              rw [← h]
              exact .joined k merged outs stats sum hmain hk hsum
          | starting | claiming stats | claimed i stats | requesting i stats => simp at h
    | spawned | returned result => simp [mainStep, hmain] at h
  | start w | claim w | issue w | respond w outcome | crash w => simp [mainStep] at h

/-- Every step is one of these. -/
theorem step_cases {a : Action} (h : step crate args s a = some s') :
    Stepped crate args s s' := by
  have hworker : ∀ w, ((s.workers[w]?.bind fun t =>
      if t.failed then none else workerStep crate args s w t a) = some s') →
      Stepped crate args s s' := by
    intro w h
    obtain ⟨⟨pc, failed, outs⟩, hw, h⟩ := Option.bind_eq_some_iff.mp h
    cases failed with
    | true => simp at h
    | false => exact worker_cases hw h
  cases a with
  | start w | claim w | issue w | respond w outcome | crash w => exact hworker w h
  | collect => exact main_cases (a := .collect) h
  | join => exact main_cases (a := .join) h

end Loadgen
end OxideGate
