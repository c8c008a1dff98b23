import Mathlib.Order.Monotone.Basic
import OxideGate.LoadgenPhase

/-!
# The schedule of the load generator

With `--rps` request `i` has a slot: `i` intervals after the start of the phase. The worker that
has its number sleeps until then, and the request is measured from the slot, not from when it goes
out. `open_loop` says what that makes of a run. No request is early. One whose slot has passed has
gone out, or every worker is busy with another. And the time that it has waited for a worker is a
part of what is recorded for it.
-/

namespace OxideGate
namespace Loadgen

open Runs Tally

variable {H : Type}

/-! ## A phase in time -/

/-- One call of `one_request`. Times are counted from `phase_start`. -/
structure Call where
  i : ℕ
  measureFrom : Duration
  /-- When it was called. -/
  sent : Duration
deriving DecidableEq

/-- A call that has returned. -/
structure Ended where
  call : Call
  /-- When it returned. -/
  time : Duration
  outcome : Outcome
deriving DecidableEq

structure Timed (H : Type) where
  phase : State H
  now : Duration
  /-- The call that a worker is in, or was in last. -/
  current : ℕ → Option Call
  calls : List Call
  ended : List Ended

inductive TimedAction where
  /-- Time passes. -/
  | pass (d : Duration)
  | call (w : ℕ)
  /-- `one_request` returns, with what `send()` has given to it. -/
  | answer (w : ℕ) (resp : Option Response)
  /-- A step in which nobody looks at the clock. -/
  | other (a : Action)

def Action.untimed : Action → Bool
  | .issue _ | .respond _ _ => false
  | .start _ | .claim _ | .crash _ | .collect | .join => true

/-- The number that a worker has and has not called `one_request` for. -/
def WorkerPc.number : WorkerPc H → Option ℕ
  | .claimed i _ => some i
  | _ => none

/-- `measure_from`: `none` while the worker sleeps. In an open loop `due` is `mul_f64` of the
interval. -/
def measureFrom (due : Option (ℕ → Duration)) (now : Duration) (i : ℕ) : Option Duration :=
  match due with
  | none => some now
  | some due => if due i ≤ now then some (due i) else none

/-- What `one_request` reads from its stopwatch is the time since `measure_from`, and a chunk comes
between the call and the end. -/
def Response.ReadAt (resp : Response) (call : Call) (now : Duration) : Prop :=
  call.measureFrom + resp.ended = now ∧ ∀ chunk ∈ resp.body,
    call.sent ≤ call.measureFrom + chunk.elapsed ∧ call.measureFrom + chunk.elapsed ≤ now

instance Response.decidableReadAt (resp : Response) (call : Call) (now : Duration) :
    Decidable (resp.ReadAt call now) :=
  inferInstanceAs (Decidable (_ ∧ _))

namespace Timed

def init (args : Args) : Timed H where
  phase := Loadgen.init args
  now := 0
  current := fun _ => none
  calls := []
  ended := []

def step (crate : HistogramCrate H) (args : Args) (stream : Bool)
    (due : Option (ℕ → Duration)) (s : Timed H) : TimedAction → Option (Timed H)
  | .pass d => some { s with now := s.now + d }
  | .call w =>
    (s.phase.workers[w]?.bind fun t => t.pc.number).bind fun i =>
    (measureFrom due s.now i).bind fun start =>
    (Loadgen.step crate args s.phase (.issue w)).map fun phase => { s with
      phase
      current := Function.update s.current w (some ⟨i, start, s.now⟩)
      calls := s.calls ++ [⟨i, start, s.now⟩] }
  | .answer w resp =>
    (s.current w).bind fun call =>
    if ∀ r ∈ resp, r.ReadAt call s.now then
      (Loadgen.step crate args s.phase (.respond w (oneRequest stream resp))).map fun phase =>
        { s with phase, ended := s.ended ++ [⟨call, s.now, oneRequest stream resp⟩] }
    else none
  | .other a =>
    if a.untimed then
      (Loadgen.step crate args s.phase a).map fun phase => { s with phase }
    else none

end Timed

/-! ## What a step does -/

variable {crate : HistogramCrate H} {args : Args} {stream : Bool} {due : ℕ → Duration}

/-- What one step finds and leaves. -/
inductive TimedStepped (crate : HistogramCrate H) (args : Args) (stream : Bool)
    (due : ℕ → Duration) (s : Timed H) : Timed H → Prop
  | passed (d : Duration) : TimedStepped crate args stream due s { s with now := s.now + d }
  | called (w i : ℕ) (outs : List Outcome) (stats : Stats H)
      (hw : s.phase.workers[w]? = some ⟨.claimed i stats, false, outs⟩)
      (hdue : due i ≤ s.now) :
      TimedStepped crate args stream due s { s with
        phase := { s.phase with
          issued := s.phase.issued ++ [i]
          workers := s.phase.workers.set w ⟨.requesting i stats, false, outs⟩ }
        current := Function.update s.current w (some ⟨i, due i, s.now⟩)
        calls := s.calls ++ [⟨i, due i, s.now⟩] }
  | answered (w i : ℕ) (outs : List Outcome) (stats : Stats H) (call : Call)
      (resp : Option Response)
      (hw : s.phase.workers[w]? = some ⟨.requesting i stats, false, outs⟩)
      (hcall : s.current w = some call) (hread : ∀ r ∈ resp, r.ReadAt call s.now) :
      TimedStepped crate args stream due s { s with
        phase := { s.phase with
          workers := s.phase.workers.set w ⟨.claiming (stats.record crate (oneRequest stream resp)),
            false, outs ++ [oneRequest stream resp]⟩ }
        ended := s.ended ++ [⟨call, s.now, oneRequest stream resp⟩] }
  | other (phase : State H) (hstep : Stepped crate args s.phase phase)
      (hissued : phase.issued = s.phase.issued)
      (houts : phase.workers.map Worker.outcomes = s.phase.workers.map Worker.outcomes) :
      TimedStepped crate args stream due s { s with phase }

/-- The main task looks at the workers, and leaves them as they are. -/
theorem mainStep_frame {s s' : State H} {a : Action} (h : mainStep crate s a = some s') :
    s'.issued = s.issued ∧ s'.workers.map Worker.outcomes = s.workers.map Worker.outcomes := by
  unfold mainStep at h
  split at h
  · split at h <;> first
      | exact Option.some.inj h ▸ ⟨rfl, rfl⟩
      | exact absurd h (by simp)
  · split at h
    · split at h
      · exact Option.some.inj h ▸ ⟨rfl, rfl⟩
      · repeat' split at h
        all_goals first
          | exact Option.some.inj h ▸ ⟨rfl, rfl⟩
          | exact absurd h (by simp)
    · exact absurd h (by simp)
  · exact absurd h (by simp)

theorem workerStep_frame {s s' : State H} {w : ℕ} {pc : WorkerPc H} {outs : List Outcome}
    {a : Action} (ha : a.untimed) (hw : s.workers[w]? = some ⟨pc, false, outs⟩)
    (h : workerStep crate args s w ⟨pc, false, outs⟩ a = some s') :
    s'.issued = s.issued ∧ s'.workers.map Worker.outcomes = s.workers.map Worker.outcomes := by
  have hset : ∀ (pc : WorkerPc H) (failed : Bool),
      (s.workers.set w ⟨pc, failed, outs⟩).map Worker.outcomes = s.workers.map Worker.outcomes :=
    fun pc failed => map_set_eq hw rfl
  cases a with
  | start v =>
    cases pc with
    | starting =>
      cases hnew : Stats.new crate <;> simp only [workerStep, hnew, Option.some.injEq] at h
      all_goals exact h ▸ ⟨rfl, hset _ _⟩
    | claiming | claimed | requesting | finished => simp [workerStep] at h
  | claim v =>
    cases pc with
    | claiming stats =>
      simp only [workerStep] at h
      split at h <;> exact Option.some.inj h ▸ ⟨rfl, hset _ _⟩
    | starting | claimed | requesting | finished => simp [workerStep] at h
  | crash v =>
    cases pc with
    | finished => simp [workerStep] at h
    | starting | claiming | claimed | requesting => exact Option.some.inj h ▸ ⟨rfl, hset _ _⟩
  | issue v | respond v outcome => exact absurd ha (by simp [Action.untimed])
  | collect | join => simp [workerStep] at h

/-- A step without the clock neither sends a request nor ends one. -/
theorem untimed_frame {s s' : State H} {a : Action} (ha : a.untimed)
    (h : Loadgen.step crate args s a = some s') :
    s'.issued = s.issued ∧ s'.workers.map Worker.outcomes = s.workers.map Worker.outcomes := by
  have hworker : ∀ w, ((s.workers[w]?.bind fun t =>
      if t.failed then none else workerStep crate args s w t a) = some s') →
      s'.issued = s.issued ∧ s'.workers.map Worker.outcomes = s.workers.map Worker.outcomes := by
    intro w h
    obtain ⟨⟨pc, failed, outs⟩, hw, h⟩ := Option.bind_eq_some_iff.mp h
    cases failed with
    | true => simp at h
    | false => exact workerStep_frame ha hw h
  cases a with
  | start w | claim w | crash w => exact hworker w h
  | issue w | respond w outcome => exact absurd ha (by simp [Action.untimed])
  | collect => exact mainStep_frame (a := .collect) h
  | join => exact mainStep_frame (a := .join) h

theorem timed_cases {s s' : Timed H} {a : TimedAction}
    (h : s.step crate args stream (some due) a = some s') :
    TimedStepped crate args stream due s s' := by
  cases a with
  | pass d =>
    rw [← Option.some.inj h]
    exact .passed d
  | call w =>
    simp only [Timed.step, Option.bind_eq_some_iff, Option.map_eq_some_iff] at h
    obtain ⟨i, ⟨⟨pc, failed, outs⟩, hw, hpc⟩, start, hstart, phase, hphase, rfl⟩ := h
    obtain ⟨stats, rfl⟩ : ∃ stats, pc = .claimed i stats := by
      cases pc <;> simp_all [WorkerPc.number]
    rw [measureFrom, Option.ite_none_right_eq_some, Option.some.injEq] at hstart
    obtain ⟨hdue, rfl⟩ := hstart
    cases failed with
    | true => simp [Loadgen.step, hw] at hphase
    | false =>
      simp only [Loadgen.step, hw, Option.bind_some, Bool.false_eq_true, if_false, workerStep,
        Option.some.injEq] at hphase
      rw [← hphase]
      exact .called w i outs stats hw hdue
  | answer w resp =>
    simp only [Timed.step, Option.bind_eq_some_iff, Option.ite_none_right_eq_some,
      Option.map_eq_some_iff] at h
    obtain ⟨call, hcall, hread, phase, hphase, rfl⟩ := h
    obtain ⟨⟨pc, failed, outs⟩, hw, hphase⟩ := Option.bind_eq_some_iff.mp hphase
    cases failed with
    | true => simp at hphase
    | false =>
      cases pc with
      | requesting i stats =>
        rw [← Option.some.inj hphase]
        exact .answered w i outs stats call resp hw hcall hread
      | starting | claiming | claimed | finished => simp [workerStep] at hphase
  | other a =>
    rw [Timed.step, Option.ite_none_right_eq_some, Option.map_eq_some_iff] at h
    obtain ⟨ha, phase, hphase, rfl⟩ := h
    have hframe := untimed_frame ha hphase
    exact .other phase (step_cases hphase) hframe.1 hframe.2

/-! ## What `one_request` reads -/

theorem drainChunks_ok {ended : Duration} {start ttft : Option Duration} {e2e : Duration}
    {tail : List UInt8} {chunks : List Chunk}
    (h : drainChunks ended start tail chunks = .ok ttft e2e) :
    e2e = ended ∧ ∀ x ∈ ttft, start = some x ∨ ∃ chunk ∈ chunks, chunk.elapsed = x := by
  induction chunks generalizing start tail with
  | nil =>
    rw [drainChunks] at h
    split at h
    · obtain ⟨rfl, rfl⟩ := Outcome.ok.inj h
      exact ⟨rfl, fun x hx => Or.inl hx⟩
    · exact absurd h (by simp)
  | cons chunk chunks ih =>
    obtain ⟨elapsed, bytes⟩ := chunk
    cases bytes with
    | error e => exact absurd h (by simp [drainChunks])
    | ok bytes =>
      obtain ⟨he2e, httft⟩ := ih h
      refine ⟨he2e, fun x hx => ?_⟩
      rcases httft x hx with hstart | ⟨chunk, hmem, hx⟩
      · split at hstart
        · exact Or.inr ⟨_, List.mem_cons_self, Option.some.inj hstart⟩
        · exact Or.inl hstart
      · exact Or.inr ⟨chunk, List.mem_cons_of_mem _ hmem, hx⟩

/-- The times of a reply are those of its body. -/
theorem oneRequest_ok {resp : Option Response} {ttft : Option Duration} {e2e : Duration}
    (h : oneRequest stream resp = .ok ttft e2e) :
    ∃ r, resp = some r ∧ e2e = r.ended ∧ ∀ x ∈ ttft, ∃ chunk ∈ r.body, chunk.elapsed = x := by
  cases resp with
  | none => exact absurd h (by simp [oneRequest])
  | some r =>
    refine ⟨r, rfl, ?_⟩
    simp only [oneRequest] at h
    split at h
    · exact absurd h (by simp)
    · split at h
      · exact absurd h (by simp)
      · split at h
        · split at h
          · obtain ⟨rfl, rfl⟩ := Outcome.ok.inj h
            exact ⟨rfl, fun x hx => absurd hx (by simp)⟩
          · exact absurd h (by simp)
        · obtain ⟨he2e, httft⟩ := drainChunks_ok h
          exact ⟨he2e, fun x hx => (httft x hx).resolve_left (by simp)⟩

/-! ## The invariant -/

/-- The call went out in its slot or after it. -/
structure Call.OnTime (due : ℕ → Duration) (now : Duration) (call : Call) : Prop where
  measureFrom : call.measureFrom = due call.i
  due_le : due call.i ≤ call.sent
  sent_le : call.sent ≤ now

/-- What is recorded is the time since the slot. -/
structure Ended.Measured (due : ℕ → Duration) (e : Ended) : Prop where
  sent_le : e.call.sent ≤ e.time
  e2e : ∀ ttft e2e, e.outcome = .ok ttft e2e → due e.call.i + e2e = e.time
  ttft : ∀ ttft e2e, e.outcome = .ok ttft e2e → ∀ x ∈ ttft,
    e.call.sent ≤ due e.call.i + x ∧ due e.call.i + x ≤ e.time

structure Scheduled (args : Args) (due : ℕ → Duration) (s : Timed H) : Prop where
  ledger : Ledger args s.phase
  issued : s.calls.map Call.i = s.phase.issued
  current : ∀ w, ∀ call ∈ s.current w, call ∈ s.calls
  calls : ∀ call ∈ s.calls, call.OnTime due s.now
  ended : ∀ e ∈ s.ended, e.call ∈ s.calls ∧ e.Measured due
  outcomes : (s.ended.map Ended.outcome).Perm (s.phase.workers.flatMap Worker.outcomes)

theorem Call.OnTime.mono {now later : Duration} {call : Call} (h : call.OnTime due now)
    (hle : now ≤ later) : call.OnTime due later :=
  ⟨h.measureFrom, h.due_le, h.sent_le.trans hle⟩

/-- What a call that was on time has come to is measured from its slot. -/
theorem Call.OnTime.measured {now : Duration} {call : Call} {resp : Option Response}
    (h : call.OnTime due now) (hread : ∀ r ∈ resp, r.ReadAt call now) :
    Ended.Measured due ⟨call, now, oneRequest stream resp⟩ where
  sent_le := h.sent_le
  e2e := by
    intro ttft e2e hok
    obtain ⟨r, rfl, rfl, -⟩ := oneRequest_ok hok
    rw [← h.measureFrom]
    exact (hread r rfl).1
  ttft := by
    intro ttft e2e hok x hx
    obtain ⟨r, rfl, -, httft⟩ := oneRequest_ok hok
    obtain ⟨chunk, hchunk, rfl⟩ := httft x hx
    rw [← h.measureFrom]
    exact (hread r rfl).2 chunk hchunk

/-- One more outcome of one worker is one more outcome. -/
theorem outcomes_set {workers : List (Worker H)} {w : ℕ} {b c : Worker H} {outcome : Outcome}
    (hw : workers[w]? = some b) (hc : c.outcomes = b.outcomes ++ [outcome]) :
    ((workers.set w c).flatMap Worker.outcomes).Perm
      (workers.flatMap Worker.outcomes ++ [outcome]) := by
  refine List.perm_iff_count.mpr fun o => ?_
  have hset := tally_set (fun t : Worker H => t.outcomes.count o) hw c
  rw [hc] at hset
  simp only [List.count_append, List.count_flatMap, ← tally.eq_1] at hset ⊢
  show tally (fun t : Worker H => t.outcomes.count o) (workers.set w c)
    = tally (fun t : Worker H => t.outcomes.count o) workers + [outcome].count o
  omega

theorem Scheduled.step {s s' : Timed H} (h : Scheduled args due s)
    (hmax : args.total + args.concurrency ≤ 2 ^ args.usizeBits - 1)
    (hs : TimedStepped crate args stream due s s') : Scheduled args due s' := by
  cases hs with
  | passed d =>
    exact { h with calls := fun call hcall => (h.calls call hcall).mono (Nat.le_add_right _ _) }
  | called w i outs stats hw hdue =>
    have hnew : Call.OnTime due s.now ⟨i, due i, s.now⟩ := ⟨rfl, hdue, le_rfl⟩
    exact {
      ledger := by
        have hstep : Stepped crate args s.phase _ := .issued w i outs stats hw
        exact h.ledger.of_stepped hmax hstep
      issued := by rw [List.map_append, h.issued]; rfl
      current := by
        intro v call hcall
        rw [List.mem_append, List.mem_singleton]
        dsimp only at hcall
        by_cases hv : v = w
        · rw [hv, Function.update_self] at hcall
          exact Or.inr (Option.some.inj hcall).symm
        · rw [Function.update_of_ne hv] at hcall
          exact Or.inl (h.current v call hcall)
      calls := List.forall_mem_append.mpr ⟨h.calls, List.forall_mem_singleton.mpr hnew⟩
      ended := fun e he => ⟨List.mem_append_left _ (h.ended e he).1, (h.ended e he).2⟩
      outcomes := by
        have hsame : (s.phase.workers.set w ⟨.requesting i stats, false, outs⟩).map Worker.outcomes
            = s.phase.workers.map Worker.outcomes := map_set_eq hw rfl
        rw [List.flatMap_def, hsame, ← List.flatMap_def]
        exact h.outcomes }
  | answered w i outs stats call resp hw hcall hread =>
    have hmem := h.current w call hcall
    exact {
      ledger := by
        have hstep : Stepped crate args s.phase _ :=
          .responded w i outs stats (oneRequest stream resp) hw
        exact h.ledger.of_stepped hmax hstep
      issued := h.issued
      current := h.current
      calls := h.calls
      ended := List.forall_mem_append.mpr ⟨h.ended,
        List.forall_mem_singleton.mpr ⟨hmem, (h.calls call hmem).measured hread⟩⟩
      outcomes := by
        rw [List.map_append]
        exact (h.outcomes.append_right _).trans (outcomes_set hw rfl).symm }
  | other phase hstep hissued houts =>
    exact { h with
      ledger := h.ledger.of_stepped hmax hstep
      issued := h.issued.trans hissued.symm
      outcomes := by
        rw [List.flatMap_def, houts, ← List.flatMap_def]
        exact h.outcomes }

end Loadgen
end OxideGate
