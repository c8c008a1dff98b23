import OxideGate.Lib.Progress
import OxideGate.LoadgenPhase

/-!
# A phase comes to an end

A worker is done once it finds no number left, and the main task once it has joined the workers
in order. Numbers run out, since a claim uses one up and the counter does not start again; so a
phase takes a bounded number of steps (`spends`). Until the main task has returned somebody has a
step to take (`stuck_returned`): a worker that it waits for has one of its own. With no panic,
and a crate whose operations succeed, what it returns is `Ok`.
-/

namespace OxideGate
namespace Loadgen

open Runs Tally

variable {H : Type} {crate : HistogramCrate H} {args : Args} {s s' : State H} {w : ℕ}
  {b c : Worker H}

/-! ## The work that is left -/

/-- What a worker does before it is back at the top of its loop with the next number, or done. -/
def WorkerPc.work : WorkerPc H → ℕ
  | .claimed _ _ => 3
  | .starting | .requesting _ _ => 2
  | .claiming _ => 1
  | .finished _ => 0

/-- A task that has failed does nothing more. -/
def Worker.work (t : Worker H) : ℕ := if t.failed then 0 else t.pc.work

/-- One step for each worker that is still to be joined, and one to return. -/
def MainPc.work (concurrency : ℕ) : MainPc H → ℕ
  | .spawned => concurrency + 2
  | .joining k _ => concurrency - k + 1
  | .returned _ => 0

/-- Each number that is left takes a claim, a request and its outcome. -/
def State.work (args : Args) (s : State H) : ℕ :=
  3 * (args.total - s.next) + tally Worker.work s.workers + s.main.work args.concurrency

/-- The work of a phase at its start. -/
theorem work_init (args : Args) :
    (init args : State H).work args = 3 * args.total + 3 * args.concurrency + 2 := by
  have hworkers : tally Worker.work (List.replicate args.concurrency
      (⟨.starting, false, []⟩ : Worker H)) = 2 * args.concurrency := by
    rw [tally, List.map_replicate, List.sum_replicate]
    exact Nat.mul_comm _ _
  show 3 * args.total + tally Worker.work (List.replicate args.concurrency _)
    + (args.concurrency + 2) = _
  rw [hworkers]
  omega

/-- One worker goes on, and may use up a number. -/
theorem spends_worker (hw : s.workers[w]? = some b) (hworkers : s'.workers = s.workers.set w c)
    (hmain : s'.main = s.main)
    (hlt : 3 * (args.total - s'.next) + c.work + 1 ≤ 3 * (args.total - s.next) + b.work) :
    s'.work args + 1 ≤ s.work args := by
  have hset := tally_set Worker.work hw c
  unfold State.work
  rw [hworkers, hmain]
  omega

/-- The main task goes on. -/
theorem spends_main (hworkers : s'.workers = s.workers) (hnext : s'.next = s.next)
    (hlt : s'.main.work args.concurrency + 1 ≤ s.main.work args.concurrency) :
    s'.work args + 1 ≤ s.work args := by
  unfold State.work
  rw [hworkers, hnext]
  omega

/-- Every step takes one unit of the work. -/
theorem spends_step (hmax : args.total + args.concurrency ≤ 2 ^ args.usizeBits - 1)
    (h : Ledger args s) (hstep : Stepped crate args s s') : s'.work args + 1 ≤ s.work args := by
  cases hstep with
  | started w outs stats hw hnew | issued w i outs stats hw | responded w i outs stats outcome hw =>
    exact spends_worker hw rfl rfl le_rfl
  | crashed w pc outs hw hpc =>
    refine spends_worker hw rfl rfl ?_
    show 3 * (args.total - s.next) + 0 + 1 ≤ 3 * (args.total - s.next) + pc.work
    cases pc with
    | finished stats => exact absurd rfl (hpc stats)
    | starting | claiming stats | claimed i stats | requesting i stats =>
      simp only [WorkerPc.work]
      omega
  | finished w outs stats hw hnext =>
    refine spends_worker hw rfl rfl ?_
    show 3 * (args.total - fetchAdd args s.next) + 0 + 1 ≤ 3 * (args.total - s.next) + 1
    rw [h.fetchAdd_eq hmax hw rfl]
    omega
  | claimed w outs stats hw hnext =>
    refine spends_worker hw rfl rfl ?_
    show 3 * (args.total - fetchAdd args s.next) + 3 + 1 ≤ 3 * (args.total - s.next) + 1
    rw [h.fetchAdd_eq hmax hw rfl]
    omega
  | collected stats hmain hnew =>
    refine spends_main rfl rfl ?_
    simp only [hmain, MainPc.work]
    omega
  | joined k merged outs stats sum hmain hk hsum =>
    have hlt : k < args.concurrency := by
      rw [← h.workers]
      exact (List.getElem?_eq_some_iff.mp hk).1
    refine spends_main rfl rfl ?_
    simp only [hmain, MainPc.work]
    omega
  | returnedOk k merged hmain hk =>
    refine spends_main rfl rfl ?_
    simp only [hmain, MainPc.work]
    omega
  | returnedErr hmain =>
    refine spends_main rfl rfl ?_
    cases hm : s.main with
    | spawned | joining k merged =>
      simp only [MainPc.work]
      omega
    | returned result => exact absurd hm (hmain result)

theorem spends (crate : HistogramCrate H)
    (hmax : args.total + args.concurrency ≤ 2 ^ args.usizeBits - 1) :
    Spends (step crate args) (Ledger args) (State.work args) fun _ => 0 :=
  fun _ _ _ h hs => spends_step hmax h (step_cases hs)

/-! ## Nobody is stuck -/

/-- A worker panics. -/
def Action.crashes : Action → Bool
  | .crash _ => true
  | _ => false

/-- Until the main task has returned, it has a step to take, or the worker that it waits for. -/
theorem stuck_returned (crate : HistogramCrate H)
    (hstuck : Rests (step crate args) (fun a => a.crashes = false) s) :
    ∃ result, s.main = .returned result := by
  cases hmain : s.main with
  | spawned =>
    have hnone := hstuck .collect rfl
    cases hnew : Stats.new crate <;> simp [step, mainStep, hmain, hnew] at hnone
  | joining k merged =>
    have hjoin := hstuck .join rfl
    cases hk : s.workers[k]? with
    | none => simp [step, mainStep, hmain, hk] at hjoin
    | some t =>
      cases hfailed : t.failed with
      | true => simp [step, mainStep, hmain, hk, hfailed] at hjoin
      | false =>
        cases hpc : t.pc with
        | starting =>
          have hnone := hstuck (.start k) rfl
          cases hnew : Stats.new crate <;> simp [step, hk, hfailed, workerStep, hpc, hnew] at hnone
        | claiming stats =>
          have hnone := hstuck (.claim k) rfl
          by_cases hnext : args.total ≤ s.next <;>
            simp [step, hk, hfailed, workerStep, hpc, hnext] at hnone
        | claimed i stats =>
          have hnone := hstuck (.issue k) rfl
          simp [step, hk, hfailed, workerStep, hpc] at hnone
        | requesting i stats =>
          have hnone := hstuck (.respond k .rejected) rfl
          simp [step, hk, hfailed, workerStep, hpc] at hnone
        | finished stats =>
          cases hsum : merged.merge crate stats <;>
            simp [step, mainStep, hmain, hk, hfailed, hpc, hsum] at hjoin
  | returned result => exact ⟨result, rfl⟩

/-! ## Nothing fails -/

/-- The operations of the crate that can fail do not. -/
structure HistogramCrate.Succeeds (crate : HistogramCrate H) : Prop where
  new : ∃ h, crate.newWithBounds = .ok h
  add : ∀ h h', ∃ sum, crate.add h h' = .ok sum

theorem HistogramCrate.Succeeds.stats (h : crate.Succeeds) :
    ∃ stats, Stats.new crate = .ok stats := by
  obtain ⟨hist, hnew⟩ := h.new
  unfold Stats.new
  rw [hnew]
  exact ⟨_, rfl⟩

theorem HistogramCrate.Succeeds.merge (h : crate.Succeeds) (stats stats' : Stats H) :
    ∃ sum, stats.merge crate stats' = .ok sum := by
  obtain ⟨ttft, httft⟩ := h.add stats.ttft stats'.ttft
  obtain ⟨e2e, he2e⟩ := h.add stats.e2e stats'.e2e
  unfold Stats.merge
  rw [httft]
  simp only [bind, Except.bind, he2e]
  exact ⟨_, rfl⟩

/-- No task has failed. -/
structure Sound (s : State H) : Prop where
  workers : ∀ t ∈ s.workers, t.failed = false
  main : s.main ≠ .returned none

/-- A worker that does not panic goes on, and touches nobody else. -/
theorem workerStep_sound (hcrate : crate.Succeeds) {t : Worker H} {a : Action}
    (ha : a.crashes = false) (hs : workerStep crate args s w t a = some s') :
    ∃ c : Worker H, s'.workers = s.workers.set w c ∧ s'.main = s.main ∧ c.failed = t.failed := by
  obtain ⟨stats, hnew⟩ := hcrate.stats
  cases a with
  | start v =>
    simp only [workerStep, hnew] at hs
    split at hs
    · rename_i hok
      rw [← Option.some.inj hs]
      exact ⟨_, rfl, rfl, rfl⟩
    · rename_i herr
      exact absurd herr (by simp)
    · exact absurd hs (by simp)
  | claim v =>
    simp only [workerStep] at hs
    split at hs
    · split at hs <;> rw [← Option.some.inj hs] <;> exact ⟨_, rfl, rfl, rfl⟩
    · exact absurd hs (by simp)
  | issue v | respond v outcome =>
    simp only [workerStep] at hs
    split at hs
    · rw [← Option.some.inj hs]
      exact ⟨_, rfl, rfl, rfl⟩
    · exact absurd hs (by simp)
  | crash v => exact absurd ha (by simp [Action.crashes])
  | collect | join => exact absurd hs (by simp [workerStep])

/-- A step without a panic leaves no failed worker. -/
theorem Sound.step (hcrate : crate.Succeeds) (h : Sound s) {a : Action} (ha : a.crashes = false)
    (hs : step crate args s a = some s') : Sound s' := by
  have hworker : ∀ w, ((s.workers[w]?.bind fun t =>
      if t.failed then none else workerStep crate args s w t a) = some s') → Sound s' := by
    intro w hs
    obtain ⟨t, hw, hs⟩ := Option.bind_eq_some_iff.mp hs
    have hfailed := h.workers t (List.mem_of_getElem? hw)
    rw [hfailed, if_neg Bool.false_ne_true] at hs
    obtain ⟨c, hworkers, hmain, hc⟩ := workerStep_sound hcrate ha hs
    refine ⟨fun t' ht' => ?_, by rw [hmain]; exact h.main⟩
    rw [hworkers] at ht'
    rcases List.mem_or_eq_of_mem_set ht' with hold | rfl
    · exact h.workers t' hold
    · rw [hc, hfailed]
  cases a with
  | start w | claim w | issue w | respond w outcome | crash w => exact hworker w hs
  | collect =>
    obtain ⟨stats, hnew⟩ := hcrate.stats
    cases hm : s.main with
    | spawned =>
      simp only [Loadgen.step, mainStep, hm, hnew, Option.some.injEq] at hs
      rw [← hs]
      exact ⟨h.workers, by simp⟩
    | joining k merged | returned result => simp [Loadgen.step, mainStep, hm] at hs
  | join =>
    cases hm : s.main with
    | joining k merged =>
      simp only [Loadgen.step, mainStep, hm] at hs
      split at hs
      · rw [← Option.some.inj hs]
        exact ⟨h.workers, by simp⟩
      · rename_i t hk
        rw [h.workers t (List.mem_of_getElem? hk), if_neg Bool.false_ne_true] at hs
        split at hs
        · rename_i stats hpc
          obtain ⟨sum, hsum⟩ := hcrate.merge merged stats
          rw [hsum, Option.some.injEq] at hs
          rw [← hs]
          exact ⟨h.workers, by simp⟩
        · exact absurd hs (by simp)
    | spawned | returned result => simp [Loadgen.step, mainStep, hm] at hs

/-- So there is none in a run without panics. -/
theorem sound_of_exec (hcrate : crate.Succeeds) {as : List Action}
    (hcrashes : ∀ a ∈ as, a.crashes = false)
    (hrun : exec (step crate args) (init args) as = some s) :
    Sound s := by
  have hinit : Sound (init args : State H) := by
    refine ⟨fun t ht => ?_, by simp [init]⟩
    rw [List.eq_of_mem_replicate ht]
  refine exec_invariant_along (P := fun _ a => a.crashes = false)
    (fun s a t h ha hs => h.step hcrate ha hs) hinit ?_ hrun
  rw [along_iff]
  intro before a after t he _
  exact hcrashes a (he ▸ List.mem_append_right _ List.mem_cons_self)

/-- A phase in which nobody panics takes at most three steps for each request, and three for each
worker and two more; and as long as the main task has not returned there is a step to take, so it
does return: with an `Ok` that counts each of the requests once. -/
theorem phase_returns (hcrate : crate.Counting) (hsucceeds : crate.Succeeds)
    (hworkers : 1 ≤ args.concurrency)
    (hmax : args.total + args.concurrency ≤ 2 ^ args.usizeBits - 1) {as : List Action}
    (hcrashes : ∀ a ∈ as, a.crashes = false)
    (hrun : exec (step crate args) (init args) as = some s) :
    as.length ≤ 3 * args.total + 3 * args.concurrency + 2 ∧
      ((∃ a, a.crashes = false ∧ (step crate args s a).isSome) ∨
        ∃ merged, s.main = .returned (some merged) ∧ s.issued.Perm (List.range args.total) ∧
          merged.ok.toNat + merged.failed.toNat = args.total) := by
  have h := Counted.of_exec hcrate hmax hrun
  have hlen := length_le_potential
    (fun s a t (h : Ledger args s) (hs : step crate args s a = some t) =>
      h.of_stepped hmax (step_cases hs))
    (spends crate hmax) (Ledger.init args) (fun _ _ => rfl) hrun
  rw [work_init] at hlen
  refine ⟨by omega, ?_⟩
  by_cases hstuck : Rests (step crate args) (fun a => a.crashes = false) s
  · right
    obtain ⟨result, hmain⟩ := stuck_returned crate hstuck
    have hsound := sound_of_exec hsucceeds hcrashes hrun
    cases result with
    | none => exact absurd hmain hsound.main
    | some merged =>
      have hmerged := h.collected
      rw [State.Collected, hmain] at hmerged
      obtain ⟨htotal, houts, hdue⟩ := h.of_merged hworkers hmerged
      refine ⟨merged, hmain, List.perm_iff_count.mpr fun i => ?_, ?_⟩
      · have hissued := h.ledger.issued i
        rw [hdue i, htotal] at hissued
        exact hissued
      · have hpow : 2 ^ args.usizeBits ≤ 2 ^ 64 :=
          Nat.pow_le_pow_right (by decide) args.usizeBits_le
        have hpos := Nat.two_pow_pos args.usizeBits
        rw [hmerged.tallies.failed (by omega), houts, htotal]
  · left
    unfold Rests at hstuck
    push Not at hstuck
    obtain ⟨a, ha, hne⟩ := hstuck
    exact ⟨a, ha, Option.isSome_iff_ne_none.mpr hne⟩

theorem HistogramCrate.samples_succeeds : HistogramCrate.samples.Succeeds where
  new := ⟨[], rfl⟩
  add := fun h h' => ⟨h ++ h', rfl⟩

/-- Two workers and one request: the slower worker finds no number left. -/
theorem phase_returns_two :
    ∃ s : State (List UInt64), exec (step .samples ⟨2, 1, 64, le_rfl⟩) (init ⟨2, 1, 64, le_rfl⟩)
        [.start 1, .start 0, .claim 1, .claim 0, .collect, .issue 1, .join, .respond 1 .rejected]
        = some s ∧ 8 ≤ 3 * 1 + 3 * 2 + 2 ∧
      ((∃ a, a.crashes = false ∧ (step .samples ⟨2, 1, 64, le_rfl⟩ s a).isSome) ∨
        ∃ merged, s.main = .returned (some merged) ∧ s.issued.Perm (List.range 1) ∧
          merged.ok.toNat + merged.failed.toNat = 1) := by
  have hrun : exec (step .samples ⟨2, 1, 64, le_rfl⟩) (init ⟨2, 1, 64, le_rfl⟩)
      [.start 1, .start 0, .claim 1, .claim 0, .collect, .issue 1, .join, .respond 1 .rejected]
      = some (⟨2, [⟨.finished ⟨[], [], 0, 0, 0, 0, 0⟩, false, []⟩,
          ⟨.claiming ⟨[], [], 0, 1, 0, 0, 0⟩, false, [.rejected]⟩],
        .joining 1 ⟨[], [], 0, 0, 0, 0, 0⟩, [(1, 0)], [0]⟩) := by
    decide +kernel
  exact ⟨_, hrun, phase_returns HistogramCrate.samples_counting HistogramCrate.samples_succeeds
    (by decide) (by decide) (by decide) hrun⟩

end Loadgen
end OxideGate
