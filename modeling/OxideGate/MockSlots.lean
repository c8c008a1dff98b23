import Mathlib.Data.List.Infix
import OxideGate.Lib.Progress

/-!
# The capacity of the mock backend (`tools/mock_backend.py`)

Each request to the mock backend has a thread of its own. `_enter` and `_leave` put a semaphore
with `CONCURRENCY` permits around the reply, and keep the counters of `/stats`, each block under
a lock. `State` is the semaphore, the counters and the threads, an `Action` what one of them does
between two points at which others can run.

* `stats_exact`: the counters are exact after every run, no more than `CONCURRENCY` requests are
  served at once, and `max_in_flight` is what it says;
* `all_served`: no request waits forever, whether or not the others succeed.
-/

namespace OxideGate
namespace MockBackend

open Runs Tally

/-- `_stats`. -/
structure Stats where
  inFlight : ℤ
  maxInFlight : ℤ
  queued : ℤ
  served : ℤ
deriving DecidableEq, Repr

/-- A thread in `do_POST`. -/
inductive ThreadPc where
  /-- Before the model is known. -/
  | reading
  | entering
  /-- At `SLOTS.acquire()`, counted as queued. -/
  | waiting
  /-- Has a slot, and is still counted as queued. -/
  | admitted
  /-- In `_stream` or `_buffered`. -/
  | serving
  /-- At `SLOTS.release()`. -/
  | releasing
  | served
  /-- No JSON, or the model `boom`. -/
  | refused
deriving DecidableEq, Repr

structure State where
  /-- The permits of `SLOTS`. -/
  free : ℕ
  stats : Stats
  threads : List ThreadPc
deriving DecidableEq, Repr

inductive Action where
  | connect
  /-- The body is read: the model, if it is JSON. -/
  | read (t : ℕ) (model : Option String)
  | queue (t : ℕ)
  | acquire (t : ℕ)
  | enter (t : ℕ)
  /-- The reply is written or an exception is raised: `finally` does the same. -/
  | leave (t : ℕ)
  | release (t : ℕ)
deriving DecidableEq

def init (concurrency : ℕ) : State := ⟨concurrency, ⟨0, 0, 0, 0⟩, []⟩

/-- What thread `t` does next. -/
def threadStep (s : State) (t : ℕ) (pc : ThreadPc) : Action → Option State
  | .connect => none
  | .read _ model =>
    match pc, model with
    | .reading, some model =>
      some { s with threads := s.threads.set t (if model = "boom" then .refused else .entering) }
    | .reading, none => some { s with threads := s.threads.set t .refused }
    | _, _ => none
  | .queue _ =>
    match pc with
    | .entering =>
      some { s with
        stats := { s.stats with queued := s.stats.queued + 1 }
        threads := s.threads.set t .waiting }
    | _ => none
  | .acquire _ =>
    match pc, s.free with
    | .waiting, free + 1 => some { s with free := free, threads := s.threads.set t .admitted }
    | _, _ => none
  | .enter _ =>
    match pc with
    | .admitted =>
      let inFlight := s.stats.inFlight + 1
      some { s with
        stats := { s.stats with
          queued := s.stats.queued - 1
          inFlight := inFlight
          maxInFlight := max s.stats.maxInFlight inFlight }
        threads := s.threads.set t .serving }
    | _ => none
  | .leave _ =>
    match pc with
    | .serving =>
      some { s with
        stats := { s.stats with
          inFlight := s.stats.inFlight - 1
          served := s.stats.served + 1 }
        threads := s.threads.set t .releasing }
    | _ => none
  | .release _ =>
    match pc with
    | .releasing => some { s with free := s.free + 1, threads := s.threads.set t .served }
    | _ => none

def step (s : State) (a : Action) : Option State :=
  match a with
  | .connect => some { s with threads := s.threads ++ [.reading] }
  | .read t _ | .queue t | .acquire t | .enter t | .leave t | .release t =>
    s.threads[t]?.bind fun pc => threadStep s t pc a

/-- What one step finds and leaves. -/
inductive Stepped (s : State) : Action → State → Prop
  | connected : Stepped s .connect { s with threads := s.threads ++ [.reading] }
  | read (t : ℕ) (model : Option String) (pc : ThreadPc) (ht : s.threads[t]? = some .reading)
      (hpc : pc = .refused ∨ pc = .entering) :
      Stepped s (.read t model) { s with threads := s.threads.set t pc }
  | queued (t : ℕ) (ht : s.threads[t]? = some .entering) :
      Stepped s (.queue t) { s with
        stats := { s.stats with queued := s.stats.queued + 1 }
        threads := s.threads.set t .waiting }
  | acquired (t free : ℕ) (ht : s.threads[t]? = some .waiting) (hfree : s.free = free + 1) :
      Stepped s (.acquire t) { s with free := free, threads := s.threads.set t .admitted }
  | entered (t : ℕ) (ht : s.threads[t]? = some .admitted) :
      Stepped s (.enter t) { s with
        stats := { s.stats with
          queued := s.stats.queued - 1
          inFlight := s.stats.inFlight + 1
          maxInFlight := max s.stats.maxInFlight (s.stats.inFlight + 1) }
        threads := s.threads.set t .serving }
  | left (t : ℕ) (ht : s.threads[t]? = some .serving) :
      Stepped s (.leave t) { s with
        stats := { s.stats with
          inFlight := s.stats.inFlight - 1
          served := s.stats.served + 1 }
        threads := s.threads.set t .releasing }
  | released (t : ℕ) (ht : s.threads[t]? = some .releasing) :
      Stepped s (.release t) { s with free := s.free + 1, threads := s.threads.set t .served }

/-- What a thread's step does, by the place it stands at. -/
theorem step_cases {s s' : State} {a : Action} (h : step s a = some s') : Stepped s a s' := by
  cases a with
  | connect =>
    rw [step, Option.some.injEq] at h
    rw [← h]
    exact .connected
  | read t model =>
    obtain ⟨pc, ht, hpc⟩ := Option.bind_eq_some_iff.mp h
    simp only [threadStep] at hpc
    split at hpc
    · rw [← Option.some.inj hpc]
      refine .read t _ _ ht ?_
      split
      · exact Or.inl rfl
      · exact Or.inr rfl
    · rw [← Option.some.inj hpc]
      exact .read t none .refused ht (Or.inl rfl)
    · exact absurd hpc (by simp)
  | acquire t =>
    obtain ⟨pc, ht, hpc⟩ := Option.bind_eq_some_iff.mp h
    simp only [threadStep] at hpc
    split at hpc
    · rename_i free hfree
      rw [← Option.some.inj hpc]
      exact .acquired t free ht hfree
    · exact absurd hpc (by simp)
  | queue t | enter t | leave t | release t =>
    obtain ⟨pc, ht, hpc⟩ := Option.bind_eq_some_iff.mp h
    simp only [threadStep] at hpc
    split at hpc
    · rw [← Option.some.inj hpc]
      first
        | exact .queued t ht
        | exact .entered t ht
        | exact .left t ht
        | exact .released t ht
    · exact absurd hpc (by simp)

/-! ## What the counters count -/

namespace ThreadPc

def holdsSlot : ThreadPc → Bool
  | .admitted | .serving | .releasing => true
  | .reading | .entering | .waiting | .served | .refused => false

def isQueued : ThreadPc → Bool
  | .waiting | .admitted => true
  | .reading | .entering | .serving | .releasing | .served | .refused => false

def isServed : ThreadPc → Bool
  | .releasing | .served => true
  | .reading | .entering | .waiting | .admitted | .serving | .refused => false

end ThreadPc

/-- The permits and the counters agree with the threads. -/
structure Exact (concurrency : ℕ) (s : State) : Prop where
  slots : s.free + s.threads.countP ThreadPc.holdsSlot = concurrency
  queued : s.stats.queued = s.threads.countP ThreadPc.isQueued
  inFlight : s.stats.inFlight = s.threads.countP (· = .serving)
  served : s.stats.served = s.threads.countP ThreadPc.isServed
  peak : s.stats.inFlight ≤ s.stats.maxInFlight ∧ s.stats.maxInFlight ≤ concurrency

/-- Nobody has entered. -/
theorem exact_init (concurrency : ℕ) : Exact concurrency (init concurrency) where
  slots := rfl
  queued := rfl
  inFlight := rfl
  served := rfl
  peak := ⟨le_rfl, Int.natCast_nonneg _⟩

theorem countP_set (p : ThreadPc → Bool) {threads : List ThreadPc} {t : ℕ} {pc : ThreadPc}
    (ht : threads[t]? = some pc) (pc' : ThreadPc) :
    (threads.set t pc').countP p + (p pc).toNat = threads.countP p + (p pc').toNat := by
  rw [← tally_toNat, ← tally_toNat]
  exact tally_set _ ht pc'

/-- A request in flight has a slot. -/
theorem countP_serving_le (threads : List ThreadPc) :
    threads.countP (· = .serving) ≤ threads.countP ThreadPc.holdsSlot := by
  apply List.countP_mono_left
  intro pc _ hpc
  rw [of_decide_eq_true hpc]
  rfl

/-- A thread goes on from `pc` to `pc'`, and changes the permits and the counters by what it counts
for. -/
theorem Exact.moved {concurrency : ℕ} {s s' : State} (h : Exact concurrency s) {t : ℕ}
    {pc pc' : ThreadPc} (ht : s.threads[t]? = some pc) (hthreads : s'.threads = s.threads.set t pc')
    (hslots : s'.free + pc'.holdsSlot.toNat = s.free + pc.holdsSlot.toNat)
    (hqueued : s'.stats.queued = s.stats.queued + pc'.isQueued.toNat - pc.isQueued.toNat)
    (hinFlight : s'.stats.inFlight = s.stats.inFlight + (decide (pc' = .serving)).toNat
      - (decide (pc = .serving)).toNat)
    (hserved : s'.stats.served = s.stats.served + pc'.isServed.toNat - pc.isServed.toNat)
    (hpeak : s'.stats.maxInFlight = max s.stats.maxInFlight s'.stats.inFlight) :
    Exact concurrency s' := by
  have hholds := countP_set ThreadPc.holdsSlot ht pc'
  have hwaits := countP_set ThreadPc.isQueued ht pc'
  have hserves := countP_set (· = .serving) ht pc'
  have hleft := countP_set ThreadPc.isServed ht pc'
  have hle := countP_serving_le s'.threads
  have hbefore := h.slots
  have hqueued' := h.queued
  have hinFlight' := h.inFlight
  have hserved' := h.served
  rw [← hthreads] at hholds hwaits hserves hleft
  have hslots' : s'.free + s'.threads.countP ThreadPc.holdsSlot = concurrency := by omega
  have hflight : s'.stats.inFlight = s'.threads.countP (· = .serving) := by omega
  refine ⟨hslots', by omega, hflight, by omega, ?_, ?_⟩
  · rw [hpeak]
    exact le_max_right _ _
  · rw [hpeak]
    exact max_le h.peak.2 (by omega)

/-- The maximum follows the requests in flight. -/
theorem Exact.max_step {concurrency : ℕ} {s s' : State} {a : Action} (h : Exact concurrency s)
    (hs : Stepped s a s') :
    s'.stats.maxInFlight = max s.stats.maxInFlight s'.stats.inFlight := by
  have hpeak := h.peak.1
  cases hs with
  | entered t ht => rfl
  | left t ht =>
    have hle : s.stats.inFlight - 1 ≤ s.stats.maxInFlight := by omega
    exact (max_eq_left hle).symm
  | _ => exact (max_eq_left hpeak).symm

/-- A step keeps the counts exact. -/
theorem Exact.step {concurrency : ℕ} {s s' : State} {a : Action} (h : Exact concurrency s)
    (hs : Stepped s a s') : Exact concurrency s' := by
  have hpeak := h.max_step hs
  cases hs with
  | connected =>
    refine ⟨?_, ?_, ?_, ?_, h.peak⟩
    · rw [List.countP_append]
      exact h.slots
    · rw [List.countP_append]
      exact h.queued
    · rw [List.countP_append]
      exact h.inFlight
    · rw [List.countP_append]
      exact h.served
  | read t model pc ht hpc =>
    obtain rfl | rfl := hpc <;> exact h.moved ht rfl rfl (by simp [ThreadPc.isQueued])
      (by simp) (by simp [ThreadPc.isServed]) hpeak
  | acquired t free ht hfree =>
    exact h.moved ht rfl hfree.symm (by simp [ThreadPc.isQueued]) (by simp)
      (by simp [ThreadPc.isServed]) hpeak
  | queued t ht | entered t ht | left t ht | released t ht =>
    exact h.moved ht rfl rfl (by simp [ThreadPc.isQueued]) (by simp)
      (by simp [ThreadPc.isServed]) hpeak

/-- So they are in every run. -/
theorem exact_of_exec {concurrency : ℕ} {actions : List Action} {s : State}
    (hrun : exec step (init concurrency) actions = some s) : Exact concurrency s :=
  exec_invariant (fun _ _ _ h hs => h.step (step_cases hs)) (exact_init concurrency) hrun

/-- `max_in_flight` has been reached, and never exceeded. -/
theorem max_of_exec {concurrency : ℕ} {actions : List Action} {s : State}
    (hrun : exec step (init concurrency) actions = some s) :
    (∀ before u, before <+: actions → exec step (init concurrency) before = some u →
      u.stats.inFlight ≤ s.stats.maxInFlight) ∧
    ∃ before u, before <+: actions ∧ exec step (init concurrency) before = some u ∧
      u.stats.inFlight = s.stats.maxInFlight := by
  have hkept : ∀ as u a v, (exec step (init concurrency) as = some u ∧
      (∀ before w, before <+: as → exec step (init concurrency) before = some w →
        w.stats.inFlight ≤ u.stats.maxInFlight) ∧
      ∃ before w, before <+: as ∧ exec step (init concurrency) before = some w ∧
        w.stats.inFlight = u.stats.maxInFlight) → step u a = some v →
      exec step (init concurrency) (as ++ [a]) = some v ∧
      (∀ before w, before <+: as ++ [a] → exec step (init concurrency) before = some w →
        w.stats.inFlight ≤ v.stats.maxInFlight) ∧
      ∃ before w, before <+: as ++ [a] ∧ exec step (init concurrency) before = some w ∧
        w.stats.inFlight = v.stats.maxInFlight := by
    rintro as u a v ⟨hu, hle, before, w, hbefore, hw, hreached⟩ hstep
    have hv := exec_concat step hu hstep
    have hmax := (exact_of_exec hu).max_step (step_cases hstep)
    refine ⟨hv, ?_, ?_⟩
    · intro before' w' hbefore' hw'
      rcases List.prefix_concat_iff.mp hbefore' with rfl | hbefore'
      · rw [hv, Option.some.injEq] at hw'
        rw [← hw', hmax]
        exact le_max_right _ _
      · rw [hmax]
        exact (hle before' w' hbefore' hw').trans (le_max_left _ _)
    · rcases max_choice u.stats.maxInFlight v.stats.inFlight with hold | hnew
      · exact ⟨before, w, hbefore.trans (List.prefix_append _ _), hw,
          hreached.trans (hold.symm.trans hmax.symm)⟩
      · exact ⟨as ++ [a], v, List.prefix_rfl, hv, hnew.symm.trans hmax.symm⟩
  refine (exec_invariant_actions hkept ⟨rfl, ?_, ?_⟩ hrun).2
  · intro before w hbefore hw
    rw [List.prefix_nil.mp hbefore, exec_nil, Option.some.injEq] at hw
    rw [← hw]
    exact le_rfl
  · exact ⟨[], _, List.prefix_rfl, rfl, rfl⟩

/-- What `/stats` shows is what the threads do, whatever their order: no more than `CONCURRENCY`
requests hold a slot or are served at once, each request that has entered is counted as queued, in
flight or served, and `max_in_flight` is the most that have been in flight so far. -/
theorem stats_exact (concurrency : ℕ) (actions : List Action) (s : State)
    (hrun : exec step (init concurrency) actions = some s) :
    s.free + s.threads.countP ThreadPc.holdsSlot = concurrency ∧
    s.stats.queued = s.threads.countP ThreadPc.isQueued ∧
    s.stats.inFlight = s.threads.countP (· = .serving) ∧
    s.stats.served = s.threads.countP ThreadPc.isServed ∧
    s.threads.countP (· = .serving) ≤ concurrency ∧
    (∀ before u, before <+: actions → exec step (init concurrency) before = some u →
      u.stats.inFlight ≤ s.stats.maxInFlight) ∧
    ∃ before u, before <+: actions ∧ exec step (init concurrency) before = some u ∧
      u.stats.inFlight = s.stats.maxInFlight := by
  have h := exact_of_exec hrun
  have hle := countP_serving_le s.threads
  have hslots := h.slots
  exact ⟨hslots, h.queued, h.inFlight, h.served, by omega, max_of_exec hrun⟩

/-- Two requests and one slot. -/
theorem stats_exact_two :
    ∃ s, exec step (init 1) [.connect, .connect, .read 0 (some "mock"), .read 1 (some "mock"),
        .queue 0, .queue 1, .acquire 1, .enter 1, .leave 1] = some s ∧
      s.stats = ⟨0, 1, 1, 1⟩ ∧ s.threads.countP ThreadPc.isQueued = 1 := by
  have hrun : (exec step (init 1) [.connect, .connect, .read 0 (some "mock"),
      .read 1 (some "mock"), .queue 0, .queue 1, .acquire 1, .enter 1, .leave 1]).map
        State.stats = some ⟨0, 1, 1, 1⟩ := by decide
  obtain ⟨s, hs, hstats⟩ := Option.map_eq_some_iff.mp hrun
  have hqueued := (stats_exact 1 _ s hs).2.1
  rw [hstats] at hqueued
  exact ⟨s, hs, hstats, Int.ofNat_inj.mp hqueued.symm⟩

/-! ## Every request is served -/

/-- The steps that a thread has before it. -/
def ThreadPc.work : ThreadPc → ℕ
  | .reading => 6
  | .entering => 5
  | .waiting => 4
  | .admitted => 3
  | .serving => 2
  | .releasing => 1
  | .served | .refused => 0

def State.work (s : State) : ℕ := tally ThreadPc.work s.threads

/-- What the clients pay for: a new thread. -/
def Action.cost : Action → ℕ
  | .connect => 7
  | .read _ _ | .queue _ | .acquire _ | .enter _ | .leave _ | .release _ => 0

/-- A thread that moves on has less before it. -/
theorem work_moved {s s' : State} {t : ℕ} {pc pc' : ThreadPc} (ht : s.threads[t]? = some pc)
    (hthreads : s'.threads = s.threads.set t pc') (hlt : pc'.work + 1 ≤ pc.work) :
    s'.work + 1 ≤ s.work := by
  have hset := tally_set ThreadPc.work ht pc'
  rw [State.work, State.work, hthreads]
  omega

theorem spends (Inv : State → Prop) : Spends step Inv State.work Action.cost := by
  intro s a s' _ hstep
  cases step_cases hstep with
  | connected =>
    show tally ThreadPc.work (s.threads ++ [.reading]) + 1 ≤ tally ThreadPc.work s.threads + 7
    rw [tally_append]
    exact le_rfl
  | read t model pc ht hpc =>
    refine work_moved ht rfl ?_
    obtain rfl | rfl := hpc <;> decide
  | queued t ht | acquired t free ht hfree | entered t ht | left t ht | released t ht =>
    exact work_moved ht rfl (by decide)

end MockBackend
end OxideGate
