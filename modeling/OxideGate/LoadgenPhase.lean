import Mathlib.Algebra.Order.Group.Nat
import Mathlib.Data.List.Nodup
import OxideGate.Lib.Runs
import OxideGate.Lib.Tally
import OxideGate.LoadgenStats
import OxideGate.LoadgenSteps

/-!
# No request of a phase is lost or repeated

The workers of `run_phase` race for the request numbers and count on their own. Whatever the
interleaving, the numbers below the total are claimed in order, each once (`Ledger`), the
`Stats` of a worker are those of its outcomes (`Worker.Counts`), and what the main task has
merged are those of the workers it has joined (`Merged`). A worker that has not finished cannot
be joined, so a phase that returns has counted everything.
-/

namespace OxideGate
namespace Loadgen

open Runs Tally

variable {H : Type} {crate : HistogramCrate H} {args : Args} {s s' : State H} {w : ℕ}
  {b c : Worker H}

/-! ## The request numbers -/

def Worker.isFinished (t : Worker H) : Bool :=
  match t.pc with
  | .finished _ => true
  | _ => false

/-- The requests that a worker has claimed: those that have an outcome, and the one it is at. -/
def Worker.taken (t : Worker H) : ℕ :=
  t.outcomes.length +
    match t.pc with
    | .claimed _ _ | .requesting _ _ => 1
    | _ => 0

/-- One for a worker that has claimed the number `i` and not issued it. -/
def Worker.due (i : ℕ) (t : Worker H) : ℕ :=
  match t.pc with
  | .claimed j _ => if j = i then 1 else 0
  | _ => 0

/-- How many workers have left their loop. -/
def State.finished (s : State H) : ℕ := tally (fun t => t.isFinished.toNat) s.workers

/-- The numbers that were claimed, and where they are now. -/
structure Ledger (args : Args) (s : State H) : Prop where
  workers : s.workers.length = args.concurrency
  numbers : s.claims.map Prod.snd = List.range s.claims.length
  length_le : s.claims.length ≤ args.total
  /-- Each worker that leaves its loop has taken a number as well. -/
  next : s.next = s.claims.length + s.finished
  finished : s.finished ≠ 0 → s.claims.length = args.total
  taken : tally Worker.taken s.workers = s.claims.length
  issued : ∀ i, s.issued.count i + tally (Worker.due i) s.workers
    = (List.range s.claims.length).count i

theorem finished_set (hw : s.workers[w]? = some b) (hs : s'.workers = s.workers.set w c) :
    s'.finished + b.isFinished.toNat = s.finished + c.isFinished.toNat := by
  rw [State.finished, hs]
  exact tally_set (fun t : Worker H => t.isFinished.toNat) hw c

/-- A worker in its loop is not among those that have left it. -/
theorem finished_lt (hw : s.workers[w]? = some b) (hb : b.isFinished = false) :
    s.finished < s.workers.length := by
  rw [State.finished, tally_toNat]
  refine lt_of_le_of_ne List.countP_le_length fun hall => ?_
  have hfin := List.countP_eq_length.mp hall b (List.mem_of_getElem? hw)
  rw [hb] at hfin
  exact absurd hfin (by decide)

namespace Ledger

/-- A step of a worker inside its loop: what it issues was due. -/
theorem set (h : Ledger args s) (hw : s.workers[w]? = some b)
    (hworkers : s'.workers = s.workers.set w c) (hnext : s'.next = s.next)
    (hclaims : s'.claims = s.claims) (hfin : c.isFinished = b.isFinished)
    (htaken : c.taken = b.taken)
    (hissued : ∀ i, s'.issued.count i + c.due i = s.issued.count i + b.due i) :
    Ledger args s' := by
  have hfinished : s'.finished = s.finished := by
    have := finished_set hw hworkers
    rw [hfin] at this
    omega
  have hall : tally Worker.taken s'.workers = tally Worker.taken s.workers := by
    rw [hworkers]
    exact tally_set_eq hw htaken
  have hdue : ∀ i, tally (Worker.due i) s'.workers + b.due i
      = tally (Worker.due i) s.workers + c.due i := by
    intro i
    rw [hworkers]
    exact tally_set (Worker.due i) hw c
  exact {
    workers := by rw [hworkers, List.length_set, h.workers]
    numbers := by rw [hclaims, h.numbers]
    length_le := by rw [hclaims]; exact h.length_le
    next := by rw [hnext, hclaims, hfinished, h.next]
    finished := by rw [hclaims, hfinished]; exact h.finished
    taken := by rw [hall, hclaims, h.taken]
    issued := by
      intro i
      have := hdue i
      have := hissued i
      have := h.issued i
      rw [hclaims]
      omega }

/-- The counter does not wrap around under a worker that is in its loop. -/
theorem fetchAdd_eq (h : Ledger args s)
    (hmax : args.total + args.concurrency ≤ 2 ^ args.usizeBits - 1)
    (hw : s.workers[w]? = some b) (hb : b.isFinished = false) :
    fetchAdd args s.next = s.next + 1 := by
  have hlt := finished_lt hw hb
  have hworkers := h.workers
  have hnext := h.next
  have hle := h.length_le
  exact Nat.mod_eq_of_lt (by omega)

/-- No worker has left its loop while numbers are left. -/
theorem next_eq_of_lt (h : Ledger args s) (hlt : s.next < args.total) :
    s.next = s.claims.length ∧ s.finished = 0 := by
  have hnext := h.next
  by_cases hfin : s.finished = 0
  · exact ⟨by omega, hfin⟩
  · have := h.finished hfin
    omega

/-- A worker that finds no number left takes one all the same. -/
theorem leave (h : Ledger args s) (hw : s.workers[w]? = some b)
    (hworkers : s'.workers = s.workers.set w c) (hnext : s'.next = s.next + 1)
    (hclaims : s'.claims = s.claims) (hissued : s'.issued = s.issued)
    (hleft : args.total ≤ s.next) (hfin : b.isFinished.toNat + 1 = c.isFinished.toNat)
    (htaken : c.taken = b.taken) (hdue : ∀ i, c.due i = b.due i) : Ledger args s' := by
  have hold := h.next
  have hle := h.length_le
  have hfinished : s'.finished = s.finished + 1 := by
    have := finished_set hw hworkers
    omega
  have htotal : s.claims.length = args.total := by
    by_cases hzero : s.finished = 0
    · omega
    · exact h.finished hzero
  exact {
    workers := by rw [hworkers, List.length_set, h.workers]
    numbers := by rw [hclaims, h.numbers]
    length_le := by rw [hclaims]; exact hle
    next := by rw [hnext, hclaims, hfinished]; omega
    finished := fun _ => by rw [hclaims, htotal]
    taken := by rw [hworkers, tally_set_eq hw htaken, hclaims, h.taken]
    issued := fun i => by
      rw [hworkers, tally_set_eq hw (hdue i), hissued, hclaims, h.issued] }

/-- A worker claims the number that is next, and it is due. -/
theorem claim (h : Ledger args s) (hw : s.workers[w]? = some b)
    (hworkers : s'.workers = s.workers.set w c) (hnext : s'.next = s.next + 1)
    (hclaims : s'.claims = s.claims ++ [(w, s.next)]) (hissued : s'.issued = s.issued)
    (hlt : s.next < args.total) (hfin : c.isFinished = b.isFinished)
    (htaken : c.taken = b.taken + 1)
    (hdue : ∀ i, c.due i = b.due i + if s.next = i then 1 else 0) : Ledger args s' := by
  obtain ⟨heq, hzero⟩ := h.next_eq_of_lt hlt
  have hfinished : s'.finished = 0 := by
    have := finished_set hw hworkers
    rw [hfin] at this
    omega
  have hlength : s'.claims.length = s.claims.length + 1 := by
    rw [hclaims, List.length_append, List.length_singleton]
  exact {
    workers := by rw [hworkers, List.length_set, h.workers]
    numbers := by
      rw [hlength, List.range_succ, hclaims, List.map_append, h.numbers, ← heq]
      rfl
    length_le := by omega
    next := by omega
    finished := fun hne => absurd hfinished hne
    taken := by
      have hset := tally_set Worker.taken hw c
      have hold := h.taken
      rw [hworkers]
      omega
    issued := by
      intro i
      have hset := tally_set (Worker.due i) hw c
      have hold := h.issued i
      have hi := hdue i
      rw [← heq] at hold
      rw [hworkers, hissued, hlength, List.range_succ, List.count_append, List.count_singleton,
        ← heq]
      simp only [beq_iff_eq]
      omega }

theorem init (args : Args) : Ledger args (init args : State H) := by
  have hzero : ∀ f : Worker H → ℕ, f ⟨.starting, false, []⟩ = 0 →
      tally f (List.replicate args.concurrency ⟨.starting, false, []⟩) = 0 := by
    intro f hf
    refine tally_eq_zero.mpr fun t ht => ?_
    rw [List.eq_of_mem_replicate ht, hf]
  have hfin : (Loadgen.init args : State H).finished = 0 := hzero _ rfl
  exact {
    workers := List.length_replicate
    numbers := rfl
    length_le := Nat.zero_le _
    next := by rw [hfin]; rfl
    finished := fun hne => absurd hfin hne
    taken := hzero Worker.taken rfl
    issued := by
      intro i
      have hdue := hzero (Worker.due i) rfl
      show 0 + tally (Worker.due i) (List.replicate args.concurrency _) = 0
      rw [hdue] }

theorem of_stepped (hmax : args.total + args.concurrency ≤ 2 ^ args.usizeBits - 1)
    (h : Ledger args s) (hstep : Stepped crate args s s') : Ledger args s' := by
  cases hstep with
  | started w outs stats hw hnew =>
    exact h.set hw rfl rfl rfl rfl rfl fun _ => rfl
  | crashed w pc outs hw hpc =>
    exact h.set hw rfl rfl rfl rfl rfl fun _ => rfl
  | issued w i outs stats hw =>
    refine h.set hw rfl rfl rfl rfl rfl fun j => ?_
    show (s.issued ++ [i]).count j + 0 = s.issued.count j + if i = j then 1 else 0
    rw [List.count_append, List.count_singleton]
    simp only [beq_iff_eq, Nat.add_zero]
  | responded w i outs stats outcome hw =>
    refine h.set hw rfl rfl rfl rfl ?_ fun _ => rfl
    show (outs ++ [outcome]).length + 0 = outs.length + 1
    rw [List.length_append, List.length_singleton]
  | finished w outs stats hw hnext =>
    have hadd := h.fetchAdd_eq hmax hw rfl
    exact h.leave hw rfl hadd rfl rfl hnext rfl rfl fun _ => rfl
  | claimed w outs stats hw hnext =>
    have hadd := h.fetchAdd_eq hmax hw rfl
    exact h.claim hw rfl hadd rfl rfl hnext rfl rfl fun _ => (Nat.zero_add _).symm
  | collected | joined | returnedOk | returnedErr =>
    exact ⟨h.workers, h.numbers, h.length_le, h.next, h.finished, h.taken, h.issued⟩

end Ledger

/-! ## The outcomes -/

/-- The `Stats` of a worker are those of the outcomes it had. -/
def Worker.Counts (crate : HistogramCrate H) (t : Worker H) : Prop :=
  match t.pc with
  | .starting => t.outcomes = []
  | .claiming stats | .claimed _ stats | .requesting _ stats | .finished stats =>
    Tallies crate t.outcomes stats

/-- `merged` are the `Stats` of these workers, and they have left their loops. -/
structure Merged (crate : HistogramCrate H) (workers : List (Worker H)) (merged : Stats H) :
    Prop where
  finished : ∀ t ∈ workers, t.isFinished = true
  tallies : Tallies crate (workers.flatMap Worker.outcomes) merged

/-- What the main task holds. -/
def State.Collected (crate : HistogramCrate H) (s : State H) : Prop :=
  match s.main with
  | .spawned | .returned none => True
  | .joining k merged => Merged crate (s.workers.take k) merged
  | .returned (some merged) => Merged crate s.workers merged

structure Counted (crate : HistogramCrate H) (args : Args) (s : State H) : Prop where
  ledger : Ledger args s
  counts : ∀ t ∈ s.workers, t.Counts crate
  collected : s.Collected crate

theorem Ledger.outcomes_le (h : Ledger args s) :
    (s.workers.flatMap Worker.outcomes).length ≤ s.claims.length := by
  rw [List.length_flatMap, ← h.taken]
  exact tally_le_tally fun t _ => Nat.le_add_right _ _

/-- What is merged already does not come from a worker that still takes steps. -/
theorem collected_set (h : s.Collected crate) (hw : s.workers[w]? = some b)
    (hb : b.isFinished = false) (hworkers : s'.workers = s.workers.set w c)
    (hmain : s'.main = s.main) : s'.Collected crate := by
  unfold State.Collected at h ⊢
  rw [hmain, hworkers]
  cases hm : s.main with
  | spawned => trivial
  | joining k merged =>
    rw [hm] at h
    have hle : k ≤ w := by
      by_contra hlt
      have hmem : b ∈ s.workers.take k :=
        List.mem_of_getElem? ((List.getElem?_take_of_lt (Nat.lt_of_not_le hlt)).trans hw)
      rw [h.finished b hmem] at hb
      exact absurd hb (by decide)
    show Merged crate ((s.workers.set w c).take k) merged
    rw [List.take_set_of_le hle]
    exact h
  | returned result =>
    cases result with
    | none => trivial
    | some merged =>
      rw [hm] at h
      have hfin := h.finished b (List.mem_of_getElem? hw)
      rw [hfin] at hb
      exact absurd hb (by decide)

namespace Counted

theorem init (args : Args) : Counted crate args (init args) where
  ledger := Ledger.init args
  counts := by
    intro t ht
    rw [List.eq_of_mem_replicate ht]
    rfl
  collected := trivial

/-- One more worker is joined. -/
theorem join {k : ℕ} {merged stats sum : Stats H} {outs : List Outcome} (hcrate : crate.Counting)
    (h : Counted crate args s) (htotal : args.total < 2 ^ 64) (hmain : s.main = .joining k merged)
    (hk : s.workers[k]? = some ⟨.finished stats, false, outs⟩)
    (hsum : merged.merge crate stats = .ok sum) : Merged crate (s.workers.take (k + 1)) sum := by
  have hmerged : Merged crate (s.workers.take k) merged := by
    have := h.collected
    rw [State.Collected, hmain] at this
    exact this
  have hstats : Tallies crate outs stats := h.counts _ (List.mem_of_getElem? hk)
  have htake : s.workers.take (k + 1) = s.workers.take k ++ [⟨.finished stats, false, outs⟩] := by
    rw [List.take_add_one, hk]
    rfl
  have hflat : (s.workers.take (k + 1)).flatMap Worker.outcomes
      = (s.workers.take k).flatMap Worker.outcomes ++ outs := by
    rw [htake, List.flatMap_append, List.flatMap_singleton]
  have hlen : ((s.workers.take k).flatMap Worker.outcomes ++ outs).length < 2 ^ 64 := by
    have hle := h.ledger.outcomes_le
    have hclaims := h.ledger.length_le
    rw [← List.take_append_drop (k + 1) s.workers, List.flatMap_append, List.length_append,
      hflat] at hle
    omega
  constructor
  · intro t ht
    rw [htake, List.mem_append, List.mem_singleton] at ht
    rcases ht with ht | rfl
    · exact hmerged.finished t ht
    · rfl
  · rw [hflat]
    exact hmerged.tallies.merge hcrate hstats hlen hsum

/-- A step of a worker in its loop. -/
theorem set (h : Counted crate args s) (hledger : Ledger args s')
    (hw : s.workers[w]? = some b) (hb : b.isFinished = false)
    (hworkers : s'.workers = s.workers.set w c) (hmain : s'.main = s.main)
    (hc : b.Counts crate → c.Counts crate) : Counted crate args s' where
  ledger := hledger
  counts := by
    intro t ht
    rw [hworkers] at ht
    rcases List.mem_or_eq_of_mem_set ht with ht | rfl
    · exact h.counts t ht
    · exact hc (h.counts b (List.mem_of_getElem? hw))
  collected := collected_set h.collected hw hb hworkers hmain

theorem of_stepped (hcrate : crate.Counting)
    (hmax : args.total + args.concurrency ≤ 2 ^ args.usizeBits - 1) (htotal : args.total < 2 ^ 64)
    (h : Counted crate args s) (hstep : Stepped crate args s s') : Counted crate args s' := by
  have hledger := h.ledger.of_stepped hmax hstep
  cases hstep with
  | started w outs stats hw hnew =>
    refine h.set hledger hw rfl rfl rfl fun (houts : outs = []) => ?_
    show Tallies crate outs stats
    rw [houts]
    exact Tallies.new hcrate hnew
  | crashed w pc outs hw hpc =>
    have hb : Worker.isFinished ⟨pc, false, outs⟩ = false := by
      cases pc with
      | finished stats => exact absurd rfl (hpc stats)
      | starting | claiming stats | claimed i stats | requesting i stats => rfl
    exact h.set hledger hw hb rfl rfl fun hcounts => hcounts
  | finished w outs stats hw hnext =>
    exact h.set hledger hw rfl rfl rfl fun hcounts => hcounts
  | claimed w outs stats hw hnext =>
    exact h.set hledger hw rfl rfl rfl fun hcounts => hcounts
  | issued w i outs stats hw =>
    exact h.set hledger hw rfl rfl rfl fun hcounts => hcounts
  | responded w i outs stats outcome hw =>
    -- the request that is answered is one of the `total`
    have hlen : (outs ++ [outcome]).length < 2 ^ 64 := by
      have htaken := le_tally Worker.taken (List.mem_of_getElem? hw)
      rw [h.ledger.taken] at htaken
      have hone : Worker.taken (⟨.requesting i stats, false, outs⟩ : Worker H)
          = outs.length + 1 := rfl
      have hle := h.ledger.length_le
      rw [List.length_append, List.length_singleton]
      omega
    refine h.set hledger hw rfl rfl rfl fun hcounts => ?_
    rw [Worker.Counts] at hcounts
    exact hcounts.record hcrate outcome hlen
  | collected stats hmain hnew =>
    refine ⟨hledger, h.counts, ?_⟩
    exact ⟨fun t ht => absurd ht (by simp), Tallies.new hcrate hnew⟩
  | joined k merged outs stats sum hmain hk hsum =>
    have hjoin := h.join hcrate htotal hmain hk hsum
    exact ⟨hledger, h.counts, hjoin⟩
  | returnedOk k merged hmain hk =>
    have hmerged := h.collected
    rw [State.Collected, hmain] at hmerged
    refine ⟨hledger, h.counts, ?_⟩
    have hall : s.workers.take k = s.workers :=
      List.take_of_length_le (List.getElem?_eq_none_iff.mp hk)
    show Merged crate s.workers merged
    rw [← hall]
    exact hmerged
  | returnedErr hmain => exact ⟨hledger, h.counts, trivial⟩

theorem of_exec (hcrate : crate.Counting)
    (hmax : args.total + args.concurrency ≤ 2 ^ args.usizeBits - 1) {as : List Action}
    (hrun : exec (step crate args) (Loadgen.init args) as = some s) : Counted crate args s := by
  have hpow : 2 ^ args.usizeBits ≤ 2 ^ 64 :=
    Nat.pow_le_pow_right (by decide) args.usizeBits_le
  have htotal : args.total < 2 ^ 64 := by
    have := Nat.two_pow_pos args.usizeBits
    omega
  exact exec_invariant
    (fun s a t h hstep => h.of_stepped hcrate hmax htotal (step_cases hstep)) (init args) hrun

/-- When the workers have left their loops, every number has been claimed and has come to an
outcome. -/
theorem of_merged {merged : Stats H} (h : Counted crate args s) (hworkers : 1 ≤ args.concurrency)
    (hmerged : Merged crate s.workers merged) :
    s.claims.length = args.total ∧
      (s.workers.flatMap Worker.outcomes).length = s.claims.length ∧
      ∀ i, tally (Worker.due i) s.workers = 0 := by
  have htaken : ∀ t ∈ s.workers, t.taken = t.outcomes.length ∧ ∀ i, t.due i = 0 := by
    intro t ht
    have hfin := hmerged.finished t ht
    obtain ⟨pc, failed, outs⟩ := t
    cases pc with
    | finished stats => exact ⟨rfl, fun _ => rfl⟩
    | starting | claiming stats | claimed i stats | requesting i stats =>
      exact absurd hfin (by simp [Worker.isFinished])
  have hone : s.finished ≠ 0 := by
    have hlen : 0 < s.workers.length := by rw [h.ledger.workers]; exact hworkers
    have hmem := List.getElem_mem hlen
    have hle := le_tally (fun t : Worker H => t.isFinished.toNat) hmem
    rw [hmerged.finished _ hmem] at hle
    exact Nat.pos_iff_ne_zero.mp hle
  refine ⟨h.ledger.finished hone, ?_, fun i => tally_eq_zero.mpr fun t ht => (htaken t ht).2 i⟩
  rw [List.length_flatMap, ← h.ledger.taken]
  exact tally_congr fun t ht => (htaken t ht).1.symm

end Counted

/-- A phase that returns has claimed each number below the total for one worker and issued it
once, and what it returns counts every request once, by how it ended. -/
theorem phase_exact (hcrate : crate.Counting) (hworkers : 1 ≤ args.concurrency)
    (hmax : args.total + args.concurrency ≤ 2 ^ args.usizeBits - 1) {as : List Action}
    {merged : Stats H} (hrun : exec (step crate args) (init args) as = some s)
    (hreturned : s.main = .returned (some merged)) :
    (∀ i < args.total, ∃! w, (w, i) ∈ s.claims) ∧
      s.claims.map Prod.snd = List.range args.total ∧
      s.issued.Perm (List.range args.total) ∧
      merged.ok.toNat + merged.rejected.toNat + merged.httpError.toNat + merged.transport.toNat
        + merged.truncated.toNat = args.total ∧
      crate.len merged.e2e = merged.ok.toNat ∧
      crate.len merged.ttft ≤ merged.ok.toNat := by
  have h := Counted.of_exec hcrate hmax hrun
  have hmerged : Merged crate s.workers merged := by
    have := h.collected
    rw [State.Collected, hreturned] at this
    exact this
  obtain ⟨htotal, houts, hdue⟩ := h.of_merged hworkers hmerged
  have hnumbers : s.claims.map Prod.snd = List.range args.total := by
    rw [h.ledger.numbers, htotal]
  have htallies := hmerged.tallies
  refine ⟨?_, hnumbers, ?_, ?_, ?_, ?_⟩
  · intro i hi
    rw [← List.mem_range, ← hnumbers] at hi
    obtain ⟨⟨w, j⟩, hmem, rfl⟩ := List.mem_map.mp hi
    have hnodup : (s.claims.map Prod.snd).Nodup := hnumbers ▸ List.nodup_range
    refine ⟨w, hmem, fun w' hmem' => ?_⟩
    have hsame := List.inj_on_of_nodup_map hnodup hmem' hmem rfl
    exact congrArg Prod.fst hsame
  · refine List.perm_iff_count.mpr fun i => ?_
    have hissued := h.ledger.issued i
    rw [hdue i, htotal] at hissued
    exact hissued
  · rw [htallies.length, houts, htotal]
  · rw [htallies.e2e, htallies.ok]
  · rw [htallies.ttft, htallies.ok]
    exact countP_hasTtft_le _

/-- A histogram that keeps its samples, each at most `HIST_MAX_US`. -/
def HistogramCrate.samples : HistogramCrate (List UInt64) where
  newWithBounds := .ok []
  saturatingRecord h v := h ++ [min v 300000000]
  add h h' := .ok (h ++ h')
  len := List.length

theorem HistogramCrate.samples_counting : HistogramCrate.samples.Counting where
  new_len := fun h => by rw [← Except.ok.inj h]; rfl
  record_len := fun h v _ => List.length_append
  add_len := fun h _ => by rw [← Except.ok.inj h]; exact List.length_append

/-- Two workers and two requests: the second number is issued first, and refused. -/
theorem phase_exact_two :
    ∃ s : State (List UInt64), exec (step .samples ⟨2, 2, 64, le_rfl⟩) (init ⟨2, 2, 64, le_rfl⟩)
        [.start 1, .start 0, .collect, .claim 0, .claim 1, .issue 1, .respond 1 .rejected,
          .claim 1, .issue 0, .respond 0 (.ok (some 2000) 5000), .claim 0, .join, .join, .join]
        = some s ∧
      s.main = .returned (some ⟨[2], [5], 1, 1, 0, 0, 0⟩) ∧ s.issued.Perm (List.range 2) := by
  have hrun : exec (step .samples ⟨2, 2, 64, le_rfl⟩) (init ⟨2, 2, 64, le_rfl⟩)
      [.start 1, .start 0, .collect, .claim 0, .claim 1, .issue 1, .respond 1 .rejected,
        .claim 1, .issue 0, .respond 0 (.ok (some 2000) 5000), .claim 0, .join, .join, .join]
      = some (⟨4, [⟨.finished ⟨[2], [5], 1, 0, 0, 0, 0⟩, false, [.ok (some 2000) 5000]⟩,
          ⟨.finished ⟨[], [], 0, 1, 0, 0, 0⟩, false, [.rejected]⟩],
        .returned (some ⟨[2], [5], 1, 1, 0, 0, 0⟩), [(0, 0), (1, 1)], [1, 0]⟩) := by
    decide +kernel
  have h := phase_exact HistogramCrate.samples_counting (by decide) (by decide) hrun rfl
  exact ⟨_, hrun, rfl, h.2.2.1⟩

end Loadgen
end OxideGate
