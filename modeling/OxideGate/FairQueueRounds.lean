import OxideGate.FairQueueReachable
import OxideGate.Tenants

/-!
# How often the loop of `pop` runs

A round that does not return passes the turn on. The tenant it passes over got one of the
credits it misses and misses at least one more, so a round lowers the number of credits that
are missing beyond the last one of each tenant (`spare`). A tenant of weight `w` never misses
more than `⌈1 / w⌉` credits, whatever credit earlier calls of `pop` left it.
-/

namespace OxideGate
namespace FairQueue

open Tally

variable {K T : Type}

/-- How often the turn can still pass over a tenant: for every credit it misses but the last. -/
def spare (q : FairQueue K T) (key : K) : ℕ := q.missing key - 1

/-- A tenant of weight at least `w` is at most `⌈1 / w⌉` credits short. -/
theorem WF.missing_le {q : FairQueue K T} (h : q.WF) {w : ℚ} (hw : 0 < w)
    (hmin : ∀ k tq, q.queues k = some tq → w ≤ tq.weight) (k : K) :
    q.missing k ≤ ⌈1 / w⌉₊ := by
  unfold missing
  cases hk : q.queues k with
  | none => exact Nat.zero_le _
  | some tq =>
    have hd : 0 ≤ tq.deficit := deficit_of_some hk ▸ h.deficit_nonneg k
    have hwk := hmin k tq hk
    refine Nat.ceil_le_ceil ?_
    calc (1 - tq.deficit) / tq.weight ≤ 1 / tq.weight := by
          refine div_le_div_of_nonneg_right ?_ (hw.le.trans hwk)
          linarith
      _ ≤ 1 / w := one_div_le_one_div_of_le hw hwk

theorem WF.tally_spare_le {q : FairQueue K T} (h : q.WF) {w : ℚ} (hw : 0 < w)
    (hmin : ∀ k tq, q.queues k = some tq → w ≤ tq.weight) :
    tally q.spare q.active ≤ q.active.length * (⌈1 / w⌉₊ - 1) := by
  have hone : ∀ k ∈ q.active, q.spare k ≤ ⌈1 / w⌉₊ - 1 := by
    intro k _
    exact Nat.sub_le_sub_right (h.missing_le hw hmin k) 1
  have hsum := tally_le_tally hone
  have hconst : tally (fun _ => ⌈1 / w⌉₊ - 1) q.active = q.active.length * (⌈1 / w⌉₊ - 1) := by
    rw [tally, List.map_const', List.sum_replicate_nat]
  rw [hconst] at hsum
  exact hsum

variable [DecidableEq K]

theorem Visited.spare_next {q q' : FairQueue K T} (h : q.WF) (hv : Visited q (.next q')) :
    tally q.spare q.active = tally q'.spare q'.active + 1 := by
  obtain ⟨key, rest, hactive, hactive', hkey, hlast, hrest⟩ := hv.missing_pass h
  have hspare : ∀ k ∈ rest, q'.spare k = q.spare k := by
    intro k hk
    rw [spare, spare, hrest k hk]
  have hfront : q.spare key = q'.spare key + 1 := by
    rw [spare, spare]
    omega
  rw [hactive, hactive', tally_cons, tally_append, tally_cons, tally_nil, hfront,
    tally_congr hspare]
  omega

/-- The loop of `pop` returns in the round after the turn was passed on as often as it can. -/
theorem popLoop_of_spare {q : FairQueue K T} (h : q.WF) {fuel : ℕ}
    (hfuel : tally q.spare q.active < fuel) : popLoop fuel q = some q.pop := by
  induction fuel generalizing q with
  | zero => omega
  | succ fuel ih =>
    have hv := visit_cases h
    rw [popLoop]
    cases hq : q.visit with
    | ret item q' =>
      rw [pop_ret hq]
    | next q' =>
      rw [hq] at hv
      have hnext := hv.spare_next h
      rw [pop_next h hq]
      exact ih (hv.wf_next h) (by omega)

/-- While a tenant is active `pop` returns an item. -/
theorem pop_isSome {q : FairQueue K T} (h : q.WF) (hactive : q.active ≠ []) :
    ∃ item, q.pop.1 = some item := by
  have hperm := pop_perm h
  cases hpop : q.pop.1 with
  | some item => exact ⟨item, rfl⟩
  | none =>
    rw [hpop] at hperm
    obtain ⟨key, rest, hcons⟩ := List.exists_cons_of_ne_nil hactive
    have hkey : q.active.head? = some key := by rw [hcons]; rfl
    obtain ⟨tq, item, items, htq, hitems, -⟩ := h.front hkey
    have hmem : item ∈ q.contents := by
      rw [contents, hcons, List.flatMap_cons, backlog_of_some htq, hitems]
      exact List.mem_append_left _ List.mem_cons_self
    rw [hperm.1] at hmem
    exact absurd hmem List.not_mem_nil

/-- The loop of `pop` runs at most `n * ⌈1 / w⌉` times, for `n > 0` active tenants and the
smallest weight `w`, and returns an item; with the weights of the tiers it runs at most
`n + 1` times. -/
theorem pop_bounded {W : Set ℚ} (hW : ∀ w ∈ W, 0 < w) {capacity : ℕ} {q : FairQueue K T}
    (h : Reachable W capacity q) :
    (∀ w, IsLeast {w | ∃ k tq, q.queues k = some tq ∧ tq.weight = w} w →
        popLoop (q.active.length * ⌈1 / w⌉₊) q = some q.pop) ∧
      (0 < q.active.length → ∃ item, q.pop.1 = some item) ∧
      ((∀ k tq, q.queues k = some tq → ∃ tier : Tier, tq.weight = tier.weight) →
        popLoop (q.active.length + 1) q = some q.pop) := by
  have hwf := h.wf hW
  refine ⟨fun w hleast => ?_, fun hn => ?_, fun htier => ?_⟩
  · obtain ⟨⟨key, tq, hkey, rfl⟩, hle⟩ := hleast
    have hw : 0 < tq.weight := hwf.weight_pos key tq hkey
    have hspare := hwf.tally_spare_le hw fun k tq' hk => hle ⟨k, tq', hk, rfl⟩
    have hn : 0 < q.active.length := List.length_pos_of_mem (hwf.mem_active hkey)
    have hceil : 0 < ⌈1 / tq.weight⌉₊ := Nat.ceil_pos.mpr (one_div_pos.mpr hw)
    have hstep := Nat.mul_lt_mul_of_pos_left (Nat.sub_lt hceil Nat.one_pos) hn
    exact popLoop_of_spare hwf (hspare.trans_lt hstep)
  · exact pop_isSome hwf (List.ne_nil_of_length_pos hn)
  · have hhalf : ∀ k tq, q.queues k = some tq → (1 / 2 : ℚ) ≤ tq.weight := by
      intro k tq hk
      obtain ⟨tier, htier⟩ := htier k tq hk
      rw [htier]
      cases tier <;> norm_num [Tier.weight]
    have hspare := hwf.tally_spare_le (by norm_num) hhalf
    have htwo : ⌈(1 : ℚ) / (1 / 2)⌉₊ = 2 := by norm_num
    rw [htwo, Nat.mul_one] at hspare
    exact popLoop_of_spare hwf (Nat.lt_succ_of_le hspare)

/-- A free tenant that a first `pop` passed over with half a credit, and one that joined later. -/
theorem pop_bounded_two :
    ∃ item, ((((new 4).push 0 (1 / 2) 10).2.push 0 (1 / 2) 11).2.pop.2.push 1 1 12
      : Except ℕ Unit × FairQueue ℕ ℕ).2.pop.1 = some item :=
  (pop_bounded (W := {w | 0 < w}) (fun _ hw => hw)
    (((Reachable.new.push 0 (by norm_num) 10).push 0 (by norm_num) 11).pop.push 1
      (by norm_num) 12)).2.1 (by decide +kernel)

end FairQueue
end OxideGate
