import Mathlib.Data.List.Basic
import Mathlib.Data.List.Perm.Basic

/-!
# A bounded set of FIFOs

Entries carry a key, and those of one key are taken in the order of their arrival; which key is
served is left open. The state is the list of the waiting entries in the order of their
arrival, so that a store of one queue per key refines it whatever rule picks the next key.

* `Step.in_order`, `Steps.in_order`: for each key, what is taken is a prefix of what was accepted;
* `Steps.perm`: everything accepted was taken or waits, once;
* `Steps.eq_fifo`: when all entries have one key, every choice has the answers of one bounded
  FIFO queue.
-/

namespace Fifos

variable {K T : Type*} {capacity : ℕ}

/-- An entry is added, or one is asked for. -/
inductive Call (K T : Type*) where
  | put (x : K × T)
  | take
deriving DecidableEq

inductive Answer (K T : Type*) where
  | accepted
  | refused (x : K × T)
  | taken (x : Option (K × T))
deriving DecidableEq

/-- One call when the entries `l` wait. -/
inductive Step (capacity : ℕ) : List (K × T) → Call K T → Answer K T → List (K × T) → Prop
  | put {l : List (K × T)} (x : K × T) (hroom : l.length < capacity) :
      Step capacity l (.put x) .accepted (l ++ [x])
  | refuse {l : List (K × T)} (x : K × T) (hfull : capacity ≤ l.length) :
      Step capacity l (.put x) (.refused x) l
  /-- The first entry of some key. -/
  | take (l₁ : List (K × T)) (x : K × T) (l₂ : List (K × T)) (hfirst : ∀ y ∈ l₁, y.1 ≠ x.1) :
      Step capacity (l₁ ++ x :: l₂) .take (.taken (some x)) (l₁ ++ l₂)
  | empty : Step capacity [] .take (.taken none) []

/-- Calls and their answers, one after the other. -/
inductive Steps (capacity : ℕ) :
    List (K × T) → List (Call K T × Answer K T) → List (K × T) → Prop
  | nil (l : List (K × T)) : Steps capacity l [] l
  | cons {l l' l'' : List (K × T)} {c : Call K T} {a : Answer K T}
      {h : List (Call K T × Answer K T)} (hstep : Step capacity l c a l')
      (hsteps : Steps capacity l' h l'') : Steps capacity l ((c, a) :: h) l''

/-- The entry that a call adds. -/
def accepted : Call K T × Answer K T → Option (K × T)
  | (.put x, .accepted) => some x
  | _ => none

/-- The entry that a call takes. -/
def taken : Call K T × Answer K T → Option (K × T)
  | (_, .taken x) => x
  | _ => none

/-! ## What is taken -/

/-- A call takes from the items and adds to them, and loses none. -/
theorem Step.perm {l l' : List (K × T)} {c : Call K T} {a : Answer K T}
    (h : Step capacity l c a l') :
    (l ++ (accepted (c, a)).toList).Perm ((taken (c, a)).toList ++ l') := by
  cases h with
  | put x hroom => exact List.Perm.refl _
  | refuse x hfull => simp [accepted, taken]
  | take l₁ x l₂ hfirst =>
    simp only [accepted, taken, Option.toList_none, Option.toList_some, List.append_nil]
    exact List.perm_middle
  | empty => exact List.Perm.refl _

theorem filterMap_cons_toList {α β : Type*} (f : α → Option β) (a : α) (l : List α) :
    (a :: l).filterMap f = (f a).toList ++ l.filterMap f := by
  cases h : f a <;> simp [h]

/-- Over a history the accepted items are those taken and those left. -/
theorem Steps.perm {l l' : List (K × T)} {h : List (Call K T × Answer K T)}
    (hs : Steps capacity l h l') : (l ++ h.filterMap accepted).Perm (h.filterMap taken ++ l') := by
  induction hs with
  | nil l => simp
  | cons hstep _ ih =>
    rw [filterMap_cons_toList, filterMap_cons_toList, ← List.append_assoc]
    refine (hstep.perm.append_right _).trans ?_
    rw [List.append_assoc, List.append_assoc]
    exact ih.append_left _

/-! ## One key -/

/-- A bounded FIFO queue. -/
def fifo (capacity : ℕ) (l : List (K × T)) : Call K T → Answer K T × List (K × T)
  | .put x => if capacity ≤ l.length then (.refused x, l) else (.accepted, l ++ [x])
  | .take => (.taken l.head?, l.tail)

/-- The answers of a bounded FIFO queue. -/
def fifoAnswers (capacity : ℕ) : List (K × T) → List (Call K T) → List (Answer K T)
  | _, [] => []
  | l, c :: cs => (fifo capacity l c).1 :: fifoAnswers capacity (fifo capacity l c).2 cs

/-- The call is not about another key. -/
def Call.OnKey (k : K) : Call K T → Prop
  | .put x => x.1 = k
  | .take => True

/-- With all items of one key a call does what it does to the FIFO. -/
theorem Step.eq_fifo {k : K} {l l' : List (K × T)} {c : Call K T} {a : Answer K T}
    (h : Step capacity l c a l') (hl : ∀ x ∈ l, x.1 = k) : (a, l') = fifo capacity l c := by
  cases h with
  | put x hroom => rw [fifo, if_neg (Nat.not_le.mpr hroom)]
  | refuse x hfull => rw [fifo, if_pos hfull]
  | take l₁ x l₂ hfirst =>
    -- nothing has another key, so `x` is in front
    have hnil : l₁ = [] := by
      rw [List.eq_nil_iff_forall_not_mem]
      intro y hy
      apply hfirst y hy
      rw [hl y (List.mem_append_left _ hy), hl x (List.mem_append_right _ List.mem_cons_self)]
    rw [hnil]
    rfl
  | empty => rfl

/-- Calls of one key leave items of that key only. -/
theorem Step.onKey {k : K} {l l' : List (K × T)} {c : Call K T} {a : Answer K T}
    (h : Step capacity l c a l') (hc : c.OnKey k) (hl : ∀ x ∈ l, x.1 = k) : ∀ x ∈ l', x.1 = k := by
  cases h with
  | put x hroom =>
    intro y hy
    rcases List.mem_append.mp hy with hy | hy
    · exact hl y hy
    · rw [List.mem_singleton.mp hy]
      exact hc
  | refuse x hfull => exact hl
  | take l₁ x l₂ hfirst =>
    intro y hy
    apply hl y
    rcases List.mem_append.mp hy with hy | hy
    · exact List.mem_append_left _ hy
    · exact List.mem_append_right _ (List.mem_cons_of_mem x hy)
  | empty => exact hl

/-- With one key only there is nothing to choose. -/
theorem Steps.eq_fifo {k : K} {l l' : List (K × T)} {h : List (Call K T × Answer K T)}
    (hs : Steps capacity l h l') (hc : ∀ e ∈ h, e.1.OnKey k) (hl : ∀ x ∈ l, x.1 = k) :
    h.map Prod.snd = fifoAnswers capacity l (h.map Prod.fst) := by
  induction hs with
  | nil l => rfl
  | cons hstep _ ih =>
    have hfifo := hstep.eq_fifo hl
    have hrest := ih (fun e he => hc e (List.mem_cons_of_mem _ he))
      (hstep.onKey (hc _ List.mem_cons_self) hl)
    rw [List.map_cons, List.map_cons, fifoAnswers, ← hfifo, hrest]

/-! ## Entries by key -/

variable [DecidableEq K]

/-- The entries of a key. -/
def ofKey (k : K) (l : List (K × T)) : List (K × T) := l.filter fun x => x.1 = k

@[simp] theorem ofKey_nil (k : K) : ofKey k ([] : List (K × T)) = [] := rfl

@[simp] theorem ofKey_append (k : K) (l l' : List (K × T)) :
    ofKey k (l ++ l') = ofKey k l ++ ofKey k l' :=
  List.filter_append _ _

/-- An item of the key at the front. -/
theorem ofKey_cons_eq {k : K} {x : K × T} (h : x.1 = k) (l : List (K × T)) :
    ofKey k (x :: l) = x :: ofKey k l :=
  List.filter_cons_of_pos (by simpa using h)

/-- An item of another key at the front. -/
theorem ofKey_cons_ne {k : K} {x : K × T} (h : x.1 ≠ k) (l : List (K × T)) :
    ofKey k (x :: l) = ofKey k l :=
  List.filter_cons_of_neg (by simpa using h)

/-- No item is of the key. -/
theorem ofKey_eq_nil {k : K} {l : List (K × T)} (h : ∀ y ∈ l, y.1 ≠ k) : ofKey k l = [] := by
  rw [ofKey, List.filter_eq_nil_iff]
  intro y hy
  rw [decide_eq_true_eq]
  exact h y hy

/-- The first entry of a key, and the entries around it. -/
theorem exists_of_ofKey_eq_cons {k : K} {x : K × T} {l m : List (K × T)}
    (h : ofKey k l = x :: m) : ∃ l₁ l₂, l = l₁ ++ x :: l₂ ∧ (∀ y ∈ l₁, y.1 ≠ x.1) ∧ x.1 = k := by
  obtain ⟨l₁, l₂, hl, hbefore, hx, -⟩ := List.filter_eq_cons_iff.mp h
  rw [decide_eq_true_eq] at hx
  refine ⟨l₁, l₂, hl, ?_, hx⟩
  intro y hy hyx
  exact hbefore y hy (by rw [decide_eq_true_eq, hyx, hx])

/-- The entries, sorted by key. -/
theorem perm_flatMap_ofKey {ks : List K} (hnd : ks.Nodup) {l : List (K × T)}
    (hl : ∀ x ∈ l, x.1 ∈ ks) : (ks.flatMap fun k => ofKey k l).Perm l := by
  induction ks generalizing l with
  | nil =>
    have hnil : l = [] := List.eq_nil_iff_forall_not_mem.mpr fun x hx => List.not_mem_nil (hl x hx)
    rw [hnil]
    exact List.Perm.refl _
  | cons k ks ih =>
    obtain ⟨hk, hnd⟩ := List.nodup_cons.mp hnd
    have hothers : ∀ x ∈ l.filter fun x => !decide (x.1 = k), x.1 ∈ ks := by
      intro x hx
      obtain ⟨hx, hxk⟩ := List.mem_filter.mp hx
      exact (List.mem_cons.mp (hl x hx)).resolve_left (by simpa using hxk)
    have hsame : (ks.flatMap fun k' => ofKey k' l)
        = ks.flatMap fun k' => ofKey k' (l.filter fun x => !decide (x.1 = k)) := by
      refine List.flatMap_congr fun k' hk' => ?_
      unfold ofKey
      rw [List.filter_filter]
      refine List.filter_congr fun x _ => ?_
      by_cases hx : x.1 = k'
      · have hne : k' ≠ k := fun e => hk (e ▸ hk')
        simp [hx, hne]
      · simp [hx]
    rw [List.flatMap_cons, hsame]
    exact ((ih hnd hothers).append_left _).trans (List.filter_append_perm _ l)

/-- Of each key the items are taken from the front and added at the back. -/
theorem Step.in_order {l l' : List (K × T)} {c : Call K T} {a : Answer K T}
    (h : Step capacity l c a l') (k : K) :
    ofKey k l ++ ofKey k (accepted (c, a)).toList
      = ofKey k (taken (c, a)).toList ++ ofKey k l' := by
  cases h with
  | put x hroom => simp [accepted, taken]
  | refuse x hfull => simp [accepted, taken]
  | take l₁ x l₂ hfirst =>
    simp only [accepted, taken, Option.toList_none, Option.toList_some, ofKey_nil,
      List.append_nil, ofKey_append]
    by_cases hk : x.1 = k
    · subst hk
      rw [ofKey_eq_nil hfirst, ofKey_cons_eq rfl, ofKey_cons_eq rfl]
      rfl
    · rw [ofKey_cons_ne hk, ofKey_cons_ne hk]
      rfl
  | empty => rfl

/-- For each key, what is taken is what waited or was accepted, in that order. -/
theorem Steps.in_order {l l' : List (K × T)} {h : List (Call K T × Answer K T)}
    (hs : Steps capacity l h l') (k : K) :
    ofKey k l ++ ofKey k (h.filterMap accepted) = ofKey k (h.filterMap taken) ++ ofKey k l' := by
  induction hs with
  | nil l => simp
  | cons hstep _ ih =>
    rw [filterMap_cons_toList, filterMap_cons_toList, ofKey_append, ofKey_append,
      List.append_assoc, ← ih, ← List.append_assoc, ← List.append_assoc, hstep.in_order k]

end Fifos
