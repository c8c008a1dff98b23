import Mathlib.Data.UInt
import OxideGate.FrameCounterTheorems
import OxideGate.GatewayCharge

/-!
# Streamed replies (`stream_response` of `lib.rs`)

The closure of `stream_response` looks at each chunk of the body and passes it on. `observe` is
one call of it, `observeAll` all of them: the chunks stay as they are, the first one that is no
error is timed, and the token frames of the stream are recorded on the lease
(`observeAll_eq`).

In the gateway such a call is the action `chunk` (`chunk_eq_observe`), between any steps of the
other parties. `streamed_of_exec` says that a streamed request has been charged the token frames of
the chunks that it has got.
-/

namespace OxideGate

/-! ## The closure -/

/-- What the closure owns, besides the slot. -/
structure StreamResponse where
  frames : FrameCounter
  seenFirst : Bool
  lease : Lease
  /-- The samples recorded in `TTFT`. -/
  ttft : List ℕ
deriving DecidableEq, Repr

namespace StreamResponse

variable {E : Type}

/-- The closure before the first chunk. -/
def new (lease : Lease) : StreamResponse := ⟨.fresh, false, lease, []⟩

/-- One call of the closure, `elapsed` after the arrival of the request. -/
def observe (p : StreamResponse) (elapsed : ℕ) (chunk : Except E (List UInt8)) :
    Except E (List UInt8) × StreamResponse :=
  match chunk with
  | .ok bytes =>
    let p :=
      if p.seenFirst then p else { p with seenFirst := true, ttft := p.ttft ++ [elapsed] }
    let (n, frames) := p.frames.feed bytes
    (chunk, { p with frames := frames, lease := p.lease.recordTokens n.toUInt64 })
  | .error _ => (chunk, p)

/-- The body, chunk after chunk. -/
def observeAll (p : StreamResponse) :
    List (ℕ × Except E (List UInt8)) → List (Except E (List UInt8)) × StreamResponse
  | [] => ([], p)
  | (elapsed, chunk) :: chunks =>
    let (chunk, p) := p.observe elapsed chunk
    let (chunks, p) := p.observeAll chunks
    (chunk :: chunks, p)

/-- The bytes of a chunk that is no error. -/
def bytes? : Except E (List UInt8) → Option (List UInt8)
  | .ok bytes => some bytes
  | .error _ => none

/-- What a body delivers, and when. -/
def delivered (chunks : List (ℕ × Except E (List UInt8))) : List (ℕ × List UInt8) :=
  chunks.filterMap fun chunk => (bytes? chunk.2).map fun bytes => (chunk.1, bytes)

theorem delivered_ok (elapsed : ℕ) (bytes : List UInt8)
    (chunks : List (ℕ × Except E (List UInt8))) :
    delivered ((elapsed, .ok bytes) :: chunks) = (elapsed, bytes) :: delivered chunks := rfl

theorem recordTokens_zero (l : Lease) : l.recordTokens (Nat.toUInt64 0) = l := by
  rw [Lease.recordTokens, show Nat.toUInt64 0 = 0 from rfl, UInt64.add_zero]

/-- Two counts are recorded like their sum. -/
theorem recordTokens_add (l : Lease) (m n : ℕ) :
    (l.recordTokens m.toUInt64).recordTokens n.toUInt64 = l.recordTokens (m + n).toUInt64 := by
  have hadd : (m + n).toUInt64 = m.toUInt64 + n.toUInt64 := UInt64.ofNat_add m n
  rw [Lease.recordTokens, Lease.recordTokens, Lease.recordTokens, hadd, UInt64.add_assoc]

/-- A call of the closure with a chunk that is no error. -/
theorem observe_ok (p : StreamResponse) (elapsed : ℕ) (bytes : List UInt8) :
    p.observe (E := E) elapsed (.ok bytes) = (.ok bytes,
      ⟨(p.frames.feed bytes).2, true, p.lease.recordTokens (p.frames.feed bytes).1.toUInt64,
        p.ttft ++ if p.seenFirst then [] else [elapsed]⟩) := by
  unfold observe
  cases hseen : p.seenFirst with
  | true => simp [hseen]
  | false => simp

/-- Nothing is added, left out or changed, the first delivery is timed, and the frames are recorded
on the lease. -/
theorem observeAll_eq (p : StreamResponse) (chunks : List (ℕ × Except E (List UInt8))) :
    p.observeAll chunks = (chunks.map Prod.snd,
      ⟨(p.frames.feedAll ((delivered chunks).map Prod.snd)).2,
        p.seenFirst || !(delivered chunks).isEmpty,
        p.lease.recordTokens (p.frames.feedAll ((delivered chunks).map Prod.snd)).1.toUInt64,
        p.ttft ++ if p.seenFirst then [] else ((delivered chunks).head?.map Prod.fst).toList⟩) := by
  induction chunks generalizing p with
  | nil =>
    simp only [delivered, List.filterMap_nil, List.map_nil, FrameCounter.feedAll, recordTokens_zero]
    simp [observeAll]
  | cons chunk chunks ih =>
    obtain ⟨elapsed, chunk⟩ := chunk
    cases chunk with
    | error e =>
      rw [observeAll, observe]
      simp only [ih]
      rfl
    | ok bytes =>
      rw [observeAll, observe_ok]
      simp only [ih, delivered_ok, List.map_cons, FrameCounter.feedAll, recordTokens_add]
      simp

end StreamResponse

/-! ## In the gateway -/

namespace Gateway

open Runs

variable {R : Type}

/-- The chunk that an action delivers to request `i`. -/
def Action.chunk? (i : ℕ) : Action → Option (List UInt8)
  | .chunk j bytes => if j = i then some bytes else none
  | _ => none

/-- The action does to the request what a call of the closure does to what the closure owns. -/
theorem chunk_eq_observe {E : Type} (s : State R) (i : ℕ) (r : Request) (p : StreamResponse)
    (hframes : r.frames = p.frames) (hlease : r.lease = .held p.lease) (elapsed : ℕ)
    (bytes : List UInt8) :
    s.chunk i r bytes = s.setRequest i { r with
      frames := (p.observe (E := E) elapsed (.ok bytes)).2.frames
      lease := .held (p.observe (E := E) elapsed (.ok bytes)).2.lease } := by
  rw [StreamResponse.observe_ok, State.chunk, hframes, hlease]
  rfl

/-- A streamed reply is not read by the handler. -/
def Request.Unread (r : Request) : Prop :=
  match r.pc with
  | .reading _ | .parsed _ _ => r.req.stream = false
  | _ => True

theorem Request.Moved.unread {i : ℕ} {r r' : Request} {a : Action} (hm : Moved i r a r')
    (h : r.Unread) : r'.Unread := by
  cases hm with
  | receiveBuffered slot hpc hchan hstream => exact hstream
  | bodyOk n slot hpc =>
    rw [Unread, hpc] at h
    exact h
  | chunk bytes slot hpc =>
    rw [Unread, hpc] at h ⊢
    trivial
  | send k g => exact h
  | deliver k reply hchan => exact h
  | _ => trivial

/-- A request does not change whether it streams. -/
theorem Request.Moved.stream {i : ℕ} {r r' : Request} {a : Action} (hm : Moved i r a r') :
    r'.req.stream = r.req.stream := by
  cases hm <;> rfl

/-- What a streamed request has been charged, and what it has counted so far. -/
def Request.Streamed (r : Request) (chunks : List (List UInt8)) : Prop :=
  r.frames = (FrameCounter.fresh.feedAll chunks).2 ∧
  r.lease.used = (FrameCounter.fresh.feedAll chunks).1.toUInt64

/-- A move of a streamed request counts the chunk that it delivers, if it delivers one. -/
theorem Request.Streamed.moved {i : ℕ} {r r' : Request} {a : Action}
    {chunks : List (List UInt8)} (h : r.Streamed chunks) (hm : Moved i r a r')
    (hcoherent : r.Coherent) (hunread : r.Unread) (hstream : r.req.stream = true) :
    r'.Streamed (chunks ++ (a.chunk? i).toList) := by
  obtain ⟨hframes, hused⟩ := h
  cases hm with
  | chunk bytes slot hpc =>
    rw [Coherent, hpc] at hcoherent
    rw [Action.chunk?, if_pos rfl, Option.toList_some, Streamed, FrameCounter.feedAll_concat,
      LeaseCell.used_recordTokens hcoherent.1, hused, hframes]
    exact ⟨rfl, (UInt64.ofNat_add _ _).symm⟩
  | granted now reserve hpc =>
    rw [Coherent, hpc] at hcoherent
    show Streamed _ (chunks ++ [])
    rw [List.append_nil]
    refine ⟨hframes, ?_⟩
    rw [← hused, hcoherent.1]
    rfl
  | releaseBody slot n hpc =>
    rw [Unread, hpc] at hunread
    rw [show r.req.stream = false from hunread] at hstream
    exact absurd hstream (by simp)
  | settle now slot exit hpc =>
    show Streamed _ (chunks ++ [])
    rw [List.append_nil]
    exact ⟨hframes, (LeaseCell.used_settle _).trans hused⟩
  | _ =>
    show Streamed _ (chunks ++ [])
    rw [List.append_nil]
    exact ⟨hframes, hused⟩

variable [Add R] [Sub R] [Mul R] [Min R] [LT R] [DecidableLT R] [NatCast R] [RatCast R]

/-- The request at `i`, after a run that has delivered `chunks` to it. -/
def GotChunks (chunks : List (List UInt8)) : Option Request → Prop
  | none => chunks = []
  | some r => r.Unread ∧ (r.req.stream = true → r.Streamed chunks)

/-- A step adds the chunk it takes, if it is this request's. -/
theorem GotChunks.step {cfg : Config} {s s' : State R} {a : Action} (hhandled : Handled s)
    (hs : Stepped cfg s a s') {i : ℕ} {chunks : List (List UInt8)}
    (h : GotChunks chunks s.requests[i]?) :
    GotChunks (chunks ++ (a.chunk? i).toList) s'.requests[i]? := by
  -- a move of request `i` itself
  have hmoved : ∀ r r', s.requests[i]? = some r → Request.Moved i r a r' →
      GotChunks (chunks ++ (a.chunk? i).toList) (some r') := by
    intro r r' hr hm
    rw [hr] at h
    refine ⟨hm.unread h.1, fun hstream => ?_⟩
    have hstream' : r.req.stream = true := hm.stream.symm.trans hstream
    exact (h.2 hstream').moved hm (hhandled.coherent i r hr) h.1 hstream'
  cases hchunk : a.chunk? i with
  | some bytes =>
    have ha : a = .chunk i bytes := by
      cases a with
      | chunk j bytes' =>
        rw [Action.chunk?] at hchunk
        split at hchunk
        · rename_i hji
          rw [hji, Option.some.inj hchunk]
        · exact absurd hchunk (by simp)
      | _ => exact absurd hchunk (by simp [Action.chunk?])
    subst ha
    cases hs with
    | chunk _ _ r slot hr hpc =>
      rw [← hchunk, State.setRequest, List.getElem?_set_self (List.getElem?_eq_some_iff.mp hr).1]
      exact hmoved r _ hr (.chunk bytes slot hpc)
  | none =>
    rw [hchunk] at hmoved
    rw [Option.toList_none, List.append_nil] at hmoved ⊢
    obtain he | ⟨tenant, req, he⟩ | ⟨j, r, r', hr, hm, -, he⟩ := requests_cases hs
    · rw [he]
      exact h
    · rw [he, List.getElem?_append]
      split
      · exact h
      · rename_i hlen
        have hnone : s.requests[i]? = none := List.getElem?_eq_none (Nat.not_lt.mp hlen)
        rw [hnone] at h
        rw [h]
        cases hi : [Request.arrived tenant req][i - s.requests.length]? with
        | none => rfl
        | some r =>
          rw [List.mem_singleton.mp (List.mem_of_getElem? hi)]
          exact ⟨trivial, fun _ => ⟨rfl, rfl⟩⟩
    · rw [he, List.getElem?_set]
      split
      · rename_i hji
        subst hji
        rw [if_pos (List.getElem?_eq_some_iff.mp hr).1]
        exact hmoved r r' hr hm
      · exact h

/-- A streamed request has been charged the token frames of the chunks that it has got, whatever the
order of the steps. -/
theorem streamed_of_exec {cfg : Config} {tenants : List (Tenant R)} {actions : List Action}
    {s : State R} (hrun : exec (step cfg) (init cfg tenants) actions = some s) (i : ℕ) :
    GotChunks (actions.filterMap (Action.chunk? i)) s.requests[i]? := by
  have hkept : ∀ (as : List Action) (u : State R) (a : Action) (v : State R),
      Handled u ∧ GotChunks (as.filterMap (Action.chunk? i)) u.requests[i]? →
      Gateway.step cfg u a = some v →
      Handled v ∧ GotChunks ((as ++ [a]).filterMap (Action.chunk? i)) v.requests[i]? := by
    rintro as u a v ⟨hhandled, hcharged⟩ hstep
    have hs := step_cases hstep
    have hsplit : (as ++ [a]).filterMap (Action.chunk? i)
        = as.filterMap (Action.chunk? i) ++ (a.chunk? i).toList := by
      rw [List.filterMap_append]
      cases hchunk : a.chunk? i <;> simp [hchunk]
    rw [hsplit]
    exact ⟨hhandled.step hs, hcharged.step hhandled hs⟩
  exact (exec_invariant_actions hkept ⟨handled_init cfg tenants, rfl⟩ hrun).2

end Gateway
end OxideGate
