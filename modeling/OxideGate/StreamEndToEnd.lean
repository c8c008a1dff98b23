import OxideGate.LoadgenStream
import OxideGate.MockBackend
import OxideGate.StreamResponse

/-!
# A streamed reply, from the backend to the client

The mock backend streams a reply, the gateway passes it on and counts its tokens, the load
generator decides how the request ended. Between them the stream is cut into chunks that nobody
chooses, and it may break off anywhere, with an error or without one.

* `stream_charged`: the tenant is charged one token for each frame whose line got to the gateway,
  between any steps of the other requests;
* `stream_verdict`: the request counts as ok exactly if the last frame got to the client and no
  error did;
* `stream_end_to_end` puts the parties together: what counts as ok has been charged in full.

The frames have the name of the model in them, which the client chooses. `Fits` says that it is
short enough for the gateway to carry a line over, and `Quiet` that there is no `[DONE]` in it.
-/

namespace OxideGate

open Lines MockBackend

/-! ## What the gateway charges -/

namespace FrameCounter

/-- However a stream of the mock backend is cut, and wherever it breaks off, the frames are counted
whose lines are complete. -/
theorem feedAll_cut {model : String} {tokens : ℕ} (hfits : Fits model tokens)
    {chunks : List (List UInt8)} (hcut : chunks.flatten <+: streamBody model tokens) :
    (fresh.feedAll chunks).1
      = (List.range tokens).countP fun i => MockBackend.sent model i <+: chunks.flatten := by
  obtain ⟨hframes, hlong⟩ := frames_cut hfits hcut
  have htracks := tracks_fresh.feedAll chunks
  rw [List.nil_append, Nat.zero_add] at htracks
  have hle := htracks.le_frames
  have hge := htracks.frames_le
  omega

end FrameCounter

theorem countP_sent_all (model : String) (tokens : ℕ) :
    (List.range tokens).countP (fun i => MockBackend.sent model i <+: streamBody model tokens)
      = tokens := by
  apply countP_sent
  rw [streamBody_eq]
  exact List.prefix_append _ _

namespace Gateway

open Runs

variable {R : Type} [Add R] [Sub R] [Mul R] [Min R] [LT R] [DecidableLT R] [NatCast R] [RatCast R]

/-- A streamed reply of the mock backend, in chunks that are cut anywhere and between any steps of
the other parties, is charged one token for each frame whose line got through, as long as its lines
are short enough to be carried over; all of it, one for each token. -/
theorem stream_charged (cfg : Config) (tenants : List (Tenant R)) (actions : List Action)
    (s : State R) (hrun : exec (step cfg) (init cfg tenants) actions = some s) (i : ℕ)
    (r : Request) (hr : s.requests[i]? = some r) (hstream : r.req.stream = true) (model : String)
    (tokens : ℕ) (hfits : Fits model tokens)
    (hcut : (actions.filterMap (Action.chunk? i)).flatten <+: streamBody model tokens) :
    let got := (actions.filterMap (Action.chunk? i)).flatten
    r.lease.used
        = ((List.range tokens).countP fun k => MockBackend.sent model k <+: got).toUInt64 ∧
      (got = streamBody model tokens → r.lease.used = tokens.toUInt64) := by
  intro got
  have hgot := streamed_of_exec hrun i
  rw [hr] at hgot
  have hused := (hgot.2 hstream).2
  rw [FrameCounter.feedAll_cut hfits hcut] at hused
  refine ⟨hused, fun hbody => ?_⟩
  rw [hused, show (actions.filterMap (Action.chunk? i)).flatten = _ from hbody, countP_sent_all]

/-- A run with one streamed request, whose reply comes in `chunks`. -/
def streamedIn (chunks : List (List UInt8)) : List Action :=
  [.arrive 0 ⟨some 8, true⟩, .admission 0 0, .push 0, .notify 0, .acquire, .pop, .dispatchNext,
    .send 0 2, .backendOk 0, .deliver 0, .receive 0] ++ chunks.map (.chunk 0) ++
    [.closeBody 0, .settle 0 1]

/-- A reply of two tokens, in three chunks. -/
theorem stream_charged_two :
    let chunks := [(streamBody "m" 2).take 100, ((streamBody "m" 2).drop 100).take 100,
      (streamBody "m" 2).drop 200]
    ∃ (s : State ℚ) (r : Request), exec (step ⟨2, 0, 1, true, 16⟩)
        (init ⟨2, 0, 1, true, 16⟩ [.fromConfig ⟨"acme", "key", .paid, 600, 5, 4⟩ 0])
        (streamedIn chunks) = some s ∧
      s.requests[0]? = some r ∧ chunks.flatten = streamBody "m" 2 ∧ r.lease.used = 2 := by
  intro chunks
  have hrun : (exec (step ⟨2, 0, 1, true, 16⟩)
      (init ⟨2, 0, 1, true, 16⟩ [.fromConfig ⟨"acme", "key", .paid, 600, 5, 4⟩ 0])
      (streamedIn chunks)).map (fun s : State ℚ => s.requests[0]?.map fun r => r.req.stream)
      = some (some true) := by
    decide +kernel
  obtain ⟨s, hs, hl⟩ := Option.map_eq_some_iff.mp hrun
  obtain ⟨r, hr, hstream⟩ := Option.map_eq_some_iff.mp hl
  have hflatten : chunks.flatten = streamBody "m" 2 := by decide +kernel
  have hcharged := (stream_charged _ _ (streamedIn chunks) s hs 0 r hr hstream "m" 2
    (by decide +kernel) (hflatten ▸ List.prefix_rfl)).2 hflatten
  exact ⟨s, r, hs, hr, hflatten, hcharged⟩

end Gateway

/-! ## What the client concludes -/

namespace Loadgen

/-- When the first bytes came. -/
def firstByte (chunks : List (Duration × List UInt8)) : Option Duration :=
  (chunks.find? fun chunk => !chunk.2.isEmpty).map Prod.fst

/-- The pieces of a body that are no errors, and when they came. -/
def pieces (chunks : List Chunk) : List (Duration × List UInt8) :=
  chunks.filterMap fun chunk =>
    match chunk.bytes with
    | .ok bytes => some (chunk.elapsed, bytes)
    | .error _ => none

/-- A body without errors is its pieces. -/
theorem body_pieces {chunks : List Chunk} (h : chunks.all fun chunk => chunk.bytes.isOk) :
    body (pieces chunks) = chunks := by
  induction chunks with
  | nil => rfl
  | cons chunk chunks ih =>
    rw [List.all_cons, Bool.and_eq_true] at h
    obtain ⟨elapsed, bytes⟩ := chunk
    cases bytes with
    | error e => exact absurd h.1 (by simp [Except.isOk, Except.toBool])
    | ok bytes => exact congrArg (⟨elapsed, .ok bytes⟩ :: ·) (ih h.2)

/-- The loop, for a body with an error in it. -/
theorem drainChunks_error {chunks : List Chunk} (h : ¬ chunks.all fun chunk => chunk.bytes.isOk)
    (ended : Duration) (ttft : Option Duration) (tail : List UInt8) :
    drainChunks ended ttft tail chunks = .transport := by
  induction chunks generalizing ttft tail with
  | nil => exact absurd List.all_nil h
  | cons chunk chunks ih =>
    obtain ⟨elapsed, bytes⟩ := chunk
    cases bytes with
    | error e => rfl
    | ok bytes => exact ih (fun hall => h (by simpa [Except.isOk, Except.toBool] using hall)) _ _

/-- The loop, for a body that ends without an error. -/
theorem drainChunks_eq (ended : Duration) (chunks : List (Duration × List UInt8))
    (ttft : Option Duration) (tail : List UInt8) :
    drainChunks ended ttft tail (body chunks) = .truncated ∨
      drainChunks ended ttft tail (body chunks) = .ok (ttft.or (firstByte chunks)) ended := by
  induction chunks generalizing ttft tail with
  | nil =>
    show (if _ then Outcome.ok ttft ended else .truncated) = _ ∨
      (if _ then Outcome.ok ttft ended else .truncated) = _
    split
    · right
      simp [firstByte]
    · exact Or.inl rfl
  | cons chunk chunks ih =>
    rcases ih (if ttft.isNone && !chunk.2.isEmpty then some chunk.1 else ttft)
      (extendTail tail chunk.2) with h | h
    · exact Or.inl h
    · right
      refine Eq.trans h ?_
      congr 1
      cases ttft with
      | some t => simp
      | none => cases hempty : chunk.2.isEmpty <;> simp [firstByte, hempty]

/-- No frame has `[DONE]` in it. -/
def Quiet (model : String) (tokens : ℕ) : Prop :=
  ∀ i < tokens, ¬ ascii "[DONE]" <:+: payload model i

instance (model : String) (tokens : ℕ) : Decidable (Quiet model tokens) :=
  inferInstanceAs (Decidable (∀ i < tokens, ¬ _))

/-- The frames add no `[DONE]`. -/
theorem not_infix_events {model : String} {tokens : ℕ} (hquiet : Quiet model tokens)
    {after : List UInt8} (hafter : ¬ ascii "[DONE]" <:+: after) :
    ¬ ascii "[DONE]" <:+: events model tokens ++ after := by
  have hsep : newline ∉ ascii "[DONE]" := by decide
  induction tokens generalizing after with
  | zero => exact hafter
  | succ tokens ih =>
    have hsplit : events model (tokens + 1) ++ after = events model tokens
        ++ (event (payload model tokens) ++ newline :: ([] ++ newline :: after)) := by
      rw [events_succ]
      simp only [List.append_assoc, List.cons_append, List.nil_append]
    rw [hsplit]
    apply ih fun i hi => hquiet i (by omega)
    intro h
    rcases isInfix_append_sep hsep h with h | h
    · exact hquiet tokens (by omega) (isInfix_append_right (by decide) h)
    · rcases isInfix_append_sep hsep h with h | h
      · exact absurd (List.infix_nil.mp h) (by decide)
      · exact hafter h

/-- What breaks off before the last frame is complete has no `[DONE]`. -/
theorem not_infix_of_cut {model : String} {tokens : ℕ} (hquiet : Quiet model tokens)
    {p : List UInt8} (hcut : p <+: streamBody model tokens)
    (hopen : ¬ events model tokens ++ doneEvent <+: p) : ¬ ascii "[DONE]" <:+: p := by
  rw [streamBody_eq] at hcut
  rcases isPrefix_append_cases hcut with hp | ⟨q, rfl, hq⟩
  · intro h
    have hevents := not_infix_events hquiet (show ¬ ascii "[DONE]" <:+: [] by decide)
    rw [List.append_nil] at hevents
    exact hevents (h.trans hp.isInfix)
  · rw [List.prefix_append_right_inj] at hopen
    have hle : q.length ≤ doneEvent.dropLast.length := by
      rcases isPrefix_append_cases hq with hq | ⟨q', rfl, -⟩
      · have hne : q.length ≠ doneEvent.length :=
          fun hlen => hopen (hq.eq_of_length hlen ▸ List.prefix_rfl)
        have hlen := hq.length_le
        rw [List.length_dropLast]
        omega
      · exact absurd (List.prefix_append _ _) hopen
    have hq' : q <+: doneEvent.dropLast :=
      List.prefix_of_prefix_length_le hq
        ((List.dropLast_prefix doneEvent).trans (List.prefix_append _ _)) hle
    apply not_infix_events hquiet
    intro h
    exact absurd (h.trans hq'.isInfix) (by decide)

/-- A stream of the mock backend, cut into chunks anywhere and broken off anywhere, counts as ok
exactly if `data: [DONE]` got through and the client saw no error; its first byte is timed. -/
theorem stream_verdict {status : ℕ} (hstatus : 200 ≤ status ∧ status < 300) (ended : Duration)
    {model : String} {tokens : ℕ} (hquiet : Quiet model tokens) {chunks : List Chunk}
    (hcut : stream (pieces chunks) <+: streamBody model tokens) :
    oneRequest true (some ⟨status, chunks, ended⟩)
      = if ¬ chunks.all fun chunk => chunk.bytes.isOk then .transport
        else if events model tokens ++ doneEvent <+: stream (pieces chunks) then
          .ok (firstByte (pieces chunks)) ended
        else .truncated := by
  by_cases hok : chunks.all fun chunk => chunk.bytes.isOk
  · rw [if_neg (not_not.mpr hok)]
    have htruncated := truncated_iff hstatus ended (pieces chunks)
    rw [body_pieces hok] at htruncated
    by_cases hdone : events model tokens ++ doneEvent <+: stream (pieces chunks)
    · rw [if_pos hdone]
      obtain ⟨after, hafter⟩ := hdone
      have hnear : DoneNearEnd (stream (pieces chunks)) := by
        refine ⟨events model tokens ++ ascii "data: ", after, ?_, ?_⟩
        · rw [← hafter, doneEvent, event, ← List.append_assoc]
        · have hlen := hcut.length_le
          rw [streamBody_eq, ← hafter] at hlen
          simp only [List.length_append, List.length_cons, List.length_nil] at hlen
          omega
      rw [oneRequest_stream hstatus] at htruncated ⊢
      rcases drainChunks_eq ended (pieces chunks) none [] with h | h
      · rw [body_pieces hok] at h
        exact absurd hnear (htruncated.mp h)
      · rw [body_pieces hok] at h
        rw [h, Option.none_or]
    · rw [if_neg hdone, htruncated]
      rintro ⟨before, after, heq, -⟩
      exact not_infix_of_cut hquiet hcut hdone ⟨before, after, heq.symm⟩
  · rw [if_pos hok, oneRequest_stream hstatus, drainChunks_error hok]

end Loadgen

/-! ## All parties -/

open StreamResponse in
/-- The gateway passes a stream of the mock backend on as it is, errors included, times its first
chunk and charges the frames whose lines it got. A client gets what was passed on in chunks of its
own, as far as its connection holds; it counts the request as ok exactly if `data: [DONE]` got to it
and no error did, and then each token has been charged. -/
theorem stream_end_to_end {E : Type} (lease : Lease) {status : ℕ}
    (hstatus : 200 ≤ status ∧ status < 300) (ended : Loadgen.Duration) {model : String}
    {tokens : ℕ} (hfits : Fits model tokens) (hquiet : Loadgen.Quiet model tokens)
    (chunks : List (ℕ × Except E (List UInt8)))
    (hcut : ((delivered chunks).map Prod.snd).flatten <+: streamBody model tokens)
    (received : List Loadgen.Chunk)
    (hreceived : Loadgen.stream (Loadgen.pieces received)
      <+: (((new lease).observeAll chunks).1.filterMap bytes?).flatten) :
    let (passed, p) := (new lease).observeAll chunks
    let verdict := Loadgen.oneRequest true (some ⟨status, received, ended⟩)
    passed = chunks.map Prod.snd ∧
    p.ttft = ((delivered chunks).head?.map Prod.fst).toList ∧
    p.lease = lease.recordTokens ((List.range tokens).countP fun k =>
      MockBackend.sent model k <+: (passed.filterMap bytes?).flatten).toUInt64 ∧
    verdict = (if ¬ received.all fun chunk => chunk.bytes.isOk then .transport
      else if events model tokens ++ doneEvent <+: Loadgen.stream (Loadgen.pieces received) then
        .ok (Loadgen.firstByte (Loadgen.pieces received)) ended
      else .truncated) ∧
    (∀ ttft e2e, verdict = .ok ttft e2e → p.lease = lease.recordTokens tokens.toUInt64) := by
  rw [observeAll_eq] at hreceived ⊢
  have hbytes : (delivered chunks).map Prod.snd = (chunks.map Prod.snd).filterMap bytes? := by
    rw [delivered, List.map_filterMap, List.filterMap_map]
    apply List.filterMap_congr
    intro chunk _
    cases hb : bytes? chunk.2 <;> simp [hb]
  rw [← hbytes] at hreceived
  have hcharged : ((new lease).frames.feedAll ((delivered chunks).map Prod.snd)).1
      = (List.range tokens).countP fun k =>
        MockBackend.sent model k <+: ((delivered chunks).map Prod.snd).flatten :=
    FrameCounter.feedAll_cut hfits hcut
  have hverdict := Loadgen.stream_verdict hstatus ended hquiet (hreceived.trans hcut)
  refine ⟨rfl, rfl, ?_, hverdict, ?_⟩
  · rw [hcharged, ← hbytes]
    rfl
  · intro ttft e2e hok
    rw [hverdict] at hok
    split at hok
    · exact absurd hok (by simp)
    · split at hok
      · rename_i hdone
        have hevents := (List.prefix_append _ _).trans (hdone.trans hreceived)
        rw [hcharged, countP_sent model tokens hevents]
        rfl
      · exact absurd hok (by simp)

open StreamResponse in
/-- A reply of two tokens that comes in two chunks: one client gets it in one piece, another one
loses its connection before the end. Both are charged. -/
theorem stream_end_to_end_two :
    let chunks : List (ℕ × Except Unit (List UInt8)) :=
      [(200, .ok ((streamBody "m" 2).take 150)), (220, .ok ((streamBody "m" 2).drop 150))]
    let received : List Loadgen.Chunk := [⟨205, .ok []⟩, ⟨225, .ok (streamBody "m" 2)⟩]
    let broken : List Loadgen.Chunk := [⟨205, .ok ((streamBody "m" 2).take 80)⟩, ⟨210, .error ()⟩]
    ((new ⟨16, 0⟩).observeAll chunks).2.ttft = [200] ∧
    ((new ⟨16, 0⟩).observeAll chunks).2.lease.used = 2 ∧
    Loadgen.oneRequest true (some ⟨200, received, 230⟩) = .ok (some 225) 230 ∧
    Loadgen.oneRequest true (some ⟨200, broken, 230⟩) = .transport := by
  intro chunks received broken
  have hstatus : 200 ≤ 200 ∧ 200 < 300 := by decide
  have hfits : Fits "m" 2 := by decide +kernel
  have hquiet : Loadgen.Quiet "m" 2 := by decide +kernel
  obtain ⟨-, httft, -, hverdict, hcharged⟩ := stream_end_to_end ⟨16, 0⟩ hstatus 230 hfits hquiet
    chunks (by decide +kernel) received (by decide +kernel)
  obtain ⟨-, -, -, hbroken, -⟩ := stream_end_to_end ⟨16, 0⟩ hstatus 230 hfits hquiet chunks
    (by decide +kernel) broken (by decide +kernel)
  have hok := hverdict.trans ((if_neg (by decide)).trans (if_pos (by decide +kernel)))
  exact ⟨httft, congrArg Lease.used (hcharged _ _ hok), hok, hbroken.trans (if_pos (by decide))⟩

end OxideGate
