import ContainerRs.Lib.ResponseDecoder

/-!
# Accumulating a Response

`ResponseAccumulator` (http_decode.rs) collects one response of a connection: `feed` hands the
bytes that have arrived to the decoder, skips interim responses, and takes out what has
arrived of the final response's body, within a limit that cuts the body off, refuses it, or is
left to the decoder. The decoder is a parameter.

Between two calls nothing that has arrived is left in the decoder, so that the bytes alone
decide what has been collected, however they are cut.

## Main results

* `drainBody_spec`: the loop over the body collects what the limit lets through.
* `feed_spec`: one call of `feed`.
* `feedAll_spec`: all calls up to the end of the connection.
* `responseAccumulator_exact`: the response with exactly its body, for every limit, framing and
  way to cut the bytes, or an error if the connection ends too early.
-/

namespace ContainerRs

open Checked Http

/-! ### The accumulator -/

/-- The limit on the body that is collected. -/
inductive BodyLimit
  | unlimited
  | truncate (max : ℕ)
  | error (max : ℕ)
  deriving DecidableEq, Repr

/-- The limit that is set for the decoder; it keeps its own one where nothing is limited here. -/
def BodyLimit.maxBodySize {δ : Type} (D : ResponseDecoder δ) : BodyLimit → ℕ
  | .error max => max
  | .truncate _ => u64Max
  | .unlimited => D.defaultMaxBodySize

/-- A response that is being collected. -/
structure ResponseAccumulator (δ : Type) where
  decoder : δ
  requestMethod : List Char
  head : Option ResponseHead
  bodyKind : Option BodyKind
  bodyBuf : Bytes
  bodyDone : Bool
  bodyLimit : BodyLimit

/-- A response that has been collected. -/
structure DecodedResponse where
  head : ResponseHead
  body : Bytes
  deriving DecidableEq, Repr

/-- Append a piece of the body as far as the limit lets it through. -/
def pushBody (limit : BodyLimit) (bodyBuf data : Bytes) : Except String Bytes :=
  match limit with
  | .unlimited => .ok (bodyBuf ++ data)
  | .truncate max => .ok (bodyBuf ++ data.take (min data.length (max - bodyBuf.length)))
  | .error max =>
      if Checked.saturatingAdd usizeMax bodyBuf.length data.length > max then
        .error s!"output exceeds {max} bytes limit"
      else .ok (bodyBuf ++ data)

/-- An interim response. -/
def IsInterim (head : ResponseHead) : Prop := 100 ≤ head.statusCode ∧ head.statusCode < 200

instance (head : ResponseHead) : Decidable (IsInterim head) :=
  inferInstanceAs (Decidable (_ ∧ _))

namespace ResponseAccumulator

variable {δ : Type} (D : ResponseDecoder δ)

/-- An accumulator for the response to a request. -/
def new (method : List Char) (bodyLimit : BodyLimit) : ResponseAccumulator δ where
  decoder := D.setRequestMethod (D.withLimits (bodyLimit.maxBodySize D)) method
  requestMethod := method
  head := none
  bodyKind := none
  bodyBuf := []
  bodyDone := false
  bodyLimit := bodyLimit

/-- Collect what has arrived of the body. -/
def drainBody (acc : ResponseAccumulator δ) : Except String (ResponseAccumulator δ) := do
  let (done, bodyBuf, decoder) ←
    drain D true (pushBody acc.bodyLimit) id acc.bodyBuf acc.decoder
  .ok { acc with bodyBuf := bodyBuf, decoder := decoder, bodyDone := acc.bodyDone || done }

/-- The part of `feed` behind the head of the final response. -/
def feedBody (eof : Bool) (acc : ResponseAccumulator δ) :
    Except String (Bool × ResponseAccumulator δ) :=
  match acc.bodyKind with
  | some .none | some .tunnel => .ok (true, acc)
  | some .closeDelimited => do
      let acc ← acc.drainBody D
      if acc.bodyDone then .ok (true, acc)
      else if eof then .ok (true, { acc with bodyDone := true })
      else .ok (false, acc)
  | some (.contentLength _) | some .chunked => do
      let acc ← acc.drainBody D
      if acc.bodyDone then .ok (true, acc)
      else if eof then .error "connection closed before body complete"
      else .ok (false, acc)
  | none => .error "missing body kind after headers"
  | some .other => .error "unsupported body kind"

/-- The loop of `feed`: heads of interim responses are dropped. -/
def feedLoop (eof : Bool) (acc : ResponseAccumulator δ) :
    Except String (Bool × ResponseAccumulator δ) :=
  if acc.head.isNone then
    match _hdecode : D.decodeHeaders acc.decoder with
    | .error e => .error e
    | .ok (some (head, kind), decoder) =>
        if IsInterim head then
          feedLoop eof { acc with
            head := none
            bodyKind := none
            bodyBuf := []
            bodyDone := false
            decoder := D.setRequestMethod decoder acc.requestMethod }
        else
          feedBody D eof { acc with head := some head, bodyKind := some kind, decoder := decoder }
    | .ok (none, decoder) =>
        if eof then .error "connection closed before headers complete"
        else .ok (false, { acc with decoder := decoder })
  else feedBody D eof acc
termination_by D.pendingHeads acc.decoder
decreasing_by
  exact (D.pendingHeads_setRequestMethod _ _).trans_lt (D.decodeHeaders_lt _hdecode)

/-- Hand over bytes that have been read, none at the end of the connection; says whether the
response is complete. -/
def feed (acc : ResponseAccumulator δ) (bytes : Bytes) :
    Except String (Bool × ResponseAccumulator δ) :=
  if bytes.length = 0 then
    feedLoop D true { acc with decoder := D.markEof (D.advanceBuf acc.decoder []) }
  else feedLoop D false { acc with decoder := D.advanceBuf acc.decoder bytes }

/-- The response that has been collected. -/
def finish (acc : ResponseAccumulator δ) : Except String DecodedResponse :=
  match acc.head with
  | none => .error "no response head"
  | some head => .ok ⟨head, acc.bodyBuf⟩

/-- Call `feed` with one chunk after the other and at the end of the connection, until the
response is complete. -/
def feedAll (acc : ResponseAccumulator δ) : List Bytes →
    Except String (Bool × ResponseAccumulator δ)
  | [] => feed D acc []
  | chunk :: chunks => do
      let (done, acc) ← feed D acc chunk
      if done then .ok (true, acc) else feedAll acc chunks

/-- What comes out of a connection on which the chunks arrive. -/
def outcome (acc : ResponseAccumulator δ) (chunks : List Bytes) :
    Except String DecodedResponse := do
  let (_, acc) ← feedAll D acc chunks
  acc.finish

/-- The chunks can be handed over: none is empty, which would be the end of the connection, and
each one fits into the buffer that is offered for it. -/
def Fits (acc : ResponseAccumulator δ) : List Bytes → Prop
  | [] => True
  | chunk :: chunks => chunk ≠ [] ∧ chunk.length ≤ D.availableBuf acc.decoder ∧
      ∀ acc', feed D acc chunk = .ok (false, acc') → Fits acc' chunks

end ResponseAccumulator

/-! ### What the limit lets through -/

/-- What a limit lets through of a body, if it does not refuse it. -/
def BodyLimit.collected : BodyLimit → Bytes → Option Bytes
  | .unlimited, body => some body
  | .truncate max, body => some (body.take max)
  | .error max, body => if body.length ≤ max then some body else none

/-- A body is refused if its front is. A body that is too long at its front is too
long. -/
theorem BodyLimit.collected_none_mono {limit : BodyLimit} {front body : Bytes}
    (hfront : front <+: body) (h : limit.collected front = none) : limit.collected body = none := by
  have hle := hfront.length_le
  cases limit with
  | unlimited => exact absurd h (by simp [collected])
  | truncate max => exact absurd h (by simp [collected])
  | error max =>
      rw [collected] at h ⊢
      split at h
      · exact absurd h (by simp)
      · exact if_neg (by omega)

/-- What has been collected of a body, or an error, is what the limit says. -/
def BodyLimit.Allows (limit : BodyLimit) (body : Bytes) : Except String Bytes → Prop
  | .ok bodyBuf => limit.collected body = some bodyBuf
  | .error _ => limit.collected body = none

/-- A piece that is pushed behind the front of a body. One case for each limit: everything
is collected, or the first bytes, or all bytes unless they are too many. -/
theorem pushBody_allows {limit : BodyLimit} {front buf data : Bytes}
    (hbuf : limit.collected front = some buf) (hsize : (front ++ data).length ≤ usizeMax) :
    limit.Allows (front ++ data) (pushBody limit buf data) := by
  cases limit with
  | unlimited =>
      obtain rfl := Option.some.inj hbuf
      rfl
  | truncate max =>
      obtain rfl := Option.some.inj hbuf
      simp only [pushBody, BodyLimit.Allows, BodyLimit.collected, Option.some.injEq,
        List.length_take]
      rw [List.take_append]
      congr 1
      rw [List.take_eq_take_iff]
      omega
  | error max =>
      rw [BodyLimit.collected] at hbuf
      split at hbuf
      · obtain rfl := Option.some.inj hbuf
        have hadd : Checked.saturatingAdd usizeMax front.length data.length =
            (front ++ data).length := by
          rw [List.length_append] at hsize ⊢
          exact Nat.min_eq_left hsize
        by_cases hover : (front ++ data).length > max
        · rw [pushBody, hadd, if_pos hover]
          exact if_neg (by omega)
        · rw [pushBody, hadd, if_neg hover]
          exact if_pos (by omega)
      · exact absurd hbuf (by simp)

/-- **Pieces that are pushed one after the other** behind the front of a body. By
induction on the pieces: the first that is refused ends it, and then the whole is refused
as well. -/
theorem foldlM_pushBody_allows {limit : BodyLimit} {pieces : List Bytes} {front buf : Bytes}
    (hbuf : limit.collected front = some buf)
    (hsize : (front ++ pieces.flatten).length ≤ usizeMax) :
    limit.Allows (front ++ pieces.flatten) (pieces.foldlM (pushBody limit) buf) := by
  induction pieces generalizing front buf with
  | nil =>
      rw [List.flatten_nil, List.append_nil]
      exact hbuf
  | cons data pieces ih =>
      rw [List.flatten_cons, ← List.append_assoc] at hsize ⊢
      have hpiece : (front ++ data).length ≤ usizeMax := by
        rw [List.length_append] at hsize
        omega
      have hpush := pushBody_allows hbuf hpiece
      rw [List.foldlM_cons]
      cases hdata : pushBody limit buf data with
      | ok buf' =>
          rw [hdata] at hpush
          exact ih hpush hsize
      | error e =>
          rw [hdata] at hpush
          exact BodyLimit.collected_none_mono (List.prefix_append _ _) hpush

/-! ### One response -/

/-- What the bytes of one response hold: interim responses, the head of the final one, and a
body, which is complete if its framing says where it ends. -/
structure Response (w : Wire) where
  interim : List ResponseHead
  head : ResponseHead
  kind : BodyKind
  bytes : Bytes
  heads_eq : w.heads bytes = interim.map (fun head => (head, .none)) ++ [(head, kind)]
  isInterim : ∀ head ∈ interim, IsInterim head
  not_isInterim : ¬ IsInterim head
  known : kind ≠ .other
  acceptable : w.acceptable bytes
  complete : kind.SelfDelimited → w.complete interim.length bytes
  body_of_tunnel : kind = .tunnel → w.body interim.length bytes = []

namespace Response

variable {w : Wire} (R : Response w)

/-- The number of responses before the final one. -/
def index : ℕ := R.interim.length

/-- The body of the response. -/
def body : Bytes := w.body R.index R.bytes

/-- The bytes do not hold the final head, or a body that is not complete although its framing
says where it ends. -/
def EndsEarly (received : Bytes) : Prop :=
  (w.heads received).length ≤ R.index ∨ R.kind.SelfDelimited ∧ ¬ w.complete R.index received

variable {R} {received : Bytes}

/-- The heads that a front of the bytes holds. They are some of the heads of the whole
response, in the same order: interim ones, and then the final one. -/
theorem head_of_front (hfront : received <+: R.bytes) {i : ℕ} {head : ResponseHead}
    {kind : BodyKind} (h : (w.heads received)[i]? = some (head, kind)) :
    (i < R.index ∧ IsInterim head ∧ kind = .none) ∨
      (i = R.index ∧ head = R.head ∧ kind = R.kind) := by
  have hwhole := Wire.head_mono hfront h
  rw [R.heads_eq, List.getElem?_append, List.length_map] at hwhole
  split at hwhole
  · next hlt =>
      rw [List.getElem?_map, Option.map_eq_some_iff] at hwhole
      obtain ⟨head', hhead', heq⟩ := hwhole
      obtain ⟨rfl, rfl⟩ := Prod.mk.inj heq
      exact .inl ⟨hlt, R.isInterim _ (List.mem_of_getElem? hhead'), rfl⟩
  · next hge =>
      obtain ⟨hlt, heq⟩ := List.getElem?_eq_some_iff.mp hwhole
      rw [List.length_singleton] at hlt
      obtain ⟨rfl, rfl⟩ := Prod.mk.inj heq
      exact .inr ⟨by rw [index]; omega, by simp, by simp⟩

/-- A front that holds more heads than there are interim responses holds the final one. -/
theorem head_of_lt (hfront : received <+: R.bytes) (h : R.index < (w.heads received).length) :
    (w.heads received)[R.index]? = some (R.head, R.kind) := by
  obtain ⟨⟨head, kind⟩, hget⟩ : ∃ x, (w.heads received)[R.index]? = some x :=
    ⟨_, List.getElem?_eq_getElem h⟩
  rcases R.head_of_front hfront hget with ⟨hlt, -⟩ | ⟨-, rfl, rfl⟩
  · exact absurd hlt (Nat.lt_irrefl _)
  · exact hget

/-- Before the final response no head that has been taken has a body. -/
theorem bodiless (hfront : received <+: R.bytes) {c : Http.Cursor}
    (hreceived : c.received = received) (htaken : c.taken ≤ R.index) : w.Bodiless c := by
  intro head hhead
  obtain ⟨i, hi⟩ := List.mem_iff_getElem?.mp hhead
  obtain ⟨hlt, -⟩ := List.getElem?_eq_some_iff.mp hi
  rw [List.length_take] at hlt
  rw [List.getElem?_take_of_lt (by omega), hreceived] at hi
  rcases R.head_of_front hfront hi with ⟨-, -, hkind⟩ | ⟨heq, -⟩
  · exact hkind
  · omega

/-- A front does not hold more than the body. -/
theorem length_body_le (hfront : received <+: R.bytes) :
    (w.body R.index received).length ≤ u64Max :=
  w.length_body_le (w.acceptable_mono hfront R.acceptable)

end Response

/-! ### One call of feed -/

namespace ResponseAccumulator

variable {δ : Type} {D : ResponseDecoder δ} {w : Wire} {method : List Char}
  {Tracks : δ → Http.Cursor → Prop} {R : Response w} {limit : BodyLimit}

/-- The accumulator collects the response, of which the front that the cursor says has
arrived. -/
structure Collects (D : ResponseDecoder δ) (method : List Char) (R : Response w) (limit : BodyLimit)
    (acc : ResponseAccumulator δ) (c : Http.Cursor) : Prop where
  requestMethod : acc.requestMethod = method
  bodyLimit : acc.bodyLimit = limit
  bodyDone : acc.bodyDone = false
  maxBodySize : c.maxBodySize = limit.maxBodySize D
  front : c.received <+: R.bytes

/-- The final head has not been taken yet. -/
structure Heading (R : Response w) (acc : ResponseAccumulator δ) (c : Http.Cursor) : Prop where
  head : acc.head = none
  bodyBuf : acc.bodyBuf = []
  method : c.method = some acc.requestMethod
  taken : c.taken ≤ R.index

/-- The body is being taken out. -/
structure Draining (R : Response w) (acc : ResponseAccumulator δ) (c : Http.Cursor) : Prop where
  head : acc.head = some R.head
  bodyKind : acc.bodyKind = some R.kind
  reading : w.Reading c R.index R.kind
  kind_ne : R.kind ≠ .none
  consumed : c.consumed ≤ (w.body R.index c.received).length
  bodyBuf : acc.bodyLimit.collected ((w.body R.index c.received).take c.consumed) =
    some acc.bodyBuf

/-- Why a call fails. -/
inductive Failure (D : ResponseDecoder δ) (R : Response w) (limit : BodyLimit) (eof : Bool)
    (received : Bytes) : Prop
  | noHead (heof : eof = true) (h : (w.heads received).length ≤ R.index) :
      Failure D R limit eof received
  | cutShort (heof : eof = true) (hkind : R.kind.SelfDelimited)
      (h : ¬ w.complete R.index received) : Failure D R limit eof received
  | refused (h : limit.collected (w.body R.index received) = none) :
      Failure D R limit eof received
  | tooLarge (hlimit : limit = .unlimited)
      (h : D.defaultMaxBodySize < (w.body R.index received).length) :
      Failure D R limit eof received
  | declared {n : ℕ} (hkind : R.kind = .contentLength n) (h : limit.maxBodySize D < n) :
      Failure D R limit eof received

/-- How a call ends that has been handed the bytes up to `c.received`. -/
inductive Fed (D : ResponseDecoder δ) (Tracks : δ → Http.Cursor → Prop) (method : List Char)
    (R : Response w) (limit : BodyLimit) (eof : Bool) (received : Bytes) :
    Except String (Bool × ResponseAccumulator δ) → Prop
  | completed {acc : ResponseAccumulator δ} (hhead : acc.head = some R.head)
      (hlt : R.index < (w.heads received).length)
      (hcomplete : R.kind.SelfDelimited → w.complete R.index received)
      (hclose : R.kind = .closeDelimited → eof = true)
      (hbody : limit.collected (w.body R.index received) = some acc.bodyBuf) :
      Fed D Tracks method R limit eof received (.ok (true, acc))
  | waiting {acc : ResponseAccumulator δ} {c : Http.Cursor} (heof : eof = false)
      (htracks : Tracks acc.decoder c) (hreceived : c.received = received) (hopen : c.eof = false)
      (hcollects : Collects D method R limit acc c) (hphase : Heading R acc c ∨ Draining R acc c) :
      Fed D Tracks method R limit eof received (.ok (false, acc))
  | failed {e : String} (h : Failure D R limit eof received) :
      Fed D Tracks method R limit eof received (.error e)

/-- A body above the limit of the decoder is refused, or there is no other limit. -/
theorem Failure.of_maxBodySize {eof : Bool} {received : Bytes} (hfront : received <+: R.bytes)
    (h : limit.maxBodySize D < (w.body R.index received).length) :
    Failure D R limit eof received := by
  cases limit with
  | unlimited => exact .tooLarge rfl h
  | truncate max => exact absurd h (Nat.not_lt.mpr (R.length_body_le hfront))
  | error max => exact .refused (if_neg (Nat.not_le.mpr h))

/-- **The loop over the body** collects all that has arrived, as far as the limit lets it
through. -/
theorem drainBody_spec (S : Sound D w method Tracks) {acc : ResponseAccumulator δ} {c : Http.Cursor}
    (htracks : Tracks acc.decoder c) (hcollects : Collects D method R limit acc c)
    (hdraining : Draining R acc c) :
    (∃ acc', acc.drainBody D = .ok acc' ∧ acc'.head = some R.head ∧
      limit.collected (w.body R.index c.received) = some acc'.bodyBuf ∧
      (acc'.bodyDone = true ∧ w.Ended R.kind R.index c ∨
        acc'.bodyDone = false ∧ ¬ w.Ended R.kind R.index c ∧
          ∃ c', Tracks acc'.decoder c' ∧ c'.received = c.received ∧ c'.eof = c.eof ∧
            Collects D method R limit acc' c' ∧ Draining R acc' c')) ∨
    ∃ e, acc.drainBody D = .error e ∧ ∀ eof, Failure D R limit eof c.received := by
  have hfront := hcollects.front
  have hbuf := hdraining.bodyBuf
  have hlimit := hcollects.bodyLimit
  have hdrained := drain_spec true (pushBody acc.bodyLimit) id S (s := acc.bodyBuf) htracks
    hdraining.reading
  have hallows : ∀ pieces : List Bytes,
      pieces.flatten <+: (w.body R.index c.received).drop c.consumed →
      limit.Allows ((w.body R.index c.received).take c.consumed ++ pieces.flatten)
        (pieces.foldlM (pushBody acc.bodyLimit) acc.bodyBuf) ∧
      (w.body R.index c.received).take c.consumed ++ pieces.flatten <+:
        w.body R.index c.received := by
    intro pieces hpieces
    have hbody : (w.body R.index c.received).take c.consumed ++ pieces.flatten <+:
        w.body R.index c.received := by
      conv_rhs => rw [← List.take_append_drop c.consumed (w.body R.index c.received)]
      exact (List.prefix_append_right_inj _).mpr hpieces
    rw [hlimit] at hbuf ⊢
    exact ⟨foldlM_pushBody_allows hbuf (hbody.length_le.trans (R.length_body_le hfront)), hbody⟩
  have hwhole : ∀ {pieces : List Bytes} {bodyBuf : Bytes}, Rest w c R.index pieces →
      pieces.foldlM (pushBody acc.bodyLimit) acc.bodyBuf = .ok bodyBuf →
      limit.collected (w.body R.index c.received) = some bodyBuf := by
    intro pieces bodyBuf hrest hpush
    have hall := (hallows pieces (hrest.eq_drop ▸ List.prefix_refl _)).1
    rwa [hpush, hrest.eq_drop, List.take_append_drop] at hall
  rw [drainBody]
  generalize drain D true (pushBody acc.bodyLimit) id acc.bodyBuf acc.decoder = result at hdrained
  cases hdrained with
  | done pieces hrest hpush htracks' hended =>
      exact .inl ⟨_, rfl, hdraining.head, hwhole hrest hpush, .inl ⟨by simp, hended⟩⟩
  | @starved pieces bodyBuf decoder hrest hpush htracks' hended hacceptable hroom =>
      refine .inl ⟨_, rfl, hdraining.head, hwhole hrest hpush,
        .inr ⟨by simp [hcollects.bodyDone], hended, _, htracks', rfl, rfl, ?_, ?_⟩⟩
      · exact ⟨hcollects.requestMethod, hlimit, by simp [hcollects.bodyDone],
          hcollects.maxBodySize, hfront⟩
      · refine ⟨hdraining.head, hdraining.bodyKind,
          ⟨hdraining.reading.taken, hdraining.reading.head, hdraining.reading.framed⟩,
          hdraining.kind_ne, Nat.le_of_eq hrest.length_eq, ?_⟩
        rw [show (c.consume pieces.flatten.length).consumed =
          (w.body R.index c.received).length from hrest.length_eq]
        simp only [Http.Cursor.consume, List.take_length]
        rw [hlimit]
        exact hwhole hrest hpush
  | @refused pieces e hpieces hpush =>
      refine .inr ⟨_, rfl, fun eof => .refused ?_⟩
      obtain ⟨hall, hbody⟩ := hallows pieces hpieces
      rw [hpush] at hall
      exact BodyLimit.collected_none_mono hbody hall
  | failed herror =>
      refine .inr ⟨_, rfl, fun eof => .of_maxBodySize hfront ?_⟩
      rw [← hcollects.maxBodySize]
      exact herror (w.acceptable_mono hfront R.acceptable)

/-- The call behind the head of the final response. A framing that says where the body ends is at
its end exactly when the body is complete. -/
theorem feedBody_spec (S : Sound D w method Tracks) {acc : ResponseAccumulator δ} {c : Http.Cursor}
    (htracks : Tracks acc.decoder c) (hcollects : Collects D method R limit acc c)
    (hdraining : Draining R acc c) :
    Fed D Tracks method R limit c.eof c.received (feedBody D c.eof acc) := by
  have hlt : R.index < (w.heads c.received).length := by
    obtain ⟨head, hhead⟩ := hdraining.reading.head
    exact (List.getElem?_eq_some_iff.mp hhead).1
  have hself : R.kind.SelfDelimited → ∀ acc', acc.drainBody D = .ok acc' →
      Fed D Tracks method R limit c.eof c.received
        (if acc'.bodyDone then .ok (true, acc')
        else if c.eof then .error "connection closed before body complete"
        else .ok (false, acc')) := by
    intro hkind acc' hdrain
    have hended : w.Ended R.kind R.index c ↔ w.complete R.index c.received := by
      revert hkind
      cases R.kind <;> simp [BodyKind.SelfDelimited, Wire.Ended]
    rcases drainBody_spec S htracks hcollects hdraining with
      ⟨acc'', hacc, hhead, hbody, hphase⟩ | ⟨e, he, -⟩
    · obtain rfl := Except.ok.inj (hacc.symm.trans hdrain)
      rcases hphase with ⟨hdone, hend⟩ | ⟨hdone, hend, c', htracks', hreceived, heof, hc, hd⟩
      · rw [if_pos hdone]
        refine .completed hhead hlt (fun _ => hended.mp hend) ?_ hbody
        intro hclose
        rw [hclose] at hkind
        exact hkind.elim
      · rw [if_neg (by simp [hdone])]
        split
        · next h => exact .failed (.cutShort h hkind (mt hended.mpr hend))
        · next h =>
            have hopen : c.eof = false := by simpa using h
            exact .waiting hopen htracks' hreceived (heof.trans hopen) hc (.inr hd)
    · exact absurd (he.symm.trans hdrain) (by simp)
  have hfail : ∀ e, acc.drainBody D = .error e → Failure D R limit c.eof c.received := by
    intro e hdrain
    rcases drainBody_spec S htracks hcollects hdraining with ⟨acc', hacc, -⟩ | ⟨e', -, hfailure⟩
    · exact absurd (hacc.symm.trans hdrain) (by simp)
    · exact hfailure c.eof
  rw [feedBody, hdraining.bodyKind]
  cases hkind : R.kind with
  | contentLength n =>
      dsimp only
      cases hdrain : acc.drainBody D with
      | error e => exact .failed (hfail e hdrain)
      | ok acc' => exact hself (by rw [hkind]; trivial) acc' hdrain
  | chunked =>
      dsimp only
      cases hdrain : acc.drainBody D with
      | error e => exact .failed (hfail e hdrain)
      | ok acc' => exact hself (by rw [hkind]; trivial) acc' hdrain
  | closeDelimited =>
      dsimp only
      rcases drainBody_spec S htracks hcollects hdraining with
        ⟨acc', hacc, hhead, hbody, hphase⟩ | ⟨e, he, hfailure⟩
      · have hself' : R.kind.SelfDelimited → w.complete R.index c.received := by
          rw [hkind]
          exact False.elim
        rw [hacc]
        rcases hphase with ⟨hdone, hend⟩ | ⟨hdone, hend, c', htracks', hreceived, heof, hc, hd⟩
        · simp only [bind, Except.bind, hdone, if_true]
          exact .completed hhead hlt hself' (fun _ => by rwa [hkind] at hend) hbody
        · have hopen : c.eof = false := by
            rw [hkind] at hend
            simpa [Wire.Ended] using hend
          simp only [bind, Except.bind, hdone, hopen, Bool.false_eq_true, if_false]
          exact .waiting rfl htracks' hreceived (heof.trans hopen) hc (.inr hd)
      · rw [he]
        exact .failed (hfailure c.eof)
  | none => exact absurd hkind hdraining.kind_ne
  | tunnel =>
      have hframed := hdraining.reading.framed
      rw [hkind] at hframed
      exact hframed.elim
  | other => exact absurd hkind R.known

/-- Nothing is collected of a body without bytes. -/
theorem collected_nil (limit : BodyLimit) : limit.collected [] = some [] := by
  cases limit with
  | unlimited => rfl
  | truncate max => exact congrArg some List.take_nil
  | error max =>
      rw [BodyLimit.collected, List.length_nil]
      exact if_pos (Nat.zero_le max)

/-- The call that takes the head of the final response. A response without a body ends
with it; for any other one the body is read from its start. -/
theorem feedBody_of_head (S : Sound D w method Tracks) {acc : ResponseAccumulator δ}
    {c : Http.Cursor} {decoder : δ} (hcollects : Collects D method R limit acc c)
    (hheading : Heading R acc c)
    (hhead : (w.heads c.received)[R.index]? = some (R.head, R.kind)) (htaken : c.taken = R.index)
    (htracks : Tracks decoder (c.take R.kind)) :
    Fed D Tracks method R limit c.eof c.received (feedBody D c.eof
      { acc with head := some R.head, bodyKind := some R.kind, decoder := decoder }) := by
  have hlt : R.index < (w.heads c.received).length := (List.getElem?_eq_some_iff.mp hhead).1
  have hbodiless : R.kind = .none ∨ R.kind = .tunnel → limit.collected (w.body R.index c.received) =
      some acc.bodyBuf := by
    intro hkind
    have hempty : w.body R.index c.received = [] := by
      rcases hkind with hkind | hkind
      · exact w.body_of_none (hkind ▸ hhead)
      · exact List.prefix_nil.mp (R.body_of_tunnel hkind ▸ w.body_mono hcollects.front)
    rw [hempty, hheading.bodyBuf, collected_nil]
  have hself : R.kind = .none ∨ R.kind = .tunnel → R.kind.SelfDelimited →
      w.complete R.index c.received := by
    rintro (hkind | hkind) h <;> rw [hkind] at h <;> exact h.elim
  by_cases hkind : R.kind = .none ∨ R.kind = .tunnel
  · have hcompleted : Fed D Tracks method R limit c.eof c.received (.ok (true,
        { acc with head := some R.head, bodyKind := some R.kind, decoder := decoder })) :=
      .completed rfl hlt (hself hkind) (fun hclose => by simp [hclose] at hkind) (hbodiless hkind)
    rw [feedBody]
    rcases hkind with hkind | hkind <;> rw [hkind] at hcompleted ⊢ <;> exact hcompleted
  · rw [not_or] at hkind
    have hframed : R.kind.Framed := by
      have hknown := R.known
      revert hkind hknown
      cases R.kind <;> simp [BodyKind.Framed]
    refine feedBody_spec (c := c.take R.kind) S htracks ?_ ?_
    · exact ⟨hcollects.requestMethod, hcollects.bodyLimit, hcollects.bodyDone,
        hcollects.maxBodySize, hcollects.front⟩
    · refine ⟨rfl, rfl, ⟨congrArg (· + 1) htaken, ⟨R.head, hhead⟩, hframed⟩, hkind.1,
        Nat.zero_le _, ?_⟩
      rw [show (c.take R.kind).consumed = 0 from rfl, List.take_zero, hcollects.bodyLimit,
        collected_nil]
      exact congrArg some hheading.bodyBuf.symm

/-- **The loop of a call** that has been handed the bytes up to `c.received`. By strong
induction on the heads that the decoder has still to give: interim heads are passed over,
and behind the final one the body is read. -/
theorem feedLoop_spec (S : Sound D w method Tracks) {acc : ResponseAccumulator δ} {c : Http.Cursor}
    (htracks : Tracks acc.decoder c) (hcollects : Collects D method R limit acc c)
    (hphase : Heading R acc c ∨ Draining R acc c) :
    Fed D Tracks method R limit c.eof c.received (feedLoop D c.eof acc) := by
  induction hn : D.pendingHeads acc.decoder using Nat.strong_induction_on generalizing acc c with
  | _ n ih =>
      rcases hphase with hheading | hdraining
      · have hfront := hcollects.front
        have hmethod : c.method = some method := by rw [hheading.method, hcollects.requestMethod]
        have hbodiless := R.bodiless hfront rfl hheading.taken
        rw [feedLoop, if_pos (by rw [hheading.head]; rfl)]
        split
        · next e hdecode =>
            rcases S.decodeHeaders_error htracks hmethod hbodiless hdecode
              (w.acceptable_mono hfront R.acceptable) with ⟨heof, hnone⟩ | ⟨head, m, hhead, hmax⟩
            · exact .failed (.noHead heof
                ((List.getElem?_eq_none_iff.mp hnone).trans hheading.taken))
            · rcases R.head_of_front hfront hhead with ⟨-, -, hkind⟩ | ⟨-, -, hkind⟩
              · exact absurd hkind (by simp)
              · exact .failed (.declared hkind.symm (hcollects.maxBodySize ▸ hmax))
        · next head kind decoder hdecode =>
            obtain ⟨hhead, htracks'⟩ := S.decodeHeaders_some htracks hmethod hbodiless hdecode
            rcases R.head_of_front hfront hhead with ⟨hlt, hinterim, rfl⟩ | ⟨htaken, rfl, rfl⟩
            · rw [if_pos hinterim]
              refine ih (c := { c.take .none with method := some acc.requestMethod }) _ ?_
                (S.setRequestMethod acc.requestMethod htracks') ?_ (.inl ?_) rfl
              · exact hn ▸ (D.pendingHeads_setRequestMethod _ _).trans_lt
                  (D.decodeHeaders_lt hdecode)
              · exact ⟨hcollects.requestMethod, hcollects.bodyLimit, rfl,
                  hcollects.maxBodySize, hfront⟩
              · exact ⟨rfl, rfl, rfl, hlt⟩
            · rw [if_neg R.not_isInterim]
              exact feedBody_of_head S hcollects hheading (htaken ▸ hhead) htaken htracks'
        · next decoder hdecode =>
            obtain ⟨hnone, htracks', -⟩ := S.decodeHeaders_none htracks hmethod hbodiless hdecode
            split
            · next heof =>
                exact .failed (.noHead heof
                  ((List.getElem?_eq_none_iff.mp hnone).trans hheading.taken))
            · next heof =>
                have hopen : c.eof = false := by simpa using heof
                exact .waiting hopen htracks' rfl hopen
                  ⟨hcollects.requestMethod, hcollects.bodyLimit, hcollects.bodyDone,
                    hcollects.maxBodySize, hfront⟩
                  (.inl ⟨hheading.head, hheading.bodyBuf, hheading.method, hheading.taken⟩)
      · rw [feedLoop, if_neg (by rw [hdraining.head]; simp)]
        exact feedBody_spec S htracks hcollects hdraining

/-- More bytes leave what has been collected as it is. Both phases speak of what has been
taken and consumed, which is the same. -/
theorem phase_receive {acc acc' : ResponseAccumulator δ} {c c' : Http.Cursor}
    (hphase : Heading R acc c ∨ Draining R acc c) (hfront : c.received <+: c'.received)
    (hmethod : c'.method = c.method) (htaken : c'.taken = c.taken)
    (hconsumed : c'.consumed = c.consumed) {decoder : δ}
    (hacc : acc' = { acc with decoder := decoder }) : Heading R acc' c' ∨ Draining R acc' c' := by
  subst hacc
  rcases hphase with h | h
  · exact .inl ⟨h.head, h.bodyBuf, hmethod.trans h.method, htaken ▸ h.taken⟩
  · obtain ⟨head, hhead⟩ := h.reading.head
    obtain ⟨back, hback⟩ := w.body_mono (i := R.index) hfront
    refine .inr ⟨h.head, h.bodyKind, ⟨htaken.trans h.reading.taken, ⟨head, Wire.head_mono hfront
      hhead⟩, h.reading.framed⟩, h.kind_ne, ?_, ?_⟩
    · rw [hconsumed, ← hback, List.length_append]
      exact h.consumed.trans (Nat.le_add_right _ _)
    · rw [hconsumed, ← hback, List.take_append_of_le_length h.consumed]
      exact h.bodyBuf

/-- **One call of `feed`.** An empty call marks the end of the connection; in either case
the loop does the rest. -/
theorem feed_spec (S : Sound D w method Tracks) {acc : ResponseAccumulator δ} {c : Http.Cursor}
    (bytes : Bytes) (htracks : Tracks acc.decoder c) (hopen : c.eof = false)
    (hcollects : Collects D method R limit acc c) (hphase : Heading R acc c ∨ Draining R acc c)
    (hfront : c.received ++ bytes <+: R.bytes) (hroom : bytes.length ≤ D.availableBuf acc.decoder) :
    Fed D Tracks method R limit bytes.isEmpty (c.received ++ bytes) (feed D acc bytes) := by
  have hreceive := S.advanceBuf htracks (fun h => absurd h (by simp [hopen])) hroom
  have hcollects' : ∀ (decoder : δ) eof, Collects D method R limit { acc with decoder := decoder }
      { c.receive bytes with eof := eof } := fun _ _ =>
    ⟨hcollects.requestMethod, hcollects.bodyLimit, hcollects.bodyDone, hcollects.maxBodySize,
      hfront⟩
  have hphase' : ∀ (decoder : δ) eof, Heading R { acc with decoder := decoder }
      { c.receive bytes with eof := eof } ∨ Draining R { acc with decoder := decoder }
        { c.receive bytes with eof := eof } := fun _ _ =>
    phase_receive hphase (List.prefix_append _ _) rfl rfl rfl rfl
  rw [feed]
  split
  · next hnil =>
      obtain rfl := List.length_eq_zero_iff.mp hnil
      exact feedLoop_spec (c := { c.receive [] with eof := true }) S (S.markEof hreceive)
        (hcollects' _ _) (hphase' _ _)
  · next hne =>
      have hempty : bytes.isEmpty = false := by
        rw [List.isEmpty_eq_false_iff]
        exact fun h => hne (congrArg List.length h)
      have hspec := feedLoop_spec (c := c.receive bytes) S hreceive (hcollects' _ c.eof)
        (hphase' _ c.eof)
      rw [show (c.receive bytes).eof = false from hopen] at hspec
      rw [hempty]
      exact hspec

/-- At the end of the connection no call asks for more. -/
theorem Fed.ne_waiting {received : Bytes} {result : Except String (Bool × ResponseAccumulator δ)}
    (h : Fed D Tracks method R limit true received result) (acc : ResponseAccumulator δ) :
    result ≠ .ok (false, acc) := by
  cases h with
  | completed => simp
  | waiting heof => exact absurd heof (by simp)
  | failed => simp

/-- **All calls** up to the end of the connection: the response is complete, or the last call
fails. -/
theorem feedAll_spec (S : Sound D w method Tracks) {acc : ResponseAccumulator δ} {c : Http.Cursor}
    {chunks : List Bytes} (htracks : Tracks acc.decoder c) (hopen : c.eof = false)
    (hcollects : Collects D method R limit acc c) (hphase : Heading R acc c ∨ Draining R acc c)
    (hfront : c.received ++ chunks.flatten <+: R.bytes) (hfits : Fits D acc chunks) :
    ∃ front eof, front <+: c.received ++ chunks.flatten ∧
      (eof = true → front = c.received ++ chunks.flatten) ∧
      Fed D Tracks method R limit eof front (feedAll D acc chunks) ∧
      ∀ acc', feedAll D acc chunks ≠ .ok (false, acc') := by
  induction chunks generalizing acc c with
  | nil =>
      have hfed := feed_spec S [] htracks hopen hcollects hphase hfront (Nat.zero_le _)
      exact ⟨_, true, List.prefix_refl _, fun _ => rfl, hfed, hfed.ne_waiting⟩
  | cons chunk chunks ih =>
      obtain ⟨hne, hroom, hrest⟩ := hfits
      rw [List.flatten_cons, ← List.append_assoc] at hfront ⊢
      have hfed := feed_spec S chunk htracks hopen hcollects hphase
        ((List.prefix_append _ _).trans hfront) hroom
      rw [List.isEmpty_eq_false_iff.mpr hne] at hfed
      rw [feedAll]
      generalize hresult : feed D acc chunk = result at hfed
      cases hfed with
      | completed hhead hlt hcomplete hclose hbody =>
          refine ⟨_, false, List.prefix_append _ _, by simp,
            .completed hhead hlt hcomplete hclose hbody, ?_⟩
          intro acc'
          simp [bind, Except.bind]
      | @waiting acc' c' _ htracks' hreceived hopen' hcollects' hphase' =>
          rw [← hreceived] at hfront ⊢
          exact ih htracks' hopen' hcollects' hphase' hfront (hrest acc' hresult)
      | failed h =>
          refine ⟨_, false, List.prefix_append _ _, by simp, .failed h, ?_⟩
          intro acc'
          simp [bind, Except.bind]

/-- A fresh accumulator collects the response from its beginning. -/
theorem collects_new (S : Sound D w method Tracks) (R : Response w) (limit : BodyLimit) :
    Tracks (new D method limit).decoder
        { Http.Cursor.start (limit.maxBodySize D) with method := some method } ∧
      Collects D method R limit (new D method limit)
        { Http.Cursor.start (limit.maxBodySize D) with method := some method } ∧
      Heading R (new D method limit)
        { Http.Cursor.start (limit.maxBodySize D) with method := some method } :=
  ⟨S.setRequestMethod method (S.withLimits _), ⟨rfl, rfl, rfl, rfl, List.nil_prefix⟩,
    ⟨rfl, rfl, rfl, Nat.zero_le _⟩⟩

/-- The chunks are a way to cut the bytes that can be handed over. -/
structure Splits (D : ResponseDecoder δ) (acc : ResponseAccumulator δ) (chunks : List Bytes)
    (received : Bytes) : Prop where
  flatten : chunks.flatten = received
  fits : Fits D acc chunks

/-- **A connection that ends too early** gives an error. The calls cannot have completed a
response that is not complete, and they do not wait behind the last call, so one of them
has failed. -/
theorem outcome_of_endsEarly (S : Sound D w method Tracks) {chunks : List Bytes} {received : Bytes}
    (hfront : received <+: R.bytes) (hsplits : Splits D (new D method limit) chunks received)
    (hearly : R.EndsEarly received) : ∃ e, outcome D (new D method limit) chunks = .error e := by
  obtain ⟨htracks, hcollects, hheading⟩ := collects_new S R limit
  obtain ⟨front, eof, hle, -, hfed, hne⟩ := feedAll_spec S htracks rfl hcollects (.inl hheading)
    (hsplits.flatten ▸ hfront) hsplits.fits
  rw [hsplits.flatten] at hle
  have hle : front <+: received := hle
  rw [outcome]
  generalize feedAll D (new D method limit) chunks = result at hfed hne
  cases hfed with
  | completed _ hlt hcomplete =>
      rcases hearly with hheads | ⟨hself, hcut⟩
      · exact absurd (w.heads_mono hle).length_le (by omega)
      · exact absurd (w.complete_mono hle (hcomplete hself)) hcut
  | @waiting acc => exact absurd rfl (hne acc)
  | @failed e => exact ⟨e, rfl⟩

/-- Without an early end, the body at a front that is complete is the whole body. A tunnel
has no body, and that of any other framing does not grow behind its end. -/
theorem body_eq_of_front {front received : Bytes} {eof : Bool} (hle : front <+: received)
    (hreceived : received <+: R.bytes) (hwhole : eof = true → front = received)
    (hlt : R.index < (w.heads front).length)
    (hcomplete : R.kind.SelfDelimited → w.complete R.index front)
    (hclose : R.kind = .closeDelimited → eof = true) :
    w.body R.index front = w.body R.index received := by
  have hhead := R.head_of_lt (hle.trans hreceived) hlt
  by_cases htunnel : R.kind = .tunnel
  · have hnil : ∀ {front : Bytes}, front <+: R.bytes → w.body R.index front = [] := fun h =>
      List.prefix_nil.mp (R.body_of_tunnel htunnel ▸ w.body_mono h)
    rw [hnil (hle.trans hreceived), hnil hreceived]
  · have hframed : R.kind.Framed := by
      have hknown := R.known
      cases hkind : R.kind with
      | tunnel => exact absurd hkind htunnel
      | other => exact absurd hkind hknown
      | contentLength | chunked | closeDelimited | none => trivial
    exact (Wire.body_of_front hle hhead hframed hcomplete fun hkind => hwhole (hclose hkind)).symm

/-- Without an early end, a call fails only if the limit refuses the body. One case for
each reason to fail: the first two are early ends, the others are limits that the whole
body exceeds as well. -/
theorem Failure.collected_eq_none {front received : Bytes} {eof : Bool}
    (h : Failure D R limit eof front) (hle : front <+: received) (hreceived : received <+: R.bytes)
    (hwhole : eof = true → front = received) (hearly : ¬ R.EndsEarly received)
    (hdefault : limit = .unlimited → (w.body R.index received).length ≤ D.defaultMaxBodySize) :
    limit.collected (w.body R.index received) = none := by
  rw [Response.EndsEarly, not_or, not_and, not_not, Nat.not_le] at hearly
  obtain ⟨hlt, hcomplete⟩ := hearly
  cases h with
  | noHead heof h =>
      rw [hwhole heof] at h
      omega
  | cutShort heof hkind h =>
      rw [hwhole heof] at h
      exact absurd (hcomplete hkind) h
  | refused h => exact BodyLimit.collected_none_mono (w.body_mono hle) h
  | tooLarge hlimit h =>
      have hlength := (w.body_mono (i := R.index) hle).length_le
      have := hdefault hlimit
      omega
  | @declared n hkind h =>
      have hhead := R.head_of_lt hreceived hlt
      rw [hkind] at hhead
      have hlength := w.length_of_complete hhead (hcomplete (by rw [hkind]; trivial))
      have hn := w.contentLength_le (w.acceptable_mono hreceived R.acceptable) hhead
      cases limit with
      | unlimited =>
          have := hdefault rfl
          simp only [BodyLimit.maxBodySize] at h
          omega
      | truncate max => exact absurd h (Nat.not_lt.mpr hn)
      | error max => exact if_neg (by rw [hlength]; exact Nat.not_le.mpr h)

/-- **A connection that does not end too early** gives what the limit lets through of the
body, or an error if it refuses the body. -/
theorem outcome_of_not_endsEarly (S : Sound D w method Tracks) {chunks : List Bytes}
    {received : Bytes} (hfront : received <+: R.bytes)
    (hsplits : Splits D (new D method limit) chunks received) (hearly : ¬ R.EndsEarly received)
    (hdefault : limit = .unlimited → (w.body R.index received).length ≤ D.defaultMaxBodySize) :
    (∀ body, limit.collected (w.body R.index received) = some body →
      outcome D (new D method limit) chunks = .ok ⟨R.head, body⟩) ∧
    (limit.collected (w.body R.index received) = none →
      ∃ e, outcome D (new D method limit) chunks = .error e) := by
  obtain ⟨htracks, hcollects, hheading⟩ := collects_new S R limit
  obtain ⟨front, eof, hle, hwhole, hfed, hne⟩ := feedAll_spec S htracks rfl hcollects
    (.inl hheading) (hsplits.flatten ▸ hfront) hsplits.fits
  rw [hsplits.flatten] at hle hwhole
  have hle : front <+: received := hle
  have hwhole : eof = true → front = received := hwhole
  rw [outcome]
  generalize feedAll D (new D method limit) chunks = result at hfed hne
  cases hfed with
  | @completed acc hhead hlt hcomplete hclose hbody =>
      rw [body_eq_of_front hle hfront hwhole hlt hcomplete hclose] at hbody
      have hok : (Except.ok (true, acc) >>= fun x => x.2.finish : Except String DecodedResponse) =
          .ok ⟨R.head, acc.bodyBuf⟩ := by
        simp [bind, Except.bind, finish, hhead]
      refine ⟨?_, fun hnone => absurd (hbody.symm.trans hnone) (by simp)⟩
      intro body hcollected
      obtain rfl := Option.some.inj (hbody.symm.trans hcollected)
      exact hok
  | @waiting acc => exact absurd rfl (hne acc)
  | @failed e h =>
      have hnone := h.collected_eq_none hle hfront hwhole hearly hdefault
      exact ⟨fun body hcollected => absurd (hnone.symm.trans hcollected) (by simp),
        fun _ => ⟨e, rfl⟩⟩

end ResponseAccumulator

/-! ### A response of two bytes -/

/-- A decoder that follows the wire has room for chunks of up to 64 KiB. -/
theorem ResponseAccumulator.fits_reference (w : Wire)
    [∀ i received, Decidable (w.complete i received)] [DecidablePred w.acceptable]
    (acc : ResponseAccumulator Http.Cursor) {chunks : List Bytes}
    (h : ∀ chunk ∈ chunks, chunk ≠ [] ∧ chunk.length ≤ 65536) : Fits w.reference acc chunks := by
  induction chunks generalizing acc with
  | nil => trivial
  | cons chunk chunks ih =>
      obtain ⟨⟨hne, hle⟩, hchunks⟩ := List.forall_mem_cons.mp h
      exact ⟨hne, hle, fun acc' _ => ih acc' hchunks⟩

/-- The head of a response whose body has two bytes. -/
def okHeadBytes : Bytes :=
  "HTTP/1.1 200 OK\r\nContent-Length: 2\r\n\r\n".toList.map fun c => UInt8.ofNat c.toNat

/-- What the head says. -/
def okHead : ResponseHead := ⟨200, [("Content-Length".toList, "2".toList)]⟩

/-- The response "ok". -/
def okResponse : Response (Wire.ofContentLength okHeadBytes okHead 2) where
  interim := []
  head := okHead
  kind := .contentLength 2
  bytes := okHeadBytes ++ [111, 107]
  heads_eq := by decide +kernel
  isInterim := by decide
  not_isInterim := by decide
  known := by decide
  acceptable := by decide +kernel
  complete := fun _ => by decide +kernel
  body_of_tunnel := by decide

open ResponseAccumulator in
/-- **The accumulator is exact, however the bytes are cut.** On a connection with a response, a
limit that cuts the body off gives that much of it, a limit that refuses bodies gives the whole
body or an error, and the limit of the decoder gives the whole body. A body that the end of the
connection ends is complete wherever that is. If the connection ends before the final head, or
within a body whose framing says where it ends, there is an error. And any other way to cut the
same bytes has the same outcome. -/
theorem responseAccumulator_exact {δ : Type} {D : ResponseDecoder δ} {w : Wire}
    {method : List Char} {Tracks : δ → Http.Cursor → Prop} (S : Sound D w method Tracks)
    (R : Response w) :
    (∀ max chunks, Splits D (new D method (.truncate max)) chunks R.bytes →
      outcome D (new D method (.truncate max)) chunks = .ok ⟨R.head, R.body.take max⟩) ∧
    (∀ max chunks, Splits D (new D method (.error max)) chunks R.bytes →
      (R.body.length ≤ max →
        outcome D (new D method (.error max)) chunks = .ok ⟨R.head, R.body⟩) ∧
      (max < R.body.length →
        ∃ e, outcome D (new D method (.error max)) chunks = .error e)) ∧
    (R.body.length ≤ D.defaultMaxBodySize →
      ∀ chunks, Splits D (new D method .unlimited) chunks R.bytes →
        outcome D (new D method .unlimited) chunks = .ok ⟨R.head, R.body⟩) ∧
    (∀ limit received chunks body, received <+: R.bytes → R.kind = .closeDelimited →
      R.index < (w.heads received).length → Splits D (new D method limit) chunks received →
      (limit = .unlimited → (w.body R.index received).length ≤ D.defaultMaxBodySize) →
      limit.collected (w.body R.index received) = some body →
        outcome D (new D method limit) chunks = .ok ⟨R.head, body⟩) ∧
    (∀ limit received chunks, received <+: R.bytes →
      Splits D (new D method limit) chunks received →
      (w.heads received).length ≤ R.index ∨
        R.kind.SelfDelimited ∧ ¬ w.complete R.index received →
        ∃ e, outcome D (new D method limit) chunks = .error e) ∧
    ∀ limit received chunks chunks', received <+: R.bytes →
      (limit = .unlimited → (w.body R.index received).length ≤ D.defaultMaxBodySize) →
      Splits D (new D method limit) chunks received →
      Splits D (new D method limit) chunks' received →
        (outcome D (new D method limit) chunks).toOption =
          (outcome D (new D method limit) chunks').toOption := by
  have hwhole : ¬ R.EndsEarly R.bytes := by
    rintro (hheads | ⟨hself, hcut⟩)
    · rw [R.heads_eq, List.length_append, List.length_map, List.length_singleton,
        Response.index] at hheads
      omega
    · exact hcut (R.complete hself)
  have hrefl := List.prefix_refl R.bytes
  refine ⟨?_, fun max chunks hsplits => ⟨?_, ?_⟩, ?_, ?_, ?_, ?_⟩
  · intro max chunks hsplits
    exact (outcome_of_not_endsEarly S hrefl hsplits hwhole (by simp)).1 _ rfl
  · intro hle
    exact (outcome_of_not_endsEarly S hrefl hsplits hwhole (by simp)).1 _ (if_pos hle)
  · intro hlt
    exact (outcome_of_not_endsEarly S hrefl hsplits hwhole (by simp)).2
      (if_neg (Nat.not_le.mpr hlt))
  · intro hle chunks hsplits
    exact (outcome_of_not_endsEarly S hrefl hsplits hwhole fun _ => hle).1 _ rfl
  · intro limit received chunks body hfront hkind hlt hsplits hdefault hbody
    refine (outcome_of_not_endsEarly S hfront hsplits ?_ hdefault).1 body hbody
    rintro (hheads | ⟨hself, -⟩)
    · omega
    · rw [hkind] at hself
      exact hself
  · intro limit received chunks hfront hsplits hearly
    exact outcome_of_endsEarly S hfront hsplits hearly
  · intro limit received chunks chunks' hfront hdefault hsplits hsplits'
    by_cases hearly : R.EndsEarly received
    · obtain ⟨e, he⟩ := outcome_of_endsEarly S hfront hsplits hearly
      obtain ⟨e', he'⟩ := outcome_of_endsEarly S hfront hsplits' hearly
      rw [he, he']
      rfl
    · have hspec := outcome_of_not_endsEarly S hfront hsplits hearly hdefault
      have hspec' := outcome_of_not_endsEarly S hfront hsplits' hearly hdefault
      cases hcollected : limit.collected (w.body R.index received) with
      | some body => rw [hspec.1 body hcollected, hspec'.1 body hcollected]
      | none =>
          obtain ⟨e, he⟩ := hspec.2 hcollected
          obtain ⟨e', he'⟩ := hspec'.2 hcollected
          rw [he, he']
          rfl

/-- The response "ok", cut within its head and within its body, at a limit of one byte.
The second byte is too much for a limit that refuses, and is left out by one that
truncates. -/
theorem responseAccumulator_exact_ok :
    (∃ e, ResponseAccumulator.outcome (Wire.ofContentLength okHeadBytes okHead 2).reference
      (.new (Wire.ofContentLength okHeadBytes okHead 2).reference "GET".toList (.error 1))
      [okHeadBytes.take 20, okHeadBytes.drop 20 ++ [111], [107]] = .error e) ∧
    ResponseAccumulator.outcome (Wire.ofContentLength okHeadBytes okHead 2).reference
      (.new (Wire.ofContentLength okHeadBytes okHead 2).reference "GET".toList (.truncate 1))
      [okHeadBytes.take 20, okHeadBytes.drop 20 ++ [111], [107]] = .ok ⟨okHead, [111]⟩ := by
  have hexact := responseAccumulator_exact
    (Wire.sound_ofContentLength okHeadBytes okHead 2 "GET".toList) okResponse
  have hflatten : [okHeadBytes.take 20, okHeadBytes.drop 20 ++ [111], [107]].flatten =
      okResponse.bytes := by decide +kernel
  have hchunks : ∀ chunk ∈ [okHeadBytes.take 20, okHeadBytes.drop 20 ++ [111], [107]],
      chunk ≠ [] ∧ chunk.length ≤ 65536 := by decide +kernel
  have hbody : okResponse.body = [111, 107] := by decide +kernel
  refine ⟨(hexact.2.1 1 _ ⟨hflatten, ResponseAccumulator.fits_reference _ _ hchunks⟩).2 ?_, ?_⟩
  · rw [hbody]
    decide
  · have htruncate := hexact.1 1 _ ⟨hflatten, ResponseAccumulator.fits_reference _ _ hchunks⟩
    rw [hbody] at htruncate
    exact htruncate

end ContainerRs
