import ContainerRs.StrictDemux
import ContainerRs.Lib.ResponseDecoder

/-!
# The One-Shot Fetch of a Log

`fetch_logs_oneshot_blocking` (docker_log_stream.rs) asks the daemon for all that a container
has logged: it reads the head of the response, refuses it unless it is a multiplexed log, and
demultiplexes the body into two strict buffers until the decoder says that the body is complete
or the connection ends. The decoder is a parameter.

At the end of the connection the loop leaves whatever the decoder says. A body that is framed
by its length or in chunks and is not complete then is returned as if it were.

The model begins behind the request. A connection is the list of segments that arrive before
the daemon closes it; a read that fails or times out ends the fetch with its error and is left
out. `mut_buf` is asked for no more room than there is.

## Main results

* `oneshotHead_spec`, `oneshotBody_spec`: the two phases of the loop.
* `fetchLogs_of_cutShort`: a log that is cut short is returned as far as it has arrived.
* `fetchLogs_neverTruncated_iff`: that is the only way in which a truncated log is returned.
-/

namespace ContainerRs

open Checked Http

/-! ### The head of the response -/

/-- White space, as `trim` has it. -/
def isWhiteSpace (c : Char) : Bool :=
  0x9 ≤ c.toNat ∧ c.toNat ≤ 0xD ∨ c.toNat = 0x20 ∨ c.toNat = 0x85 ∨ c.toNat = 0xA0 ∨
    c.toNat = 0x1680 ∨ 0x2000 ≤ c.toNat ∧ c.toNat ≤ 0x200A ∨ c.toNat = 0x2028 ∨
    c.toNat = 0x2029 ∨ c.toNat = 0x202F ∨ c.toNat = 0x205F ∨ c.toNat = 0x3000

/-- The text without the white space around it. -/
def trim (text : List Char) : List Char :=
  ((text.dropWhile isWhiteSpace).reverse.dropWhile isWhiteSpace).reverse

/-- Two texts that differ at most in the case of ASCII letters. -/
def eqIgnoreAsciiCase (a b : List Char) : Bool := a.map Char.toLower = b.map Char.toLower

/-- A content type that is taken for a multiplexed log. -/
def isMultiplexContentType : Option (List Char) → Bool
  | none => true
  | some contentType =>
      let media := trim (contentType.takeWhile (· ≠ ';'))
      media.isEmpty ||
        eqIgnoreAsciiCase media "application/vnd.docker.multiplexed-stream".toList ||
        eqIgnoreAsciiCase media "application/octet-stream".toList

/-- The content type that a head gives. -/
def contentType (head : ResponseHead) : Option (List Char) :=
  (head.headers.find? fun header => eqIgnoreAsciiCase header.1 "content-type".toList).map Prod.snd

/-- The checks on the head of the response. -/
def acceptHead (head : ResponseHead) : Except String Unit :=
  if head.statusCode ≠ 200 then .error s!"logs request failed with status {head.statusCode}"
  else if isMultiplexContentType (contentType head) = false then
    .error ("unsupported log stream content type: " ++
      String.ofList ((contentType head).getD "<absent>".toList))
  else .ok ()

/-- A head that is accepted belongs to a multiplexed log. -/
theorem acceptHead_eq_ok {head : ResponseHead} :
    acceptHead head = .ok () ↔
      head.statusCode = 200 ∧ isMultiplexContentType (contentType head) = true := by
  constructor
  · intro h
    rw [acceptHead] at h
    split at h
    · exact absurd h (by simp)
    next hstatus =>
    split at h
    · exact absurd h (by simp)
    · next htype => exact ⟨not_not.mp hstatus, by simpa using htype⟩
  · rintro ⟨hstatus, htype⟩
    rw [acceptHead, if_neg (not_not.mpr hstatus), if_neg (by simp [htype])]

/-! ### Reading from the connection -/

/-- Read up to `want` bytes of what arrives in segments; nothing at the end of the connection. -/
def socketRead (want : ℕ) : List Bytes → Bytes × List Bytes
  | [] => ([], [])
  | segment :: segments =>
      (segment.take want,
        if segment.drop want = [] then segments else segment.drop want :: segments)

/-- What is read and what is left is what was there. A read takes the front of the first
segment. -/
theorem socketRead_flatten (want : ℕ) (segments : List Bytes) :
    (socketRead want segments).1 ++ (socketRead want segments).2.flatten = segments.flatten := by
  cases segments with
  | nil => rfl
  | cons segment segments =>
      rw [socketRead, List.flatten_cons]
      split
      · next hnil =>
          rw [List.take_of_length_le (List.drop_eq_nil_iff.mp hnil)]
      · rw [List.flatten_cons, ← List.append_assoc, List.take_append_drop]

/-- No more is read than is asked for. -/
theorem length_socketRead_le (want : ℕ) (segments : List Bytes) :
    (socketRead want segments).1.length ≤ want := by
  cases segments with
  | nil => exact Nat.zero_le _
  | cons segment segments => exact List.length_take_le _ _

/-- What is left arrives in segments that are not empty. -/
theorem socketRead_ne_nil (want : ℕ) {segments : List Bytes}
    (h : ∀ segment ∈ segments, segment ≠ []) :
    ∀ segment ∈ (socketRead want segments).2, segment ≠ [] := by
  cases segments with
  | nil => exact h
  | cons segment segments =>
      obtain ⟨-, hsegments⟩ := List.forall_mem_cons.mp h
      rw [socketRead]
      split
      · exact hsegments
      · next hne => exact List.forall_mem_cons.mpr ⟨hne, hsegments⟩

/-- Nothing is read only at the end of the connection. -/
theorem eq_nil_of_socketRead {want : ℕ} {segments : List Bytes} (hwant : want ≠ 0)
    (h : ∀ segment ∈ segments, segment ≠ []) (hread : (socketRead want segments).1 = []) :
    segments = [] := by
  cases segments with
  | nil => rfl
  | cons segment segments =>
      rw [socketRead, List.take_eq_nil_iff] at hread
      exact absurd (hread.resolve_left hwant) (List.forall_mem_cons.mp h).1

/-- At the end of the connection nothing is left. -/
theorem socketRead_rest_of_nil {want : ℕ} {segments : List Bytes} (hwant : want ≠ 0)
    (h : ∀ segment ∈ segments, segment ≠ []) (hread : (socketRead want segments).1 = []) :
    (socketRead want segments).2 = [] := by
  obtain rfl := eq_nil_of_socketRead hwant h hread
  rfl

/-- A read that returns bytes leaves fewer of them. -/
theorem socketRead_lt (want : ℕ) (segments : List Bytes)
    (hread : (socketRead want segments).1 ≠ []) :
    (socketRead want segments).2.flatten.length < segments.flatten.length := by
  have hpos := List.length_pos_iff.mpr hread
  rw [← socketRead_flatten want segments, List.length_append]
  omega

/-! ### The fetch -/

section Model

variable {δ : Type} (D : ResponseDecoder δ)

/-- Demultiplex a piece of the body. -/
def pushLog (s : FeedState) (data : Bytes) : Except String FeedState :=
  (feed s data).getD (.error "fuel exhausted")

/-- Demultiplex all that has arrived of the body; says whether the body is complete. -/
def drainOneshotBody (s : FeedState) (d : δ) : Except String (Bool × FeedState × δ) :=
  drain D false pushLog id s d

/-- The loop until the head of the response has been read. -/
def oneshotHead (d : δ) (segments : List Bytes) : Except String (δ × List Bytes) :=
  let want := min (D.availableBuf d) readChunk
  if want = 0 then .error "decoder buffer full while reading oneshot head"
  else
    let bytes := (socketRead want segments).1
    let d := D.advanceBuf d bytes
    let d := if bytes = [] then D.markEof d else d
    match D.decodeHeaders d with
    | .error e => .error e
    | .ok (some (head, _), d) => do
        acceptHead head
        .ok (d, (socketRead want segments).2)
    | .ok (none, d) =>
        if _hbytes : bytes = [] then .error "connection closed before oneshot head complete"
        else oneshotHead d (socketRead want segments).2
termination_by segments.flatten.length
decreasing_by exact socketRead_lt _ _ _hbytes

/-- The loop over the body. At the end of the connection what has arrived is taken out and the
loop ends, whether the body is complete or not. -/
def oneshotBody (s : FeedState) (d : δ) (segments : List Bytes) : Except String FeedState :=
  match drainOneshotBody D s d with
  | .error e => .error e
  | .ok (true, s, _) => .ok s
  | .ok (false, s, d) =>
      let want := min (D.availableBuf d) readChunk
      if want = 0 then .error "decoder buffer full while reading oneshot body"
      else
        let bytes := (socketRead want segments).1
        let d := D.advanceBuf d bytes
        if _hbytes : bytes = [] then do
          let (_, s, _) ← drainOneshotBody D s (D.markEof d)
          .ok s
        else oneshotBody s d (socketRead want segments).2
termination_by segments.flatten.length
decreasing_by exact socketRead_lt _ _ _hbytes

/-- A decoder for logs, which sets no limit on the body. -/
def logStreamDecoder : δ := D.withLimits u64Max

/-- The fetch with a limit on each of the two streams, from the connection on which the answer
to the request arrives. -/
def fetchLogsOneshotBlockingWithLimit (limit : ℕ) (segments : List Bytes) :
    Except String (Bytes × Bytes) := do
  let d := D.setRequestMethod (logStreamDecoder D) "GET".toList
  let (d, segments) ← oneshotHead D d segments
  let s ← oneshotBody D (strictStart limit) d segments
  .ok (drainBuffer s.stdout, drainBuffer s.stderr)

end Model

/-! ### What has been demultiplexed -/

/-- Pieces that are pushed one after the other are fed. By induction on the pieces: the
first that is refused ends both. -/
theorem foldlM_pushLog_of_feedAll {s : FeedState} {pieces : List Bytes}
    {result : Except String FeedState} (h : feedAll s pieces = some result) :
    pieces.foldlM pushLog s = result := by
  induction pieces generalizing s with
  | nil => exact Option.some.inj h
  | cons piece pieces ih =>
      rw [feedAll] at h
      rw [List.foldlM_cons, pushLog]
      cases hfeed : feed s piece with
      | none =>
          rw [hfeed] at h
          exact absurd h (by simp)
      | some fed =>
          rw [hfeed] at h
          cases fed with
          | ok s₁ => exact ih h
          | error e => exact Option.some.inj h

/-- Into a machine over strict buffers. -/
theorem StrictOk.foldlM_pushLog {limit : ℕ} {s : FeedState} (h : StrictOk limit s)
    (pieces : List Bytes) :
    EndsStrict limit s pieces.flatten (some (pieces.foldlM pushLog s)) := by
  have hends := feedAll_strict h pieces
  obtain ⟨result, hresult⟩ := hends.exists_result
  rw [foldlM_pushLog_of_feedAll hresult, ← hresult]
  exact hends

/-- The machine has been fed `fed` from its start, and has not failed. -/
def Demuxed (limit : ℕ) (s : FeedState) (fed : Bytes) : Prop :=
  EndsStrict limit (strictStart limit) fed (some (.ok s))

/-- In the beginning nothing has been demultiplexed, and both buffers are empty. -/
theorem demuxed_start (limit : ℕ) : Demuxed limit (strictStart limit) [] :=
  .inl ⟨_, rfl, strictOk_start limit, fun _ => rfl⟩

/-- Pieces that are pushed into a machine that has been fed from its start. -/
theorem Demuxed.foldlM_pushLog {limit : ℕ} {s : FeedState} {fed : Bytes}
    (h : Demuxed limit s fed) (pieces : List Bytes) :
    EndsStrict limit (strictStart limit) (fed ++ pieces.flatten)
      (some (pieces.foldlM pushLog s)) := by
  obtain ⟨s', hs, hok, hoc⟩ | ⟨name, front, back, he, -⟩ := h
  · obtain rfl : s = s' := Except.ok.inj (Option.some.inj hs)
    exact (hok.foldlM_pushLog pieces).of_front hoc
  · exact absurd he (by simp)

/-- Draining the buffers yields what the batch decoder does. -/
theorem Demuxed.drainBuffer_eq {limit : ℕ} {s : FeedState} {fed : Bytes}
    (h : Demuxed limit s fed) :
    (drainBuffer s.stdout, drainBuffer s.stderr) = demuxExecStream fed := by
  obtain ⟨-, houtputs⟩ := h.outputs_of_ok
  rw [ContainerRs.drainBuffer_eq, ContainerRs.drainBuffer_eq]
  exact houtputs

/-- What the batch decoder yields is within the limit on both streams. -/
def WithinLimit (limit : ℕ) (data : Bytes) : Prop :=
  (demuxExecStream data).1.length ≤ limit ∧ (demuxExecStream data).2.length ≤ limit

instance (limit : ℕ) (data : Bytes) : Decidable (WithinLimit limit data) :=
  inferInstanceAs (Decidable (_ ∧ _))

/-- A machine that has not failed is within the limit. -/
theorem Demuxed.withinLimit {limit : ℕ} {s : FeedState} {fed : Bytes}
    (h : Demuxed limit s fed) : WithinLimit limit fed := by
  obtain ⟨hok, houtputs⟩ := h.outputs_of_ok
  rw [WithinLimit, ← houtputs]
  exact ⟨hok.fitsOut, hok.fitsErr⟩

/-- What is within the limit is so at a front. -/
theorem WithinLimit.of_front {limit : ℕ} {front data : Bytes} (h : WithinLimit limit data)
    (hfront : front <+: data) : WithinLimit limit front := by
  obtain ⟨back, rfl⟩ := hfront
  obtain ⟨more, hmore⟩ := demuxExecStream_append front back
  rw [WithinLimit, hmore, andThen, List.length_append, List.length_append] at h
  exact ⟨(Nat.le_add_right _ _).trans h.1, (Nat.le_add_right _ _).trans h.2⟩

/-- A machine fails only behind bytes of which one stream exceeds the limit. -/
theorem not_withinLimit_of_error {limit : ℕ} {fed : Bytes} {e : String}
    (h : EndsStrict limit (strictStart limit) fed (some (.error e))) : ¬ WithinLimit limit fed := by
  obtain ⟨name, front, back, -, rfl, hexceeds⟩ := h.exceeds_of_error
  rintro ⟨hout, herr⟩
  rcases hexceeds.of_front back with ⟨-, hover⟩ | ⟨-, hover⟩ <;> omega

/-! ### The phases of the loop -/

section Spec

variable {δ : Type} {D : ResponseDecoder δ} {w : Wire} {Tracks : δ → Http.Cursor → Prop} {limit : ℕ}

/-- The connection on which no head has been taken yet. -/
def atHead (received : Bytes) (eof : Bool) : Http.Cursor :=
  ⟨u64Max, some "GET".toList, received, eof, 0, 0⟩

/-- What is read is handed to the decoder, which is told when it is the end of the connection. -/
theorem tracks_read {method : List Char} (S : Sound D w method Tracks) {d : δ} {c : Http.Cursor}
    {want : ℕ} (htracks : Tracks d c) (hle : want ≤ D.availableBuf d) {segments : List Bytes}
    (heof : c.eof = true → segments = []) :
    Tracks (D.advanceBuf d (socketRead want segments).1)
      (c.receive (socketRead want segments).1) := by
  refine S.advanceBuf htracks ?_ ((length_socketRead_le _ _).trans hle)
  intro h
  rw [heof h]
  rfl

/-- How the loop for the head ends on a connection with the bytes `total`: the head is read and
accepted, or it fails on bytes that hold no acceptable head. -/
inductive HeadRead (w : Wire) (Tracks : δ → Http.Cursor → Prop) (total : Bytes) :
    Except String (δ × List Bytes) → Prop
  | accepted {received : Bytes} {eof : Bool} {head : ResponseHead} {kind : BodyKind} {d : δ}
      {segments : List Bytes} (htotal : received ++ segments.flatten = total)
      (hne : ∀ segment ∈ segments, segment ≠ []) (heof : eof = true → segments = [])
      (hhead : (w.heads received)[0]? = some (head, kind)) (haccept : acceptHead head = .ok ())
      (htracks : Tracks d ((atHead received eof).take kind)) :
      HeadRead w Tracks total (.ok (d, segments))
  | failed {e : String}
      (herror : w.acceptable total → ∀ head kind, (w.heads total)[0]? = some (head, kind) →
        acceptHead head ≠ .ok ()) :
      HeadRead w Tracks total (.error e)

/-- Behind a head that has just been read nothing of its body has been consumed. -/
theorem bodiless_atHead (received : Bytes) (eof : Bool) : w.Bodiless (atHead received eof) := by
  intro head hhead
  exact absurd hhead List.not_mem_nil

/-- What is read while no head has been taken; nothing is read at the end of the
connection. The decoder has been given the bytes, and the mark of the end if there were
none. -/
theorem tracks_readHead {method : List Char} (S : Sound D w method Tracks) {d : δ}
    {received : Bytes} (htracks : Tracks d (atHead received false)) {want : ℕ}
    (hle : want ≤ D.availableBuf d) (segments : List Bytes) :
    let bytes := (socketRead want segments).1
    Tracks (if bytes = [] then D.markEof (D.advanceBuf d bytes) else D.advanceBuf d bytes)
      (atHead (received ++ bytes) (decide (bytes = []))) := by
  have hopen : (atHead received false).eof = true → segments = [] := by simp [atHead]
  have hread := tracks_read S htracks hle hopen
  dsimp only
  split
  · next hbytes =>
      rw [decide_eq_true hbytes]
      exact S.markEof hread
  · next hbytes =>
      rw [decide_eq_false hbytes]
      exact hread

section Head

variable {d : δ} {received : Bytes} {eof : Bool} {segments : List Bytes}

/-- At the end of the connection all its bytes have been received. -/
theorem received_of_eof (heof : eof = true → segments = []) (h : eof = true) :
    received ++ segments.flatten = received := by
  rw [heof h, List.flatten_nil, List.append_nil]

/-- A decoder that fails has been given bytes that are not acceptable, or there is no head. -/
theorem HeadRead.of_error (S : Sound D w "GET".toList Tracks)
    (htracks : Tracks d (atHead received eof)) (heof : eof = true → segments = []) {e : String}
    (hdecode : D.decodeHeaders d = .error e) :
    HeadRead w Tracks (received ++ segments.flatten) (.error e) := by
  refine .failed ?_
  intro hacceptable head kind hhead
  have hfront := w.acceptable_mono (List.prefix_append _ _) hacceptable
  rcases S.decodeHeaders_error htracks rfl (bodiless_atHead _ _) hdecode hfront with
    ⟨hclosed, hnone⟩ | ⟨head', n, hhead', hover⟩
  · rw [received_of_eof heof hclosed] at hhead
    exact absurd (hnone.symm.trans hhead) (by simp)
  · exact absurd (w.contentLength_le hfront hhead') (Nat.not_le.mpr hover)

/-- The first head is accepted, or the bytes hold no other one. If it is not accepted, the
fetch ends with the error of the check. -/
theorem HeadRead.of_head (S : Sound D w "GET".toList Tracks)
    (htracks : Tracks d (atHead received eof)) (hne : ∀ segment ∈ segments, segment ≠ [])
    (heof : eof = true → segments = [])
    {head : ResponseHead} {kind : BodyKind} {d' : δ}
    (hdecode : D.decodeHeaders d = .ok (some (head, kind), d')) :
    HeadRead w Tracks (received ++ segments.flatten)
      (acceptHead head >>= fun _ => .ok (d', segments)) := by
  obtain ⟨hhead, htracks'⟩ := S.decodeHeaders_some htracks rfl (bodiless_atHead _ _) hdecode
  cases haccept : acceptHead head with
  | error e =>
      refine .failed ?_
      intro _ head' kind' hhead'
      have hsame := (Wire.head_mono (List.prefix_append _ _) hhead).symm.trans hhead'
      obtain ⟨rfl, -⟩ := Prod.mk.inj (Option.some.inj hsame)
      simp [haccept]
  | ok u => exact .accepted rfl hne heof hhead haccept htracks'

/-- The connection ends without a head. -/
theorem HeadRead.of_closed (S : Sound D w "GET".toList Tracks)
    (htracks : Tracks d (atHead received eof)) (heof : eof = true → segments = [])
    (hclosed : eof = true) {d' : δ} (hdecode : D.decodeHeaders d = .ok (none, d')) (e : String) :
    HeadRead w Tracks (received ++ segments.flatten) (.error e) := by
  obtain ⟨hnone, -⟩ := S.decodeHeaders_none htracks rfl (bodiless_atHead _ _) hdecode
  refine .failed ?_
  intro _ head kind hhead
  rw [received_of_eof heof hclosed] at hhead
  exact absurd (hnone.symm.trans hhead) (by simp)

end Head

/-- **The loop for the head** reads the first head. By strong induction on the bytes that
are still to come: a read takes at least one of them, or the connection is at its end. -/
theorem oneshotHead_spec (S : Sound D w "GET".toList Tracks) {d : δ} {received : Bytes}
    {segments : List Bytes} (htracks : Tracks d (atHead received false))
    (hroom : w.acceptable received → 0 < D.availableBuf d)
    (hne : ∀ segment ∈ segments, segment ≠ []) :
    HeadRead w Tracks (received ++ segments.flatten) (oneshotHead D d segments) := by
  induction hn : segments.flatten.length using Nat.strong_induction_on
    generalizing d received segments with
  | _ n ih =>
      rw [oneshotHead]
      dsimp only
      split
      · next hwant =>
          refine .failed ?_
          intro hacceptable
          have hpos := hroom (w.acceptable_mono (List.prefix_append _ _) hacceptable)
          have hchunk : 0 < readChunk := by decide
          omega
      next hwant =>
      have htracks' := tracks_readHead S htracks (Nat.min_le_left _ readChunk) segments
      have hne' := socketRead_ne_nil (min (D.availableBuf d) readChunk) hne
      have heof : decide ((socketRead (min (D.availableBuf d) readChunk) segments).1 = []) = true →
          (socketRead (min (D.availableBuf d) readChunk) segments).2 = [] := by
        intro hclosed
        exact socketRead_rest_of_nil hwant hne (of_decide_eq_true hclosed)
      rw [← socketRead_flatten (min (D.availableBuf d) readChunk) segments, ← List.append_assoc]
      split
      · next e hdecode => exact .of_error S htracks' heof hdecode
      · next head kind d' hdecode => exact .of_head S htracks' hne' heof hdecode
      · next d' hdecode =>
          split
          · next hread => exact .of_closed S htracks' heof (decide_eq_true hread) hdecode _
          · next hread =>
              obtain ⟨-, hnext, hroom'⟩ :=
                S.decodeHeaders_none htracks' rfl (bodiless_atHead _ _) hdecode
              rw [decide_eq_false hread] at hnext hroom'
              exact ih _ (hn ▸ socketRead_lt _ _ hread) hnext hroom' hne' rfl

/-- The machine has been fed all that the decoder has given out of the first body. -/
structure AtBody (w : Wire) (Tracks : δ → Http.Cursor → Prop) (limit : ℕ) (kind : BodyKind)
    (s : FeedState) (d : δ) (c : Http.Cursor) : Prop where
  tracks : Tracks d c
  reading : w.Reading c 0 kind
  unlimited : c.maxBodySize = u64Max
  demuxed : Demuxed limit s ((w.body 0 c.received).take c.consumed)

/-- How taking out what has arrived of the body ends. -/
inductive OneshotDrained (D : ResponseDecoder δ) (w : Wire) (Tracks : δ → Http.Cursor → Prop)
    (limit : ℕ) (kind : BodyKind) (c : Http.Cursor) : Except String (Bool × FeedState × δ) → Prop
  | complete {s : FeedState} {d : δ} (hdemuxed : Demuxed limit s (w.body 0 c.received))
      (hended : w.Ended kind 0 c) : OneshotDrained D w Tracks limit kind c (.ok (true, s, d))
  | starved {s : FeedState} {d : δ}
      (hat : AtBody w Tracks limit kind s d { c with consumed := (w.body 0 c.received).length })
      (hended : ¬ w.Ended kind 0 c) (hacceptable : w.acceptable c.received)
      (hroom : 0 < D.availableBuf d) : OneshotDrained D w Tracks limit kind c (.ok (false, s, d))
  | failed {e : String}
      (herror : w.acceptable c.received → ¬ WithinLimit limit (w.body 0 c.received)) :
      OneshotDrained D w Tracks limit kind c (.error e)

/-- All that has arrived of the body is demultiplexed. One case for each end of the loop
over the body; the pieces that were pushed are what has been demultiplexed. -/
theorem drainOneshotBody_spec (S : Sound D w "GET".toList Tracks) {kind : BodyKind}
    {s : FeedState} {d : δ} {c : Http.Cursor} (h : AtBody w Tracks limit kind s d c) :
    OneshotDrained D w Tracks limit kind c (drainOneshotBody D s d) := by
  have hdrained := drain_spec false pushLog id S (s := s) h.tracks h.reading
  rw [drainOneshotBody]
  generalize drain D false pushLog id s d = result at hdrained
  cases hdrained with
  | @done pieces s' d' hrest hpush htracks hended =>
      have hfed := h.demuxed.foldlM_pushLog pieces
      rw [hrest.eq_drop, List.take_append_drop, hpush] at hfed
      exact .complete hfed hended
  | @starved pieces s' d' hrest hpush htracks hended hacceptable hroom =>
      have hfed := h.demuxed.foldlM_pushLog pieces
      rw [hrest.eq_drop, List.take_append_drop, hpush] at hfed
      rw [Cursor.consume, hrest.length_eq] at htracks
      refine .starved ⟨htracks, ⟨h.reading.taken, h.reading.head, h.reading.framed⟩, h.unlimited,
        ?_⟩ hended hacceptable hroom
      rw [List.take_length]
      exact hfed
  | @refused pieces e hfront hpush =>
      refine .failed ?_
      intro _ hwithin
      have hfed := h.demuxed.foldlM_pushLog pieces
      rw [hpush] at hfed
      refine not_withinLimit_of_error hfed (hwithin.of_front ?_)
      conv_rhs => rw [← List.take_append_drop c.consumed (w.body 0 c.received)]
      exact (List.prefix_append_right_inj _).mpr hfront
  | @failed text herror =>
      refine .failed ?_
      intro hacceptable
      have hover := herror hacceptable
      rw [h.unlimited] at hover
      exact absurd hover (Nat.not_lt.mpr (w.length_body_le hacceptable))

/-- More bytes of the connection do not change what has been demultiplexed. -/
theorem AtBody.receive (S : Sound D w "GET".toList Tracks) {kind : BodyKind} {s : FeedState}
    {d : δ} {c : Http.Cursor} {want : ℕ} {segments : List Bytes}
    (h : AtBody w Tracks limit kind s d c) (hconsumed : c.consumed = (w.body 0 c.received).length)
    (hle : want ≤ D.availableBuf d) (heof : c.eof = true → segments = []) :
    AtBody w Tracks limit kind s (D.advanceBuf d (socketRead want segments).1)
      (c.receive (socketRead want segments).1) := by
  refine ⟨tracks_read S h.tracks hle heof, h.reading.receive _, h.unlimited, ?_⟩
  obtain ⟨back, hback⟩ := w.body_mono (i := 0)
    (List.prefix_append c.received (socketRead want segments).1)
  have hdemuxed := h.demuxed
  rw [hconsumed, List.take_length] at hdemuxed
  rw [Cursor.receive, ← hback, hconsumed, List.take_left]
  exact hdemuxed

/-- The end of the connection does not either. -/
theorem AtBody.markEof (S : Sound D w "GET".toList Tracks) {kind : BodyKind} {s : FeedState}
    {d : δ} {c : Http.Cursor} (h : AtBody w Tracks limit kind s d c) :
    AtBody w Tracks limit kind s (D.markEof d) { c with eof := true } :=
  ⟨S.markEof h.tracks, ⟨h.reading.taken, h.reading.head, h.reading.framed⟩, h.unlimited,
    h.demuxed⟩

/-- How the loop over the body ends on a connection with the bytes `total`: with the whole body,
with a body that is cut short, or with an error. -/
inductive BodyRead (w : Wire) (limit : ℕ) (kind : BodyKind) (total : Bytes) :
    Except String FeedState → Prop
  | whole {s : FeedState} (hdemuxed : Demuxed limit s (w.body 0 total))
      (hcomplete : kind.SelfDelimited → w.complete 0 total) :
      BodyRead w limit kind total (.ok s)
  | cut {s : FeedState} (hdemuxed : Demuxed limit s (w.body 0 total))
      (hkind : kind.SelfDelimited) (hcut : ¬ w.complete 0 total)
      (hacceptable : w.acceptable total) : BodyRead w limit kind total (.ok s)
  | failed {e : String} (herror : w.acceptable total → ¬ WithinLimit limit (w.body 0 total)) :
      BodyRead w limit kind total (.error e)

/-- A body that has not ended at the end of the connection is one whose framing says where it
ends. -/
theorem selfDelimited_of_not_ended {kind : BodyKind} {c : Http.Cursor} (hframed : kind.Framed)
    (heof : c.eof = true) (hended : ¬ w.Ended kind 0 c) :
    kind.SelfDelimited ∧ ¬ w.complete 0 c.received := by
  cases kind with
  | contentLength n => exact ⟨trivial, hended⟩
  | chunked => exact ⟨trivial, hended⟩
  | closeDelimited => exact absurd heof hended
  | none => exact absurd trivial hended
  | tunnel => exact hframed.elim
  | other => exact hframed.elim

/-- What is taken out at the end of the connection is the rest of the body, which is whole
unless its framing says that more should have come. -/
theorem BodyRead.of_last (S : Sound D w "GET".toList Tracks) {kind : BodyKind} {s : FeedState}
    {d : δ} {c : Http.Cursor} (h : AtBody w Tracks limit kind s d c) (heof : c.eof = true) :
    BodyRead w limit kind c.received (do
      let (_, s, _) ← drainOneshotBody D s d
      .ok s) := by
  have hdrained := drainOneshotBody_spec S h
  generalize drainOneshotBody D s d = result at hdrained
  cases hdrained with
  | failed herror => exact .failed herror
  | complete hdemuxed hended =>
      obtain ⟨-, hcomplete⟩ := h.reading.whole_of_ended hended (List.prefix_refl _) fun _ => rfl
      exact .whole hdemuxed hcomplete
  | starved hat hended hacceptable =>
      obtain ⟨hkind, hcut⟩ := selfDelimited_of_not_ended h.reading.framed heof hended
      have hdemuxed := hat.demuxed
      rw [List.take_length] at hdemuxed
      exact .cut hdemuxed hkind hcut hacceptable

/-- **The loop over the body**: its result is that of all the bytes that are still to come. When
the connection is at its end, what is taken out of the decoder then is all there is. -/
theorem oneshotBody_spec (S : Sound D w "GET".toList Tracks) {kind : BodyKind} {s : FeedState}
    {d : δ} {c : Http.Cursor} {segments : List Bytes} (h : AtBody w Tracks limit kind s d c)
    (hne : ∀ segment ∈ segments, segment ≠ []) (heof : c.eof = true → segments = []) :
    BodyRead w limit kind (c.received ++ segments.flatten) (oneshotBody D s d segments) := by
  induction hn : segments.flatten.length using Nat.strong_induction_on
    generalizing s d c segments with
  | _ n ih =>
      have hfront := List.prefix_append c.received segments.flatten
      have hdrained := drainOneshotBody_spec S h
      rw [oneshotBody]
      generalize drainOneshotBody D s d = result at hdrained
      cases hdrained with
      | failed herror =>
          refine .failed ?_
          intro hacceptable hwithin
          exact herror (w.acceptable_mono hfront hacceptable)
            (hwithin.of_front (w.body_mono hfront))
      | @complete s' d' hdemuxed hended =>
          have hlast : c.eof = true → c.received = c.received ++ segments.flatten := by
            intro hc
            rw [heof hc, List.flatten_nil, List.append_nil]
          obtain ⟨hbody, hcomplete⟩ := h.reading.whole_of_ended hended hfront hlast
          exact .whole (hbody ▸ hdemuxed) hcomplete
      | @starved s' d' hat hended hacceptable hroom =>
          dsimp only
          split
          · next hwant =>
              have hchunk : 0 < readChunk := by decide
              omega
          next hwant =>
          have hat' := hat.receive S rfl (Nat.min_le_left _ readChunk) heof
          have htotal := socketRead_flatten (min (D.availableBuf d') readChunk) segments
          have hne' := socketRead_ne_nil (min (D.availableBuf d') readChunk) hne
          split
          · next hread =>
              obtain rfl := eq_nil_of_socketRead hwant hne hread
              rw [socketRead] at hat' ⊢
              have hlast := BodyRead.of_last S (hat'.markEof S) rfl
              rw [Cursor.receive, List.append_nil] at hlast
              rw [List.flatten_nil, List.append_nil]
              exact hlast
          · next hread =>
              have hlt := socketRead_lt _ _ hread
              rw [← htotal, ← List.append_assoc]
              refine ih _ (hn ▸ hlt) hat' hne' ?_ rfl
              intro hc
              rw [heof hc] at hread
              exact absurd rfl hread

/-! ### A log that is cut short -/

/-- The logs are all of a multiplexed log that has been received: the first response is
accepted, its body is complete if its framing says where it ends, and the logs are the whole
body, demultiplexed. -/
def WholeLog (w : Wire) (received : Bytes) (logs : Bytes × Bytes) : Prop :=
  ∃ head kind, (w.heads received)[0]? = some (head, kind) ∧ head.statusCode = 200 ∧
    isMultiplexContentType (contentType head) = true ∧
    (kind.SelfDelimited → w.complete 0 received) ∧ logs = demuxExecStream (w.body 0 received)

/-- No truncated log is passed off as complete: what is returned is the whole log, and a
connection that ends within a body whose framing says where it ends yields an error. -/
def NeverTruncated (w : Wire) (received : Bytes) (result : Except String (Bytes × Bytes)) : Prop :=
  (∀ logs, result = .ok logs → WholeLog w received logs) ∧
    ∀ head kind, (w.heads received)[0]? = some (head, kind) → kind.SelfDelimited →
      ¬ w.complete 0 received → ∃ e, result = .error e

/-- The connection ends within the body of an accepted response whose framing says where it
ends, and nothing else is wrong: the decoder accepts the bytes, and what has arrived of the two
streams is within the limit. -/
def CutShort (limit : ℕ) (w : Wire) (received : Bytes) : Prop :=
  ∃ head kind, (w.heads received)[0]? = some (head, kind) ∧ acceptHead head = .ok () ∧
    kind.SelfDelimited ∧ ¬ w.complete 0 received ∧ w.acceptable received ∧
    WithinLimit limit (w.body 0 received)

/-- How a fetch ends. -/
inductive Fetched (limit : ℕ) (w : Wire) (received : Bytes) :
    Except String (Bytes × Bytes) → Prop
  | whole {logs : Bytes × Bytes} (h : WholeLog w received logs) :
      Fetched limit w received (.ok logs)
  | cut (h : CutShort limit w received) :
      Fetched limit w received (.ok (demuxExecStream (w.body 0 received)))
  | failed {e : String} (h : ¬ CutShort limit w received) : Fetched limit w received (.error e)

/-- A log that is cut short is not whole. -/
theorem CutShort.not_wholeLog {w : Wire} {received : Bytes} {logs : Bytes × Bytes}
    (h : CutShort limit w received) : ¬ WholeLog w received logs := by
  obtain ⟨head, kind, hhead, -, hkind, hcut, -⟩ := h
  rintro ⟨head', kind', hhead', -, -, hcomplete, -⟩
  obtain ⟨-, rfl⟩ := Prod.mk.inj (Option.some.inj (hhead.symm.trans hhead'))
  exact hcut (hcomplete hkind)

/-- **How the fetch ends**, on a connection on which the segments arrive. The head is read
first and then the body, each in its loop, and either may end with an error. -/
theorem fetchLogs_spec (limit : ℕ) (S : Sound D w "GET".toList Tracks) {segments : List Bytes}
    (hne : ∀ segment ∈ segments, segment ≠ []) :
    Fetched limit w segments.flatten (fetchLogsOneshotBlockingWithLimit D limit segments) := by
  have hstart : Tracks (D.setRequestMethod (logStreamDecoder D) "GET".toList) (atHead [] false) :=
    S.setRequestMethod _ (S.withLimits u64Max)
  have hread := oneshotHead_spec S hstart (fun _ => S.room hstart rfl) hne
  rw [fetchLogsOneshotBlockingWithLimit]
  rw [List.nil_append] at hread
  generalize oneshotHead D _ segments = result at hread
  cases hread with
  | failed herror =>
      refine .failed ?_
      rintro ⟨head, kind, hhead, haccept, -, -, hacceptable, -⟩
      exact herror hacceptable head kind hhead haccept
  | @accepted received eof head kind d rest htotal hne' heof hhead haccept htracks =>
      have hframed := S.framed (by decide) hhead
      have hhead' := Wire.head_mono (htotal ▸ List.prefix_append _ _) hhead
      have hat : AtBody w Tracks limit kind (strictStart limit) d
          ((atHead received eof).take kind) :=
        ⟨htracks, ⟨rfl, ⟨head, hhead⟩, hframed⟩, rfl, demuxed_start limit⟩
      have hbody := oneshotBody_spec S hat hne' heof
      have hreceived : ((atHead received eof).take kind).received ++ rest.flatten =
          segments.flatten := htotal
      rw [hreceived] at hbody
      change Fetched limit w _ (oneshotBody D (strictStart limit) d rest >>= _)
      generalize oneshotBody D (strictStart limit) d rest = result at hbody
      cases hbody with
      | whole hdemuxed hcomplete =>
          obtain ⟨hstatus, htype⟩ := acceptHead_eq_ok.mp haccept
          exact .whole ⟨head, kind, hhead', hstatus, htype, hcomplete, hdemuxed.drainBuffer_eq⟩
      | @cut s hdemuxed hkind hcut hacceptable =>
          have hlogs := hdemuxed.drainBuffer_eq
          change Fetched limit w _ (.ok (drainBuffer s.stdout, drainBuffer s.stderr))
          rw [hlogs]
          exact .cut ⟨head, kind, hhead', haccept, hkind, hcut, hacceptable, hdemuxed.withinLimit⟩
      | failed herror =>
          refine .failed ?_
          rintro ⟨-, -, -, -, -, -, hacceptable, hwithin⟩
          exact herror hacceptable hwithin

/-- **A log that is cut short is returned**, as far as it has arrived. -/
theorem fetchLogs_of_cutShort (S : Sound D w "GET".toList Tracks) {segments : List Bytes}
    (hne : ∀ segment ∈ segments, segment ≠ []) (hcut : CutShort limit w segments.flatten) :
    fetchLogsOneshotBlockingWithLimit D limit segments =
      .ok (demuxExecStream (w.body 0 segments.flatten)) := by
  have hfetched := fetchLogs_spec limit S hne
  generalize fetchLogsOneshotBlockingWithLimit D limit segments = result at hfetched
  cases hfetched with
  | whole h => exact absurd h hcut.not_wholeLog
  | cut _ => rfl
  | failed h => exact absurd hcut h

end Spec

/-! ### A log of two frames -/

/-- The head of a response whose body has twenty bytes. -/
def logHeadBytes : Bytes :=
  ("HTTP/1.1 200 OK\r\nContent-Type: application/vnd.docker.multiplexed-stream\r\n".toList ++
    "Content-Length: 20\r\n\r\n".toList).map fun c => UInt8.ofNat c.toNat

/-- What the head says. -/
def logHead : ResponseHead :=
  ⟨200, [("Content-Type".toList, "application/vnd.docker.multiplexed-stream".toList),
    ("Content-Length".toList, "20".toList)]⟩

/-- A connection on which that response arrives. -/
def logWire : Wire := Wire.ofContentLength logHeadBytes logHead 20

instance (i : ℕ) (received : Bytes) : Decidable (logWire.complete i received) :=
  inferInstanceAs (Decidable ((Wire.ofContentLength _ _ _).complete i received))

instance : DecidablePred logWire.acceptable :=
  inferInstanceAs (DecidablePred (Wire.ofContentLength _ _ _).acceptable)

/-- There is a sound decoder for it. -/
theorem sound_logWire : Sound logWire.reference logWire "GET".toList logWire.Follows :=
  Wire.sound_ofContentLength logHeadBytes logHead 20 _

/-- The two frames of the body. -/
def logFrames : Bytes × Bytes :=
  ([1, 0, 0, 0, 0, 0, 0, 2, 104, 105], [2, 0, 0, 0, 0, 0, 0, 2, 108, 111])

/-- **The fetch passes a truncated log off as complete exactly if it is cut short.** The
fetch ends well at the end of the connection as it does at that of the body, and in the
first case nothing is said of what is missing. -/
theorem fetchLogs_neverTruncated_iff {δ : Type} {D : ResponseDecoder δ} {w : Wire}
    {Tracks : δ → Http.Cursor → Prop} (S : Sound D w "GET".toList Tracks) (limit : ℕ)
    {segments : List Bytes} (hne : ∀ segment ∈ segments, segment ≠ []) :
    NeverTruncated w segments.flatten (fetchLogsOneshotBlockingWithLimit D limit segments) ↔
      ¬ CutShort limit w segments.flatten := by
  have hfetched := fetchLogs_spec limit S hne
  generalize fetchLogsOneshotBlockingWithLimit D limit segments = result at hfetched
  cases hfetched with
  | @whole logs h =>
      constructor
      · intro _ hcut
        exact hcut.not_wholeLog h
      · intro _
        constructor
        · intro logs' heq
          exact Except.ok.inj heq ▸ h
        · intro head kind hhead hkind hcut
          obtain ⟨head', kind', hhead', -, -, hcomplete, -⟩ := h
          obtain ⟨-, rfl⟩ := Prod.mk.inj (Option.some.inj (hhead.symm.trans hhead'))
          exact absurd (hcomplete hkind) hcut
  | cut h =>
      constructor
      · intro hnever
        exact absurd (hnever.1 _ rfl) h.not_wholeLog
      · intro hnot
        exact absurd h hnot
  | @failed e h =>
      constructor
      · intro _
        exact h
      · intro _
        exact ⟨by simp, fun _ _ _ _ _ => ⟨e, rfl⟩⟩

/-- Both frames arrive, and nothing is truncated. -/
theorem fetchLogs_neverTruncated_twoFrames :
    NeverTruncated logWire [logHeadBytes, logFrames.1, logFrames.2].flatten
      (fetchLogsOneshotBlockingWithLimit logWire.reference 64
        [logHeadBytes, logFrames.1, logFrames.2]) := by
  refine (fetchLogs_neverTruncated_iff sound_logWire 64 (by decide +kernel)).mpr ?_
  rintro ⟨-, -, -, -, -, hcut, -⟩
  exact hcut (by decide +kernel)

/-- Behind the first of the two frames the connection ends. That frame is returned as the whole
log, although the body is not complete. -/
theorem truncatedLog_returned :
    Sound logWire.reference logWire "GET".toList logWire.Follows ∧
    fetchLogsOneshotBlockingWithLimit logWire.reference 64 [logHeadBytes, logFrames.1] =
      .ok ([104, 105], []) ∧
    ¬ NeverTruncated logWire [logHeadBytes, logFrames.1].flatten
      (fetchLogsOneshotBlockingWithLimit logWire.reference 64 [logHeadBytes, logFrames.1]) := by
  have hcut : CutShort 64 logWire [logHeadBytes, logFrames.1].flatten :=
    ⟨logHead, .contentLength 20, by decide +kernel, by decide +kernel, by decide, by decide +kernel,
      by decide +kernel, by decide +kernel⟩
  have hresult := fetchLogs_of_cutShort sound_logWire (by decide +kernel) hcut
  have hlogs : demuxExecStream (logWire.body 0 [logHeadBytes, logFrames.1].flatten) =
      ([104, 105], []) := by decide +kernel
  refine ⟨sound_logWire, hresult.trans (congrArg _ hlogs), ?_⟩
  intro hnever
  exact hcut.not_wholeLog (hnever.1 _ hresult)

end ContainerRs
