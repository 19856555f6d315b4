import ContainerRs.FrameDemuxer
import ContainerRs.LogStream

/-!
# Demultiplexing into Strict Buffers

The one-shot fetch of a log (docker_log_stream.rs) demultiplexes the stream into two strict
buffers, which refuse what does not fit, and takes their contents out with `drain_buffer` at
the end.

A machine that fails has been fed a front of the stream: the stream it names exceeds the
limit there and the other one does not. What the batch decoder yields only grows along the
stream, so the bytes of the stream alone decide whether a machine fails and which stream it
names.

## Main results

* `demuxExecStream_append`: more bytes only add to what the batch decoder yields.
* `feedAll_strict`: how a machine over strict buffers ends.
* `drainBuffer_eq`: draining takes out the whole buffer.
* `strictDemux_all_or_error`: all of both streams, or an error that does not depend on the
  chunks.
-/

namespace ContainerRs

/-! ### Draining a buffer -/

/-- A read that returns bytes moves the offset on, within the buffer. -/
theorem SharedLogBuffer.readAt_progress {b : SharedLogBuffer} {offset dst : ℕ}
    (h : (b.readAt offset dst).1 ≠ []) :
    offset < (b.readAt offset dst).2.1 ∧ (b.readAt offset dst).2.1 ≤ b.tail := by
  rw [readAt_eq] at h ⊢
  rw [Ne, List.take_eq_nil_iff, List.drop_eq_nil_iff, not_or, not_le] at h
  simp only [tail]
  omega

/-- The loop of `drain_buffer`: read on from `offset` until nothing is read. -/
def drainLoop (b : SharedLogBuffer) (offset : ℕ) (out : Bytes) : Bytes :=
  if _hread : (b.readAt offset readChunk).1 = [] then out
  else drainLoop b (b.readAt offset readChunk).2.1 (out ++ (b.readAt offset readChunk).1)
termination_by b.tail - offset
decreasing_by
  obtain ⟨hlt, hle⟩ := SharedLogBuffer.readAt_progress _hread
  omega

/-- Take out all that a buffer holds. -/
def drainBuffer (b : SharedLogBuffer) : Bytes := drainLoop b b.head []

/-- **The loop takes out the rest of the buffer**, by induction on what is left of it
behind the offset. -/
theorem drainLoop_eq {b : SharedLogBuffer} {n offset : ℕ} (out : Bytes) (hhead : b.head ≤ offset)
    (hn : b.buf.length - (offset - b.head) ≤ n) :
    drainLoop b offset out = out ++ b.buf.drop (offset - b.head) := by
  induction n using Nat.strong_induction_on generalizing offset out with
  | _ n ih =>
      have hmax : max offset b.head = offset := Nat.max_eq_left hhead
      rw [drainLoop]
      split
      · next hnil =>
          rw [SharedLogBuffer.readAt_eq, hmax, List.take_eq_nil_iff, readChunk] at hnil
          rw [hnil.resolve_left (by decide), List.append_nil]
      · next hne =>
          obtain ⟨hlt, -⟩ := SharedLogBuffer.readAt_progress hne
          rw [SharedLogBuffer.readAt_eq, hmax] at hne hlt ⊢
          simp only at hne hlt ⊢
          rw [ih (b.buf.length - (offset + min readChunk (b.buf.length - (offset - b.head)) -
            b.head)) (by omega) _ (by omega) (Nat.le_refl _), List.append_assoc]
          congr 1
          have hoff : offset + min readChunk (b.buf.length - (offset - b.head)) - b.head =
              offset - b.head + min readChunk (b.buf.length - (offset - b.head)) := by omega
          rw [hoff, ← List.drop_drop, ← List.length_drop]
          conv_rhs => rw [← List.take_append_drop readChunk (b.buf.drop (offset - b.head))]
          congr 1
          rcases Nat.le_total readChunk (b.buf.drop (offset - b.head)).length with h | h
          · rw [Nat.min_eq_left h]
          · rw [Nat.min_eq_right h, List.drop_length, List.drop_of_length_le h]

/-- **Draining takes out the whole buffer.** -/
theorem drainBuffer_eq (b : SharedLogBuffer) : drainBuffer b = b.buf := by
  rw [drainBuffer, drainLoop_eq [] (Nat.le_refl _) (Nat.le_refl _), Nat.sub_self,
    List.drop_zero, List.nil_append]

/-! ### The buffers after an iteration -/

/-- The buffers that an iteration of `feed` over nonempty `data` leaves, also when it
fails. -/
def stepBuffers (s : FeedState) (data : Bytes) : SharedLogBuffer × SharedLogBuffer :=
  if s.demuxer.inPayload = false then (s.stdout, s.stderr)
  else
    let chunk := data.take (min s.demuxer.payloadRemaining data.length)
    if s.demuxer.streamType = 1 then ((s.stdout.append chunk).1, s.stderr)
    else if s.demuxer.streamType = 2 then (s.stdout, (s.stderr.append chunk).1)
    else (s.stdout, s.stderr)

/-- Bytes that are refused leave the buffer as it was. Only a strict buffer refuses, and
before anything is put into it. -/
theorem SharedLogBuffer.append_refused {b : SharedLogBuffer} {data : Bytes}
    (h : (b.append data).2 = false) : (b.append data).1 = b := by
  rw [append] at h ⊢
  split
  · rfl
  · next hne =>
      rw [if_neg hne] at h
      split
      · split
        · rfl
        · next hstrict hfits => simp [hstrict, hfits] at h
      · next hfollow => simp [hfollow] at h

/-- An iteration that succeeds leaves the buffers of the state after it. One case for each
branch of the iteration. -/
theorem stepBuffers_of_ok {s s' : FeedState} {data data' : Bytes}
    (h : feedStep s data = .ok (s', data')) : stepBuffers s data = (s'.stdout, s'.stderr) := by
  rw [feedStep] at h
  rw [stepBuffers]
  split
  · next hp =>
      rw [if_pos hp] at h
      obtain ⟨rfl, -⟩ := Prod.mk.inj (Except.ok.inj h)
      rfl
  next hp =>
  simp only [if_neg hp] at h
  dsimp only
  split
  · next h1 =>
      rw [if_pos h1] at h
      split at h
      · obtain ⟨rfl, -⟩ := Prod.mk.inj (Except.ok.inj h)
        rfl
      · exact absurd h (by simp)
  next h1 =>
  rw [if_neg h1] at h
  split
  · next h2 =>
      rw [if_pos h2] at h
      split at h
      · obtain ⟨rfl, -⟩ := Prod.mk.inj (Except.ok.inj h)
        rfl
      · exact absurd h (by simp)
  · next h2 =>
      rw [if_neg h2] at h
      obtain ⟨rfl, -⟩ := Prod.mk.inj (Except.ok.inj h)
      rfl

/-- An iteration that fails leaves both buffers as they were. Only a delivery fails, and
it is refused as a whole. -/
theorem stepBuffers_of_error {s : FeedState} {data : Bytes} {e : String}
    (h : feedStep s data = .error e) : stepBuffers s data = (s.stdout, s.stderr) := by
  rw [feedStep] at h
  rw [stepBuffers]
  split
  · rfl
  next hp =>
  simp only [if_neg hp] at h
  dsimp only
  split
  · next h1 =>
      rw [if_pos h1] at h
      split at h
      · exact absurd h (by simp)
      · next hrefused => rw [SharedLogBuffer.append_refused (by simpa using hrefused)]
  next h1 =>
  rw [if_neg h1] at h
  split
  · next h2 =>
      rw [if_pos h2] at h
      split at h
      · exact absurd h (by simp)
      · next hrefused => rw [SharedLogBuffer.append_refused (by simpa using hrefused)]
  · rfl

/-! ### How a machine over strict buffers ends -/

/-- Two strict buffers of one limit, with nothing ever dropped. -/
structure StrictOk (limit : ℕ) (s : FeedState) : Prop where
  wellFormed : s.demuxer.WellFormed
  strictOut : s.stdout.strict = true
  strictErr : s.stderr.strict = true
  limitOut : s.stdout.limit = limit
  limitErr : s.stderr.limit = limit
  headOut : s.stdout.head = 0
  headErr : s.stderr.head = 0
  fitsOut : s.stdout.buf.length ≤ limit
  fitsErr : s.stderr.buf.length ≤ limit

/-- A fresh machine over two strict buffers. -/
def strictStart (limit : ℕ) : FeedState :=
  FeedState.start (SharedLogBuffer.newStrict limit) (SharedLogBuffer.newStrict limit)

/-- In the beginning both buffers are empty. -/
theorem strictOk_start (limit : ℕ) : StrictOk limit (strictStart limit) :=
  ⟨FrameDemuxer.wellFormed_new, rfl, rfl, rfl, rfl, rfl, rfl, Nat.zero_le _, Nat.zero_le _⟩

/-- The outputs of which the stream `name` exceeds the limit, and the other one does not. -/
def Exceeds (limit : ℕ) (name : String) (outputs : Bytes × Bytes) : Prop :=
  name = "stdout" ∧ limit < outputs.1.length ∧ outputs.2.length ≤ limit ∨
    name = "stderr" ∧ outputs.1.length ≤ limit ∧ limit < outputs.2.length

/-- A strict buffer takes what fits, and refuses what does not. -/
theorem SharedLogBuffer.append_strict_refuses {b : SharedLogBuffer} {data : Bytes}
    (hb : b.strict = true) (hover : b.limit < b.buf.length + data.length)
    (hfits : b.buf.length ≤ b.limit) : (b.append data).2 = false := by
  have hne : data.isEmpty = false := by
    rw [List.isEmpty_eq_false_iff]
    rintro rfl
    rw [List.length_nil] at hover
    omega
  rw [append, hne, hb]
  simp [hover]

/-- A delivery into strict buffers: the chunk is appended, or the stream it belongs to would exceed
the limit. No other stream can be over it. -/
theorem StrictOk.deliver {limit : ℕ} {s : FeedState} (h : StrictOk limit s)
    {demuxer : FrameDemuxer} (hwf : demuxer.WellFormed) (streamType : UInt8) (chunk : Bytes) :
    (∃ s', s.deliver demuxer streamType chunk = .ok s' ∧ StrictOk limit s' ∧
      s'.demuxer = demuxer ∧ s'.outputs = andThen s.outputs (route streamType chunk)) ∨
    ∃ name, s.deliver demuxer streamType chunk = .error (exceedsLimit name limit) ∧
      Exceeds limit name (andThen s.outputs (route streamType chunk)) := by
  by_cases hfits : (andThen s.outputs (route streamType chunk)).1.length ≤ limit ∧
      (andThen s.outputs (route streamType chunk)).2.length ≤ limit
  · obtain ⟨hout, herr⟩ := hfits
    obtain ⟨s', hdeliver, hdemuxer, houtputs, hlimitOut, hlimitErr, hstrictOut, hstrictErr,
      hheadOut, hheadErr⟩ := FeedState.deliver_of_fits (s := s) demuxer
        (by rw [h.limitOut]; exact hout) (by rw [h.limitErr]; exact herr)
    refine .inl ⟨s', hdeliver, ?_, hdemuxer, houtputs⟩
    rw [← houtputs] at hout herr
    exact ⟨hdemuxer ▸ hwf, hstrictOut.trans h.strictOut, hstrictErr.trans h.strictErr,
      hlimitOut.trans h.limitOut, hlimitErr.trans h.limitErr, hheadOut.trans h.headOut,
      hheadErr.trans h.headErr, hout, herr⟩
  rw [FeedState.deliver]
  by_cases h1 : streamType = 1
  · have hroute : andThen s.outputs (route streamType chunk) =
        (s.stdout.buf ++ chunk, s.stderr.buf) := by
      simp [route, h1, andThen, FeedState.outputs]
    rw [hroute] at hfits ⊢
    have hover : limit < s.stdout.buf.length + chunk.length := by
      have := h.fitsErr
      simp only [List.length_append] at hfits
      omega
    rw [if_pos h1, SharedLogBuffer.append_strict_refuses h.strictOut
      (by rw [h.limitOut]; exact hover) (by rw [h.limitOut]; exact h.fitsOut), h.limitOut]
    exact .inr ⟨"stdout", rfl, .inl ⟨rfl, by rw [List.length_append]; exact hover, h.fitsErr⟩⟩
  by_cases h2 : streamType = 2
  · have hroute : andThen s.outputs (route streamType chunk) =
        (s.stdout.buf, s.stderr.buf ++ chunk) := by
      simp [route, h2, andThen, FeedState.outputs]
    rw [hroute] at hfits ⊢
    have hover : limit < s.stderr.buf.length + chunk.length := by
      have := h.fitsOut
      simp only [List.length_append] at hfits
      omega
    rw [if_neg h1, if_pos h2, SharedLogBuffer.append_strict_refuses h.strictErr
      (by rw [h.limitErr]; exact hover) (by rw [h.limitErr]; exact h.fitsErr), h.limitErr]
    exact .inr ⟨"stderr", rfl, .inr ⟨rfl, h.fitsOut, by rw [List.length_append]; exact hover⟩⟩
  · have hroute : andThen s.outputs (route streamType chunk) = s.outputs := by
      rw [route, if_neg h1, if_neg h2, andThen_nil_right]
    rw [hroute] at hfits
    exact absurd ⟨h.fitsOut, h.fitsErr⟩ hfits

/-- **The step lemma.** One iteration consumes a front of the data and leaves the outcome as
it was, or it fails behind a front at which the stream it names exceeds the limit. -/
theorem StrictOk.feedStep {limit : ℕ} {s : FeedState} (h : StrictOk limit s) {data : Bytes}
    (hdata : data ≠ []) :
    (∃ s' front back, feedStep s data = .ok (s', back) ∧ data = front ++ back ∧ front ≠ [] ∧
      StrictOk limit s' ∧ ∀ rest, s'.outcome rest = s.outcome (front ++ rest)) ∨
    ∃ name front back, feedStep s data = .error (exceedsLimit name limit) ∧
      data = front ++ back ∧ Exceeds limit name (s.outcome front) := by
  obtain ⟨n, demuxer, streamType, chunk, hn, hle, hwf, hstep, hpend⟩ :=
    feedStep_eq hdata h.wellFormed
  have hsplit : data = data.take n ++ data.drop n := (List.take_append_drop n data).symm
  rcases h.deliver hwf streamType chunk with ⟨s', hdeliver, hok, rfl, houtputs⟩ |
    ⟨name, hdeliver, hexceeds⟩
  · refine .inl ⟨s', data.take n, data.drop n, by rw [hstep, hdeliver]; rfl, hsplit, ?_, hok, ?_⟩
    · rw [Ne, List.take_eq_nil_iff]
      rintro (hzero | hnil)
      · omega
      · exact hdata hnil
    · intro rest
      rw [FeedState.outcome, FeedState.outcome, hpend, houtputs, andThen_assoc]
  · refine .inr ⟨name, data.take n, data.drop n, by rw [hstep, hdeliver]; rfl, hsplit, ?_⟩
    have hfront := hpend []
    rw [List.append_nil, FrameDemuxer.pending_nil hwf, andThen_nil_right] at hfront
    rw [FeedState.outcome, hfront]
    exact hexceeds

/-- How a machine in state `s` ends that has been fed `data`: with the outcome it had, or
failed behind a front of the data. -/
def EndsStrict (limit : ℕ) (s : FeedState) (data : Bytes)
    (result : Option (Except String FeedState)) : Prop :=
  (∃ s', result = some (.ok s') ∧ StrictOk limit s' ∧
    ∀ rest, s'.outcome rest = s.outcome (data ++ rest)) ∨
  ∃ name front back, result = some (.error (exceedsLimit name limit)) ∧
    data = front ++ back ∧ Exceeds limit name (s.outcome front)

/-- A machine that has consumed a front of the data ends as from where it stands now. -/
theorem EndsStrict.of_front {limit : ℕ} {s s₁ : FeedState} {front data : Bytes}
    {result : Option (Except String FeedState)}
    (hoc : ∀ rest, s₁.outcome rest = s.outcome (front ++ rest))
    (h : EndsStrict limit s₁ data result) : EndsStrict limit s (front ++ data) result := by
  rcases h with ⟨s', hresult, hok, hoc'⟩ | ⟨name, front', back, hresult, rfl, hexceeds⟩
  · refine .inl ⟨s', hresult, hok, ?_⟩
    intro rest
    rw [hoc', hoc, List.append_assoc]
  · refine .inr ⟨name, front ++ front', back, hresult, (List.append_assoc ..).symm, ?_⟩
    rw [← hoc]
    exact hexceeds

/-- The loop over `data`. By induction on the fuel: an iteration takes at least one byte,
or the limit is exceeded by the front it has read. -/
theorem StrictOk.feedLoop {limit fuel : ℕ} {s : FeedState} (h : StrictOk limit s)
    {data : Bytes} (hfuel : data.length ≤ fuel) :
    EndsStrict limit s data (feedLoop fuel s data) := by
  induction fuel generalizing s data with
  | zero =>
      obtain rfl : data = [] := List.length_eq_zero_iff.mp (by omega)
      exact .inl ⟨s, rfl, h, fun rest => rfl⟩
  | succ fuel ih =>
      by_cases hdata : data = []
      · subst hdata
        exact .inl ⟨s, rfl, h, fun rest => rfl⟩
      have hempty : data.isEmpty = false := by simpa using hdata
      rw [ContainerRs.feedLoop, hempty]
      rcases h.feedStep hdata with ⟨s₁, front, back, hstep, rfl, hne, hok, hoc⟩ |
        ⟨name, front, back, hstep, hsplit, hexceeds⟩
      · have hpos : 0 < front.length := List.length_pos_iff.mpr hne
        rw [List.length_append] at hfuel
        simp only [hstep, Bool.false_eq_true, if_false]
        exact (ih hok (by omega)).of_front hoc
      · simp only [hstep, Bool.false_eq_true, if_false]
        exact .inr ⟨name, front, back, rfl, hsplit, hexceeds⟩

/-- The flags of a `feed` are no part of how the machine ends. -/
theorem StrictOk.feed {limit : ℕ} {s : FeedState} (h : StrictOk limit s) (data : Bytes) :
    EndsStrict limit s data (feed s data) := by
  have hclear : StrictOk limit { s with wroteOut := false, wroteErr := false } :=
    ⟨h.wellFormed, h.strictOut, h.strictErr, h.limitOut, h.limitErr, h.headOut, h.headErr,
      h.fitsOut, h.fitsErr⟩
  exact hclear.feedLoop (Nat.le_refl _)

/-- **The run lemma**: chunk after chunk, a machine over strict buffers ends as if it had
been fed the whole. -/
theorem feedAll_strict {limit : ℕ} {s : FeedState} (h : StrictOk limit s)
    (chunks : List Bytes) : EndsStrict limit s chunks.flatten (feedAll s chunks) := by
  induction chunks generalizing s with
  | nil => exact .inl ⟨s, rfl, h, fun rest => rfl⟩
  | cons chunk chunks ih =>
      rw [List.flatten_cons, feedAll]
      rcases h.feed chunk with ⟨s₁, hfeed, hok, hoc⟩ | ⟨name, front, back, hfeed, rfl, hexceeds⟩
      · rw [hfeed]
        exact (ih hok).of_front hoc
      · rw [hfeed]
        exact .inr ⟨name, front, back ++ chunks.flatten, rfl, List.append_assoc .., hexceeds⟩

/-! ### The bytes alone decide -/

/-- **More bytes only add** to what the batch decoder yields: a machine over buffers with room for
all of it has what the front yields, and the rest pending. -/
theorem demuxExecStream_append (front back : Bytes) :
    ∃ more, demuxExecStream (front ++ back) = andThen (demuxExecStream front) more := by
  obtain ⟨limit, hlimit⟩ : ∃ limit, limit =
      (demuxExecStream (front ++ back)).1.length + (demuxExecStream (front ++ back)).2.length +
      (demuxExecStream front).1.length + (demuxExecStream front).2.length := ⟨_, rfl⟩
  have hready : ∀ data, (demuxExecStream data).1.length ≤ limit →
      (demuxExecStream data).2.length ≤ limit → (strictStart limit).Ready data :=
    fun data hout herr => ⟨FrameDemuxer.wellFormed_new, hout, herr⟩
  have hwhole := hready (front ++ back) (by omega) (by omega)
  have hfront := hready front (by omega) (by omega)
  rw [← List.append_nil front] at hfront
  obtain ⟨s, hfeed, -, hoc⟩ := feed_spec hwhole
  obtain ⟨s', hfeed', hready, hoc'⟩ := feed_spec hfront
  obtain rfl : s = s' := Except.ok.inj (Option.some.inj (hfeed.symm.trans hfeed'))
  rw [FeedState.outcome, FrameDemuxer.pending_nil hready.wellFormed, andThen_nil_right,
    List.append_nil] at hoc'
  refine ⟨s.demuxer.pending back, ?_⟩
  have houtputs : s.outputs = demuxExecStream front := hoc'
  rw [← houtputs]
  exact hoc.symm

/-- The outcome of a fresh machine is what the batch decoder yields. -/
theorem outcome_strictStart (limit : ℕ) (data : Bytes) :
    (strictStart limit).outcome data = demuxExecStream data := rfl

/-- What exceeds the limit at a front of the stream does so at its end. -/
theorem Exceeds.of_front {limit : ℕ} {name : String} {front : Bytes}
    (h : Exceeds limit name (demuxExecStream front)) (back : Bytes) :
    name = "stdout" ∧ limit < (demuxExecStream (front ++ back)).1.length ∨
      name = "stderr" ∧ limit < (demuxExecStream (front ++ back)).2.length := by
  obtain ⟨more, hmore⟩ := demuxExecStream_append front back
  rw [hmore, andThen, List.length_append, List.length_append]
  rcases h with ⟨rfl, hover, -⟩ | ⟨rfl, -, hover⟩
  · exact .inl ⟨rfl, Nat.lt_add_right _ hover⟩
  · exact .inr ⟨rfl, Nat.lt_add_right _ hover⟩

/-- Of two fronts, the longer one does not name another stream than the shorter one. -/
theorem Exceeds.unique_of_le {limit : ℕ} {name name' : String} {front more : Bytes}
    (h : Exceeds limit name (demuxExecStream front))
    (h' : Exceeds limit name' (demuxExecStream (front ++ more))) : name = name' := by
  have hend := h.of_front more
  rcases hend with ⟨rfl, hover⟩ | ⟨rfl, hover⟩ <;>
    rcases h' with ⟨rfl, hout, herr⟩ | ⟨rfl, hout, herr⟩
  · rfl
  · omega
  · omega
  · rfl

/-- **Every front names the same stream.** -/
theorem Exceeds.unique {limit : ℕ} {name name' : String} {front back front' back' : Bytes}
    (hsplit : front ++ back = front' ++ back')
    (h : Exceeds limit name (demuxExecStream front))
    (h' : Exceeds limit name' (demuxExecStream front')) : name = name' := by
  rcases List.append_eq_append_iff.mp hsplit with ⟨more, rfl, -⟩ | ⟨more, rfl, -⟩
  · exact h.unique_of_le h'
  · exact (h'.unique_of_le h).symm

/-- A fresh machine that has not failed holds all of both streams, within the limit. -/
theorem EndsStrict.outputs_of_ok {limit : ℕ} {data : Bytes} {s : FeedState}
    (h : EndsStrict limit (strictStart limit) data (some (.ok s))) :
    StrictOk limit s ∧ s.outputs = demuxExecStream data := by
  rcases h with ⟨s', hs, hok, hoc⟩ | ⟨name, front, back, he, -⟩
  · obtain rfl : s = s' := Except.ok.inj (Option.some.inj hs)
    have hend := hoc []
    rw [FeedState.outcome, FrameDemuxer.pending_nil hok.wellFormed, andThen_nil_right,
      List.append_nil, outcome_strictStart] at hend
    exact ⟨hok, hend⟩
  · exact absurd he (by simp)

/-- A fresh machine that has failed names a stream that exceeds the limit at a front. -/
theorem EndsStrict.exceeds_of_error {limit : ℕ} {data : Bytes} {e : String}
    (h : EndsStrict limit (strictStart limit) data (some (.error e))) :
    ∃ name front back, e = exceedsLimit name limit ∧ data = front ++ back ∧
      Exceeds limit name (demuxExecStream front) := by
  rcases h with ⟨s', hs, -⟩ | ⟨name, front, back, he, hsplit, hexceeds⟩
  · exact absurd hs (by simp)
  · exact ⟨name, front, back, Except.error.inj (Option.some.inj he), hsplit, hexceeds⟩

/-- What a machine over strict buffers ends with. -/
theorem EndsStrict.exists_result {limit : ℕ} {s : FeedState} {data : Bytes}
    {result : Option (Except String FeedState)} (h : EndsStrict limit s data result) :
    ∃ r, result = some r := by
  rcases h with ⟨s', hs, -⟩ | ⟨name, front, back, he, -⟩
  · exact ⟨_, hs⟩
  · exact ⟨_, he⟩

/-- Machines that are fed the same bytes fail alike. One that had not failed would
hold outputs that exceed the limit, and two that have failed name the first stream
that does. -/
theorem EndsStrict.error_unique {limit : ℕ} {data : Bytes} {e : String}
    {result : Option (Except String FeedState)}
    (h : EndsStrict limit (strictStart limit) data (some (.error e)))
    (h' : EndsStrict limit (strictStart limit) data result) : result = some (.error e) := by
  obtain ⟨name, front, back, rfl, hsplit, hexceeds⟩ := h.exceeds_of_error
  obtain ⟨r, rfl⟩ := h'.exists_result
  cases r with
  | ok s =>
      obtain ⟨hok, houtputs⟩ := h'.outputs_of_ok
      have hout := congrArg (fun x => x.1.length) houtputs
      have herr := congrArg (fun x => x.2.length) houtputs
      have := hok.fitsOut
      have := hok.fitsErr
      rw [hsplit] at hout herr
      simp only [FeedState.outputs] at hout herr
      rcases hexceeds.of_front back with ⟨-, hover⟩ | ⟨-, hover⟩ <;> omega
  | error e' =>
      obtain ⟨name', front', back', rfl, hsplit', hexceeds'⟩ := h'.exceeds_of_error
      rw [hexceeds'.unique (hsplit'.symm.trans hsplit) hexceeds]

/-- **All or an error.** A fresh machine over two strict buffers that is fed a sequence of
encoded frames in any chunks comes to a result. It fails exactly if the payloads of one of
the two streams exceed the limit; the error names such a stream, and any other chunks of the
same bytes lead to the same error. If it does not fail, draining the buffers yields all
payloads of both streams, and nothing has been dropped. And an iteration that fails leaves
both buffers as they were, where one that succeeds leaves those of the state behind it. -/
theorem strictDemux_all_or_error {limit : ℕ} {frames : List Frame} {chunks : List Bytes}
    (hcut : chunks.flatten = frames.flatMap Frame.encode) :
    (∃ result, feedAll (strictStart limit) chunks = some result) ∧
    ((∃ e, feedAll (strictStart limit) chunks = some (.error e)) ↔
      limit < (Frame.payloads 1 frames).length ∨ limit < (Frame.payloads 2 frames).length) ∧
    (∀ e, feedAll (strictStart limit) chunks = some (.error e) →
      (e = exceedsLimit "stdout" limit ∧ limit < (Frame.payloads 1 frames).length ∨
        e = exceedsLimit "stderr" limit ∧ limit < (Frame.payloads 2 frames).length) ∧
      ∀ chunks', chunks'.flatten = chunks.flatten →
        feedAll (strictStart limit) chunks' = some (.error e)) ∧
    (∀ s, feedAll (strictStart limit) chunks = some (.ok s) →
      drainBuffer s.stdout = Frame.payloads 1 frames ∧
        drainBuffer s.stderr = Frame.payloads 2 frames ∧
        s.stdout.head = 0 ∧ s.stderr.head = 0) ∧
    (∀ s data s' data', feedStep s data = .ok (s', data') →
      stepBuffers s data = (s'.stdout, s'.stderr)) ∧
    ∀ s data e, feedStep s data = .error e → stepBuffers s data = (s.stdout, s.stderr) := by
  have hends : ∀ chunks' : List Bytes, chunks'.flatten = chunks.flatten →
      EndsStrict limit (strictStart limit) chunks.flatten (feedAll (strictStart limit) chunks') :=
    fun chunks' hflat => hflat ▸ feedAll_strict (strictOk_start limit) chunks'
  have hdemux : demuxExecStream chunks.flatten =
      (Frame.payloads 1 frames, Frame.payloads 2 frames) := by
    rw [hcut, demuxExecStream_encodeFrames]
  have hfail : ∀ e, feedAll (strictStart limit) chunks = some (.error e) →
      e = exceedsLimit "stdout" limit ∧ limit < (Frame.payloads 1 frames).length ∨
        e = exceedsLimit "stderr" limit ∧ limit < (Frame.payloads 2 frames).length := by
    intro e he
    obtain ⟨name, front, back, rfl, hsplit, hexceeds⟩ := (he ▸ hends chunks rfl).exceeds_of_error
    have hover := hexceeds.of_front back
    rw [← hsplit, hdemux] at hover
    exact hover.imp (fun ⟨hname, h⟩ => ⟨by rw [hname], h⟩) (fun ⟨hname, h⟩ => ⟨by rw [hname], h⟩)
  refine ⟨(hends chunks rfl).exists_result, ⟨?_, ?_⟩, fun e he => ⟨hfail e he, ?_⟩, ?_,
    fun s data s' data' h => stepBuffers_of_ok h, fun s data e h => stepBuffers_of_error h⟩
  · rintro ⟨e, he⟩
    exact (hfail e he).imp And.right And.right
  · intro hover
    obtain ⟨r, hr⟩ := (hends chunks rfl).exists_result
    cases r with
    | error e => exact ⟨e, hr⟩
    | ok s =>
        obtain ⟨hok, houtputs⟩ := (hr ▸ hends chunks rfl).outputs_of_ok
        obtain ⟨hout, herr⟩ := Prod.mk.inj (houtputs.trans hdemux)
        rw [← hout, ← herr] at hover
        exact absurd hover (not_or.mpr ⟨Nat.not_lt.mpr hok.fitsOut, Nat.not_lt.mpr hok.fitsErr⟩)
  · intro chunks' hflat
    exact (he ▸ hends chunks rfl).error_unique (hends chunks' hflat)
  · intro s hs
    obtain ⟨hok, houtputs⟩ := (hs ▸ hends chunks rfl).outputs_of_ok
    obtain ⟨hout, herr⟩ := Prod.mk.inj (houtputs.trans hdemux)
    exact ⟨(drainBuffer_eq _).trans hout, (drainBuffer_eq _).trans herr, hok.headOut,
      hok.headErr⟩

/-- Three stdout bytes at a limit of two, cut inside the header and inside the payload. -/
theorem strictDemux_all_or_error_cut :
    (∃ e, feedAll (strictStart 2) [[1, 0, 0], [0, 0, 0, 0, 3, 104], [105, 10]] =
      some (.error e)) ∧
      2 < (Frame.payloads 1 [⟨1, [0, 0, 0], [104, 105, 10], rfl, by decide⟩]).length := by
  have hcut : [[1, 0, 0], [0, 0, 0, 0, 3, 104], [105, 10]].flatten =
      [(⟨1, [0, 0, 0], [104, 105, 10], rfl, by decide⟩ : Frame)].flatMap Frame.encode := by
    decide +kernel
  have hover : 2 < (Frame.payloads 1 [⟨1, [0, 0, 0], [104, 105, 10], rfl, by decide⟩]).length := by
    decide +kernel
  exact ⟨(strictDemux_all_or_error hcut).2.1.mpr (.inl hover), hover⟩

end ContainerRs
