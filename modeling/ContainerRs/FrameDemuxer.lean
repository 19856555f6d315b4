import ContainerRs.SharedLogBuffer

/-!
# Demultiplexing the Docker Stream

Docker multiplexes stdout and stderr into frames: an eight byte header (stream type, three
reserved bytes, big-endian payload length) and the payload. The crate decodes them twice:
`demuxExecStream` (docker_client.rs) walks over the complete output of an exec, and
`FrameDemuxer.feed` (docker_log_stream.rs) is an incremental machine that may be cut
anywhere and appends to the shared buffers.

The two are compared through `FrameDemuxer.pending`: what a machine in a given state is
still to produce from the bytes to come, said with the batch decoder alone. One iteration
of the loop of `feed` moves bytes from `pending` to the buffers (`feedStep_spec`), a fresh
machine has all of `demuxExecStream` pending, and a machine at the end of its input has
nothing pending.

## Main results

* `feed_eq_demuxExecStream`: every cutting of every byte string.
* `demuxExecStream_encodeFrames`: what the decoder yields on encoded frames.
* `demux_streaming_eq_batch`: the two together.
-/

namespace ContainerRs

open Positional

/-- The length of a frame header. -/
def frameHeaderLen : ℕ := 8

/-- The stream type in a frame header. -/
def headerStreamType (header : Bytes) : UInt8 := header.headD 0

/-- The payload length in a frame header: bytes 4 to 7, big-endian. -/
def headerPayloadLen (header : Bytes) : ℕ :=
  valueBE 256 (((header.drop 4).take 4).map UInt8.toNat)

/-- The stdout and stderr share of a payload chunk; stdin and unknown types are dropped. -/
def route (streamType : UInt8) (chunk : Bytes) : Bytes × Bytes :=
  if streamType = 1 then (chunk, [])
  else if streamType = 2 then ([], chunk)
  else ([], [])

/-- Outputs one after the other, stream by stream. -/
def andThen (x y : Bytes × Bytes) : Bytes × Bytes := (x.1 ++ y.1, x.2 ++ y.2)

/-! ### The batch decoder -/

/-- The loop of `demux_exec_stream`, with `rest` the slice from the current position. -/
def demuxLoop : ℕ → Bytes → Bytes × Bytes → Bytes × Bytes
  | 0, _, out => out
  | fuel + 1, rest, out =>
      if frameHeaderLen ≤ rest.length then
        let body := rest.drop frameHeaderLen
        let payloadLen := headerPayloadLen rest
        demuxLoop fuel (body.drop payloadLen)
          (andThen out (route (headerStreamType rest) (body.take payloadLen)))
      else out

/-- Decode the complete multiplexed output of an exec into stdout and stderr. -/
def demuxExecStream (data : Bytes) : Bytes × Bytes :=
  demuxLoop data.length data ([], [])

@[simp] theorem andThen_nil_left (x : Bytes × Bytes) : andThen ([], []) x = x := rfl

@[simp] theorem andThen_nil_right (x : Bytes × Bytes) : andThen x ([], []) = x := by
  simp [andThen]

/-- Outputs in a row are taken together in any order. -/
theorem andThen_assoc (x y z : Bytes × Bytes) :
    andThen (andThen x y) z = andThen x (andThen y z) := by
  simp [andThen]

/-- Nothing goes to either stream when there is nothing. -/
@[simp] theorem route_nil (t : UInt8) : route t [] = ([], []) := by
  rw [route]
  split
  · rfl
  · split <;> rfl

/-- Splitting a chunk splits its share. -/
theorem route_append (t : UInt8) (a b : Bytes) :
    route t (a ++ b) = andThen (route t a) (route t b) := by
  simp only [route, andThen]
  split
  · simp
  · split <;> simp

/-- The loop appends to its accumulator, and fuel beyond the length of the slice changes nothing:
with any such fuel the loop makes the iterations that it makes with the length of the slice. -/
theorem demuxLoop_eq (fuel : ℕ) (rest : Bytes) (out : Bytes × Bytes)
    (hfuel : rest.length ≤ fuel) :
    demuxLoop fuel rest out = andThen out (demuxExecStream rest) := by
  induction fuel using Nat.strong_induction_on generalizing rest out with
  | _ fuel ih =>
      rw [demuxExecStream]
      cases hrest : rest.length with
      | zero =>
          cases fuel with
          | zero => simp [demuxLoop]
          | succ fuel => simp [demuxLoop, frameHeaderLen, hrest]
      | succ n =>
          obtain ⟨fuel, rfl⟩ : ∃ m, fuel = m + 1 := ⟨fuel - 1, by omega⟩
          rw [demuxLoop, demuxLoop]
          by_cases h : frameHeaderLen ≤ rest.length
          · have hlt : ((rest.drop frameHeaderLen).drop (headerPayloadLen rest)).length ≤ n := by
              simp only [List.length_drop, frameHeaderLen] at h ⊢
              omega
            simp only [if_pos h]
            rw [ih fuel (by omega) _ _ (by omega), ih n (by omega) _ _ hlt,
              andThen_nil_left, andThen_assoc]
          · simp only [if_neg h, andThen_nil_right]

/-- One frame of the batch decoder: the payload bytes present, then the rest. -/
theorem demuxExecStream_of_le {data : Bytes} (h : frameHeaderLen ≤ data.length) :
    demuxExecStream data =
      andThen
        (route (headerStreamType data)
          ((data.drop frameHeaderLen).take (headerPayloadLen data)))
        (demuxExecStream ((data.drop frameHeaderLen).drop (headerPayloadLen data))) := by
  obtain ⟨n, hn⟩ : ∃ n, data.length = n + 1 :=
    ⟨data.length - 1, by simp only [frameHeaderLen] at h; omega⟩
  rw [demuxExecStream, hn, demuxLoop]
  simp only [if_pos h, andThen_nil_left]
  rw [demuxLoop_eq]
  simp only [List.length_drop, frameHeaderLen] at h ⊢
  omega

/-- A tail shorter than a header yields nothing. -/
theorem demuxExecStream_of_lt {data : Bytes} (h : data.length < frameHeaderLen) :
    demuxExecStream data = ([], []) := by
  rw [demuxExecStream]
  cases data.length with
  | zero => rfl
  | succ n => rw [demuxLoop, if_neg (Nat.not_le.mpr h)]

/-! ### The incremental machine -/

/-- The state machine that decodes frames as their bytes arrive. -/
structure FrameDemuxer where
  inPayload : Bool
  header : Bytes
  headerPos : ℕ
  streamType : UInt8
  payloadRemaining : ℕ
  deriving DecidableEq, Repr

namespace FrameDemuxer

/-- A machine in front of the first header. -/
def new : FrameDemuxer :=
  { inPayload := false, header := List.replicate frameHeaderLen 0, headerPos := 0,
    streamType := 0, payloadRemaining := 0 }

/-- Go in front of the next header; the header bytes stay, unread. -/
def resetHeader (d : FrameDemuxer) : FrameDemuxer :=
  { d with inPayload := false, headerPos := 0, streamType := 0, payloadRemaining := 0 }

/-- Copy `bytes` into the header at the current position, and read the header out when
it is full. -/
def takeHeader (d : FrameDemuxer) (bytes : Bytes) : FrameDemuxer :=
  let header := d.header.take d.headerPos ++ bytes ++ d.header.drop (d.headerPos + bytes.length)
  let d := { d with header, headerPos := d.headerPos + bytes.length }
  if d.headerPos = frameHeaderLen then
    let d := { d with
      streamType := headerStreamType header
      payloadRemaining := headerPayloadLen header
      inPayload := true }
    if d.payloadRemaining = 0 then d.resetHeader else d
  else d

/-- Count `n` payload bytes as read. -/
def takePayload (d : FrameDemuxer) (n : ℕ) : FrameDemuxer :=
  let d := { d with payloadRemaining := d.payloadRemaining - n }
  if d.payloadRemaining = 0 then d.resetHeader else d

end FrameDemuxer

/-- The machine with the two buffers it appends to and the flags of the current `feed`
that say which of them was appended to. -/
structure FeedState where
  demuxer : FrameDemuxer
  stdout : SharedLogBuffer
  stderr : SharedLogBuffer
  wroteOut : Bool
  wroteErr : Bool
  deriving DecidableEq, Repr

/-- The error of a strict buffer that is full. -/
def exceedsLimit (stream : String) (limit : ℕ) : String :=
  stream ++ " output exceeds " ++ toString limit ++ " bytes limit"

/-- One iteration of the loop of `feed` over nonempty `data`: the state after it and the
data left. -/
def feedStep (s : FeedState) (data : Bytes) : Except String (FeedState × Bytes) :=
  if s.demuxer.inPayload = false then
    let take := min (frameHeaderLen - s.demuxer.headerPos) data.length
    .ok ({ s with demuxer := s.demuxer.takeHeader (data.take take) }, data.drop take)
  else
    let take := min s.demuxer.payloadRemaining data.length
    let chunk := data.take take
    let demuxer := s.demuxer.takePayload take
    if s.demuxer.streamType = 1 then
      let (stdout, fits) := s.stdout.append chunk
      if fits then
        .ok ({ s with demuxer, stdout, wroteOut := s.wroteOut || !chunk.isEmpty },
          data.drop take)
      else .error (exceedsLimit "stdout" s.stdout.limit)
    else if s.demuxer.streamType = 2 then
      let (stderr, fits) := s.stderr.append chunk
      if fits then
        .ok ({ s with demuxer, stderr, wroteErr := s.wroteErr || !chunk.isEmpty },
          data.drop take)
      else .error (exceedsLimit "stderr" s.stderr.limit)
    else .ok ({ s with demuxer }, data.drop take)

/-- The loop of `feed`; `none` when the fuel does not suffice. -/
def feedLoop : ℕ → FeedState → Bytes → Option (Except String FeedState)
  | fuel, s, data =>
      if data.isEmpty then some (.ok s)
      else
        match fuel with
        | 0 => none
        | fuel + 1 =>
            match feedStep s data with
            | .error e => some (.error e)
            | .ok (s', data') => feedLoop fuel s' data'

/-- Demultiplex the bytes that arrived into the two buffers. The flags of the resulting
state are those that `feed` returns. -/
def feed (s : FeedState) (data : Bytes) : Option (Except String FeedState) :=
  feedLoop data.length { s with wroteOut := false, wroteErr := false } data

/-- Feed chunk after chunk; an error ends the stream. -/
def feedAll (s : FeedState) : List Bytes → Option (Except String FeedState)
  | [] => some (.ok s)
  | chunk :: chunks =>
      match feed s chunk with
      | none => none
      | some (.error e) => some (.error e)
      | some (.ok s') => feedAll s' chunks

/-! ### What a machine has pending -/

namespace FrameDemuxer

/-- The states that `feed` passes: a partial header, or an unfinished payload. -/
structure WellFormed (d : FrameDemuxer) : Prop where
  header_length : d.header.length = frameHeaderLen
  headerPos_lt : d.inPayload = false → d.headerPos < frameHeaderLen
  remaining_pos : d.inPayload = true → 0 < d.payloadRemaining

/-- A new machine expects a header. -/
theorem wellFormed_new : new.WellFormed := by
  refine ⟨rfl, fun _ => by decide, fun h => absurd h (by decide)⟩

/-- What the machine produces from the bytes `rest` to come, said with the batch decoder. -/
def pending (d : FrameDemuxer) (rest : Bytes) : Bytes × Bytes :=
  if d.inPayload then
    andThen (route d.streamType (rest.take d.payloadRemaining))
      (demuxExecStream (rest.drop d.payloadRemaining))
  else demuxExecStream (d.header.take d.headerPos ++ rest)

/-- At the end of its input no machine has anything pending. -/
theorem pending_nil {d : FrameDemuxer} (hd : d.WellFormed) : d.pending [] = ([], []) := by
  have hempty : demuxExecStream [] = ([], []) := rfl
  rw [pending]
  split
  · simp [hempty]
  · next h =>
      have hlt := hd.headerPos_lt (by simpa using h)
      rw [List.append_nil, demuxExecStream_of_lt]
      rw [List.length_take, hd.header_length]
      omega

/-- A machine in front of a header has the batch decoder's output pending. -/
theorem pending_resetHeader (d : FrameDemuxer) (rest : Bytes) :
    d.resetHeader.pending rest = demuxExecStream rest := by
  simp [pending, resetHeader]

/-- A machine that has been reset expects a header. -/
theorem wellFormed_resetHeader {d : FrameDemuxer} (h : d.header.length = frameHeaderLen) :
    d.resetHeader.WellFormed :=
  ⟨h, fun _ => by simp [resetHeader, frameHeaderLen],
    fun h => absurd h (by simp [resetHeader])⟩

/-- Header bytes produce nothing: what was pending from them and the rest is pending from the
rest. When they complete the header, the decoder reads the frame out of it. -/
theorem takeHeader_spec {d : FrameDemuxer} (hd : d.WellFormed) (hp : d.inPayload = false)
    {bytes : Bytes} (hle : d.headerPos + bytes.length ≤ frameHeaderLen) :
    (d.takeHeader bytes).WellFormed ∧
      ∀ rest, d.pending (bytes ++ rest) = (d.takeHeader bytes).pending rest := by
  obtain ⟨header, hheader⟩ : ∃ header, header =
      d.header.take d.headerPos ++ bytes ++ d.header.drop (d.headerPos + bytes.length) :=
    ⟨_, rfl⟩
  have hlen : header.length = frameHeaderLen := by
    have := hd.header_length
    simp only [hheader, List.length_append, List.length_take, List.length_drop]
    omega
  have hfront : header.take (d.headerPos + bytes.length) = d.header.take d.headerPos ++ bytes := by
    have hpre : (d.header.take d.headerPos ++ bytes).length = d.headerPos + bytes.length := by
      have := hd.header_length
      simp only [List.length_append, List.length_take]
      omega
    rw [hheader, ← hpre, List.take_left']
    rfl
  have hpending : ∀ rest, d.pending (bytes ++ rest) =
      demuxExecStream (header.take (d.headerPos + bytes.length) ++ rest) := by
    intro rest
    rw [pending, hp, hfront, List.append_assoc]
    rfl
  simp only [takeHeader, ← hheader]
  by_cases hfull : d.headerPos + bytes.length = frameHeaderLen
  · have hall : header.take (d.headerPos + bytes.length) = header := by
      rw [hfull, ← hlen, List.take_length]
    have hframe : ∀ rest, demuxExecStream (header ++ rest) =
        andThen (route (headerStreamType header) (rest.take (headerPayloadLen header)))
          (demuxExecStream (rest.drop (headerPayloadLen header))) := by
      intro rest
      have htype : headerStreamType (header ++ rest) = headerStreamType header := by
        cases header with
        | nil => exact absurd hlen (by decide)
        | cons x xs => rfl
      have hlength : headerPayloadLen (header ++ rest) = headerPayloadLen header := by
        have h4 : 4 ≤ header.length := by rw [hlen]; decide
        have h44 : 4 ≤ (header.drop 4).length := by rw [List.length_drop, hlen]; decide
        rw [headerPayloadLen, List.drop_append_of_le_length h4,
          List.take_append_of_le_length h44]
        rfl
      have hle' : frameHeaderLen ≤ (header ++ rest).length := by
        rw [List.length_append, hlen]
        exact Nat.le_add_right _ _
      rw [demuxExecStream_of_le hle', htype, hlength, ← hlen, List.drop_left]
    simp only [if_pos hfull]
    by_cases hzero : headerPayloadLen header = 0
    · simp only [if_pos hzero]
      refine ⟨wellFormed_resetHeader hlen, ?_⟩
      intro rest
      rw [hpending, hall, hframe, pending_resetHeader, hzero, List.take_zero, route_nil,
        List.drop_zero, andThen_nil_left]
    · simp only [if_neg hzero]
      refine ⟨⟨hlen, fun h => absurd h (by simp), fun _ => Nat.pos_of_ne_zero hzero⟩, ?_⟩
      intro rest
      rw [hpending, hall, hframe]
      rfl
  · simp only [if_neg hfull]
    refine ⟨⟨hlen, fun _ => by simp only; omega, fun h => absurd h (by simp [hp])⟩, ?_⟩
    intro rest
    rw [hpending, pending]
    simp [hp]

/-- Payload bytes produce their share of the output. When they are the last of their
frame, the machine expects a header again; otherwise the rest of the payload is still to
come. -/
theorem takePayload_spec {d : FrameDemuxer} (hd : d.WellFormed) (hp : d.inPayload = true)
    {chunk : Bytes} (hle : chunk.length ≤ d.payloadRemaining) :
    (d.takePayload chunk.length).WellFormed ∧
      ∀ rest, d.pending (chunk ++ rest) =
        andThen (route d.streamType chunk) ((d.takePayload chunk.length).pending rest) := by
  have htake : ∀ rest : Bytes, (chunk ++ rest).take d.payloadRemaining =
      chunk ++ rest.take (d.payloadRemaining - chunk.length) := by
    intro rest
    rw [List.take_append, List.take_of_length_le hle]
  have hdrop : ∀ rest : Bytes, (chunk ++ rest).drop d.payloadRemaining =
      rest.drop (d.payloadRemaining - chunk.length) := by
    intro rest
    rw [List.drop_append, List.drop_of_length_le hle, List.nil_append]
  have hpending : ∀ rest, d.pending (chunk ++ rest) =
      andThen (route d.streamType chunk)
        (andThen (route d.streamType (rest.take (d.payloadRemaining - chunk.length)))
          (demuxExecStream (rest.drop (d.payloadRemaining - chunk.length)))) := by
    intro rest
    rw [pending, if_pos hp, htake, hdrop, route_append, andThen_assoc]
  simp only [takePayload]
  by_cases hzero : d.payloadRemaining - chunk.length = 0
  · simp only [if_pos hzero]
    refine ⟨wellFormed_resetHeader hd.header_length, ?_⟩
    intro rest
    rw [hpending, pending_resetHeader, hzero, List.take_zero, route_nil, List.drop_zero,
      andThen_nil_left]
  · simp only [if_neg hzero]
    refine ⟨⟨hd.header_length, fun h => absurd h (by simp [hp]), fun _ => Nat.pos_of_ne_zero hzero⟩,
      ?_⟩
    intro rest
    rw [hpending, pending]
    simp [hp]

end FrameDemuxer

/-! ### Feeding chunk after chunk -/

namespace FeedState

/-- A fresh machine over two buffers. -/
def start (stdout stderr : SharedLogBuffer) : FeedState :=
  { demuxer := FrameDemuxer.new, stdout, stderr, wroteOut := false, wroteErr := false }

/-- What the buffers hold now. -/
def outputs (s : FeedState) : Bytes × Bytes := (s.stdout.buf, s.stderr.buf)

/-- What the buffers will hold once `rest` has been fed. -/
def outcome (s : FeedState) (rest : Bytes) : Bytes × Bytes :=
  andThen s.outputs (s.demuxer.pending rest)

/-- The machine is in a state that `feed` passes, and the buffers have room for all that
`rest` makes it produce. -/
structure Ready (s : FeedState) (rest : Bytes) : Prop where
  wellFormed : s.demuxer.WellFormed
  fitsOut : (s.outcome rest).1.length ≤ s.stdout.limit
  fitsErr : (s.outcome rest).2.length ≤ s.stderr.limit

/-- Append a chunk to the buffer of its stream, if it has one, and go on with `demuxer`. -/
def deliver (s : FeedState) (demuxer : FrameDemuxer) (streamType : UInt8) (chunk : Bytes) :
    Except String FeedState :=
  if streamType = 1 then
    if (s.stdout.append chunk).2 then
      .ok { s with
        demuxer, stdout := (s.stdout.append chunk).1
        wroteOut := s.wroteOut || !chunk.isEmpty }
    else .error (exceedsLimit "stdout" s.stdout.limit)
  else if streamType = 2 then
    if (s.stderr.append chunk).2 then
      .ok { s with
        demuxer, stderr := (s.stderr.append chunk).1
        wroteErr := s.wroteErr || !chunk.isEmpty }
    else .error (exceedsLimit "stderr" s.stderr.limit)
  else .ok { s with demuxer }

/-- A chunk for which its buffer has room is appended. One case for each of the two
streams, and one for the bytes of any other. -/
theorem deliver_of_fits {s : FeedState} (demuxer : FrameDemuxer) {streamType : UInt8}
    {chunk : Bytes}
    (hout : (andThen s.outputs (route streamType chunk)).1.length ≤ s.stdout.limit)
    (herr : (andThen s.outputs (route streamType chunk)).2.length ≤ s.stderr.limit) :
    ∃ s', s.deliver demuxer streamType chunk = .ok s' ∧ s'.demuxer = demuxer ∧
      s'.outputs = andThen s.outputs (route streamType chunk) ∧
      s'.stdout.limit = s.stdout.limit ∧ s'.stderr.limit = s.stderr.limit ∧
      s'.stdout.strict = s.stdout.strict ∧ s'.stderr.strict = s.stderr.strict ∧
      s'.stdout.head = s.stdout.head ∧ s'.stderr.head = s.stderr.head := by
  rw [deliver]
  by_cases h1 : streamType = 1
  · simp only [route, if_pos h1, andThen, outputs, List.length_append] at hout
    rw [if_pos h1, SharedLogBuffer.append_fits hout, if_pos rfl]
    refine ⟨_, rfl, rfl, ?_, rfl, rfl, rfl, rfl, rfl, rfl⟩
    simp [route, h1, andThen, outputs]
  by_cases h2 : streamType = 2
  · simp only [route, if_neg h1, if_pos h2, andThen, outputs, List.length_append] at herr
    rw [if_neg h1, if_pos h2, SharedLogBuffer.append_fits herr, if_pos rfl]
    refine ⟨_, rfl, rfl, ?_, rfl, rfl, rfl, rfl, rfl, rfl⟩
    simp [route, h2, andThen, outputs]
  · rw [if_neg h1, if_neg h2]
    refine ⟨_, rfl, rfl, ?_, rfl, rfl, rfl, rfl, rfl, rfl⟩
    simp [route, h1, h2, outputs]

/-- The flags of a `feed` are no part of what it decodes. -/
theorem Ready.clear {s : FeedState} {rest : Bytes} (h : s.Ready rest) (out err : Bool) :
    { s with wroteOut := out, wroteErr := err : FeedState }.Ready rest :=
  ⟨h.wellFormed, h.fitsOut, h.fitsErr⟩

end FeedState

/-- **What an iteration does**: it takes some of the data, delivers one chunk of it, and
goes on with a machine that has the rest pending. -/
theorem feedStep_eq {s : FeedState} {data : Bytes} (hdata : data ≠ [])
    (hwf : s.demuxer.WellFormed) :
    ∃ n demuxer streamType chunk, 0 < n ∧ n ≤ data.length ∧ demuxer.WellFormed ∧
      feedStep s data =
        (s.deliver demuxer streamType chunk).map (fun s' => (s', data.drop n)) ∧
      ∀ rest, s.demuxer.pending (data.take n ++ rest) =
        andThen (route streamType chunk) (demuxer.pending rest) := by
  have hpos : 0 < data.length := List.length_pos_iff.mpr hdata
  cases hp : s.demuxer.inPayload with
  | false =>
      obtain ⟨n, hn⟩ : ∃ n, n = min (frameHeaderLen - s.demuxer.headerPos) data.length :=
        ⟨_, rfl⟩
      have hlt := hwf.headerPos_lt hp
      have hlen : (data.take n).length = n := by
        rw [List.length_take]
        omega
      have hroom : s.demuxer.headerPos + (data.take n).length ≤ frameHeaderLen := by omega
      obtain ⟨hwf', hpend⟩ := FrameDemuxer.takeHeader_spec hwf hp hroom
      refine ⟨n, s.demuxer.takeHeader (data.take n), 0, [], by omega, by omega, hwf', ?_, ?_⟩
      · rw [feedStep, if_pos hp, ← hn]
        rfl
      · intro rest
        rw [hpend, route_nil, andThen_nil_left]
  | true =>
      obtain ⟨n, hn⟩ : ∃ n, n = min s.demuxer.payloadRemaining data.length := ⟨_, rfl⟩
      have hrem := hwf.remaining_pos hp
      have hlen : (data.take n).length = n := by
        rw [List.length_take]
        omega
      have hle : (data.take n).length ≤ s.demuxer.payloadRemaining := by omega
      obtain ⟨hwf', hpend⟩ := FrameDemuxer.takePayload_spec hwf hp hle
      rw [hlen] at hwf' hpend
      refine ⟨n, s.demuxer.takePayload n, s.demuxer.streamType, data.take n, by omega,
        by omega, hwf', ?_, hpend⟩
      have hne : ¬ s.demuxer.inPayload = false := by simp [hp]
      simp only [feedStep, if_neg hne, ← hn, FeedState.deliver]
      by_cases h1 : s.demuxer.streamType = 1
      · simp only [if_pos h1]
        split <;> rfl
      by_cases h2 : s.demuxer.streamType = 2
      · simp only [if_neg h1, if_pos h2]
        split <;> rfl
      · simp only [if_neg h1, if_neg h2]
        rfl

/-- The outcome in front of an iteration, with the chunk it delivers split off. -/
theorem outcome_eq_of_pending {s : FeedState} {data : Bytes} {n : ℕ}
    {demuxer : FrameDemuxer} {share : Bytes × Bytes}
    (h : ∀ rest, s.demuxer.pending (data.take n ++ rest) = andThen share (demuxer.pending rest))
    (rest : Bytes) :
    s.outcome (data ++ rest) =
      andThen (andThen s.outputs share) (demuxer.pending (data.drop n ++ rest)) := by
  have hsplit : data.take n ++ (data.drop n ++ rest) = data ++ rest := by
    rw [← List.append_assoc, List.take_append_drop]
  rw [FeedState.outcome, ← hsplit, h, andThen_assoc]

/-- **The step lemma.** One iteration over nonempty data succeeds, consumes some of it, and
leaves the outcome as it was. -/
theorem feedStep_spec {s : FeedState} {data rest : Bytes} (hdata : data ≠ [])
    (h : s.Ready (data ++ rest)) :
    ∃ s' data', feedStep s data = .ok (s', data') ∧ data'.length < data.length ∧
      s'.Ready (data' ++ rest) ∧ s'.outcome (data' ++ rest) = s.outcome (data ++ rest) := by
  obtain ⟨hwf, hout, herr⟩ := h
  obtain ⟨n, demuxer, streamType, chunk, hn, hle, hwf', hstep, hpend⟩ := feedStep_eq hdata hwf
  have hoc := outcome_eq_of_pending hpend rest
  rw [hoc, andThen] at hout herr
  rw [List.length_append] at hout herr
  obtain ⟨s', hdeliver, rfl, houtputs, hlimitOut, hlimitErr, -⟩ :=
    FeedState.deliver_of_fits demuxer (Nat.le_trans (Nat.le_add_right _ _) hout)
      (Nat.le_trans (Nat.le_add_right _ _) herr)
  have hoc' : s'.outcome (data.drop n ++ rest) = s.outcome (data ++ rest) := by
    rw [hoc, FeedState.outcome, houtputs]
  refine ⟨s', data.drop n, by rw [hstep, hdeliver]; rfl, ?_, ⟨hwf', ?_, ?_⟩, hoc'⟩
  · rw [List.length_drop]
    omega
  · rw [hoc', hoc, andThen, List.length_append, hlimitOut]
    exact hout
  · rw [hoc', hoc, andThen, List.length_append, hlimitErr]
    exact herr

/-- The loop consumes all of `data` and leaves the outcome as it was. By induction on the
fuel: an iteration takes at least one byte, and what it delivers goes over from what is
pending to what has been put out. -/
theorem feedLoop_spec {fuel : ℕ} {s : FeedState} {data rest : Bytes}
    (hfuel : data.length ≤ fuel) (h : s.Ready (data ++ rest)) :
    ∃ s', feedLoop fuel s data = some (.ok s') ∧ s'.Ready rest ∧
      s'.outcome rest = s.outcome (data ++ rest) := by
  induction fuel generalizing s data with
  | zero =>
      obtain rfl : data = [] := List.length_eq_zero_iff.mp (by omega)
      exact ⟨s, by rw [feedLoop]; rfl, h, rfl⟩
  | succ fuel ih =>
      by_cases hdata : data = []
      · subst hdata
        exact ⟨s, by rw [feedLoop]; rfl, h, rfl⟩
      · obtain ⟨s₁, data₁, hstep, hlt, hready, hoc⟩ := feedStep_spec hdata h
        obtain ⟨s', hloop, hready', hoc'⟩ := ih (by omega) hready
        refine ⟨s', ?_, hready', hoc'.trans hoc⟩
        have hempty : data.isEmpty = false := by simpa using hdata
        rw [feedLoop, hempty]
        simp only [hstep, hloop, if_false, Bool.false_eq_true]

/-- A feed succeeds when the buffers have room, and leaves the outcome as it was. -/
theorem feed_spec {s : FeedState} {data rest : Bytes} (h : s.Ready (data ++ rest)) :
    ∃ s', feed s data = some (.ok s') ∧ s'.Ready rest ∧
      s'.outcome rest = s.outcome (data ++ rest) :=
  feedLoop_spec le_rfl (h.clear false false)

/-- **The run lemma.** Feeding chunk after chunk succeeds when the buffers have room for
the whole, and leaves the outcome as it was. -/
theorem feedAll_spec (s : FeedState) {chunks : List Bytes} (h : s.Ready chunks.flatten) :
    ∃ s', feedAll s chunks = some (.ok s') ∧ s'.Ready [] ∧
      s'.outcome [] = s.outcome chunks.flatten := by
  induction chunks generalizing s with
  | nil => exact ⟨s, rfl, h, rfl⟩
  | cons chunk chunks ih =>
      rw [List.flatten_cons] at h ⊢
      obtain ⟨s₁, hfeed, hready, hoc⟩ := feed_spec h
      obtain ⟨s', hall, hready', hoc'⟩ := ih _ hready
      refine ⟨s', ?_, hready', hoc'.trans hoc⟩
      rw [feedAll, hfeed]
      exact hall

/-- Every cutting of a byte string into chunks leaves in the buffers what the batch decoder
yields on the whole. -/
theorem feed_eq_demuxExecStream {stdout stderr : SharedLogBuffer} {chunks : List Bytes}
    (hout : (stdout.buf ++ (demuxExecStream chunks.flatten).1).length ≤ stdout.limit)
    (herr : (stderr.buf ++ (demuxExecStream chunks.flatten).2).length ≤ stderr.limit) :
    ∃ s, feedAll (FeedState.start stdout stderr) chunks = some (.ok s) ∧
      s.outputs = andThen (stdout.buf, stderr.buf) (demuxExecStream chunks.flatten) := by
  obtain ⟨s, hall, hready, hoc⟩ := feedAll_spec (FeedState.start stdout stderr)
    ⟨FrameDemuxer.wellFormed_new, hout, herr⟩
  refine ⟨s, hall, ?_⟩
  rw [FeedState.outcome, FrameDemuxer.pending_nil hready.wellFormed, andThen_nil_right] at hoc
  exact hoc

/-! ### Encoded frames -/

/-- A frame of the multiplexed stream, with its reserved header bytes. -/
structure Frame where
  streamType : UInt8
  reserved : Bytes
  payload : Bytes
  reserved_length : reserved.length = 3
  payload_length : payload.length < 2 ^ 32

namespace Frame

/-- The bytes of a frame: type, reserved bytes, big-endian payload length, payload. -/
def encode (f : Frame) : Bytes :=
  f.streamType :: f.reserved ++ (digitsBE 256 4 f.payload.length).map UInt8.ofNat ++ f.payload

/-- The payloads of the frames of one stream type, in order. -/
def payloads (streamType : UInt8) (frames : List Frame) : Bytes :=
  (frames.filter fun f => f.streamType = streamType).flatMap Frame.payload

end Frame

/-- The batch decoder reads one frame off the front. The length in its header is that of
its payload, so behind it there is the rest. -/
theorem demuxExecStream_encode (f : Frame) (rest : Bytes) :
    demuxExecStream (f.encode ++ rest) =
      andThen (route f.streamType f.payload) (demuxExecStream rest) := by
  obtain ⟨t, reserved, payload, hres, hpay⟩ := f
  obtain ⟨lenBytes, hlenBytes⟩ :
      ∃ l, l = (digitsBE 256 4 payload.length).map UInt8.ofNat := ⟨_, rfl⟩
  have hfour : lenBytes.length = 4 := by rw [hlenBytes, List.length_map, length_digitsBE]
  have hsplit : Frame.encode ⟨t, reserved, payload, hres, hpay⟩ ++ rest =
      (t :: reserved ++ lenBytes) ++ (payload ++ rest) := by
    rw [Frame.encode, ← hlenBytes, List.append_assoc]
  have hheader : (t :: reserved ++ lenBytes).length = frameHeaderLen := by
    rw [List.length_append, List.length_cons, hres, hfour]
    rfl
  have hvalue : headerPayloadLen ((t :: reserved ++ lenBytes) ++ (payload ++ rest)) =
      payload.length := by
    have hdrop : (((t :: reserved ++ lenBytes) ++ (payload ++ rest)).drop 4).take 4 =
        lenBytes := by
      have h4 : (t :: reserved).length = 4 := by rw [List.length_cons, hres]
      rw [List.append_assoc, List.drop_left' h4, List.take_left' hfour]
    rw [headerPayloadLen, hdrop, hlenBytes, map_toNat_map_ofNat_digitsBE,
      valueBE_digitsBE_of_lt (by omega)]
  have hle : frameHeaderLen ≤ ((t :: reserved ++ lenBytes) ++ (payload ++ rest)).length := by
    rw [List.length_append, hheader]
    exact Nat.le_add_right _ _
  rw [hsplit, demuxExecStream_of_le hle, hvalue, List.drop_left' hheader, List.take_left,
    List.drop_left]
  rfl

/-- On encoded frames the batch decoder yields the payloads of types 1 and 2, in order. By
induction on the frames, with the type of the first. -/
theorem demuxExecStream_encodeFrames (frames : List Frame) :
    demuxExecStream (frames.flatMap Frame.encode) =
      (Frame.payloads 1 frames, Frame.payloads 2 frames) := by
  induction frames with
  | nil => rfl
  | cons f frames ih =>
      rw [List.flatMap_cons, demuxExecStream_encode, ih]
      by_cases h1 : f.streamType = 1
      · simp [route, andThen, Frame.payloads, h1]
      by_cases h2 : f.streamType = 2
      · simp [route, andThen, Frame.payloads, h2]
      · simp [route, andThen, Frame.payloads, h1, h2]

/-- **Streaming and batch demultiplexing agree.** Feeding any cutting of any byte string to
a fresh machine over two empty buffers with room for the decoded output succeeds on every
chunk and leaves exactly the batch decoder's pair; and on the concatenation of encoded
frames that pair is the payloads of type 1 and of type 2. -/
theorem demux_streaming_eq_batch :
    (∀ (stdout stderr : SharedLogBuffer) (chunks : List Bytes),
      stdout.buf = [] → stderr.buf = [] →
      (demuxExecStream chunks.flatten).1.length ≤ stdout.limit →
      (demuxExecStream chunks.flatten).2.length ≤ stderr.limit →
      ∃ s, feedAll (FeedState.start stdout stderr) chunks = some (.ok s) ∧
        (s.stdout.buf, s.stderr.buf) = demuxExecStream chunks.flatten) ∧
    ∀ frames : List Frame, demuxExecStream (frames.flatMap Frame.encode) =
      (Frame.payloads 1 frames, Frame.payloads 2 frames) := by
  refine ⟨?_, demuxExecStream_encodeFrames⟩
  intro stdout stderr chunks hout₀ herr₀ hout herr
  rw [← List.nil_append (demuxExecStream chunks.flatten).1, ← hout₀] at hout
  rw [← List.nil_append (demuxExecStream chunks.flatten).2, ← herr₀] at herr
  obtain ⟨s, hall, hs⟩ := feed_eq_demuxExecStream hout herr
  refine ⟨s, hall, ?_⟩
  rw [hout₀, herr₀, andThen_nil_left] at hs
  exact hs

/-- The agreement at a stdout frame cut inside its header and inside its payload. -/
theorem demux_streaming_eq_batch_cut :
    ∃ s, feedAll (FeedState.start (SharedLogBuffer.new 8) (SharedLogBuffer.newStrict 8))
        [[1, 0, 0], [0, 0, 0, 0, 2, 104], [105]] = some (.ok s) ∧
      (s.stdout.buf, s.stderr.buf) = ([104, 105], []) := by
  have hbatch : demuxExecStream [[1, 0, 0], [0, 0, 0, 0, 2, 104], [105]].flatten =
      ([104, 105], []) := by decide +kernel
  rw [← hbatch]
  exact demux_streaming_eq_batch.1 (SharedLogBuffer.new 8) (SharedLogBuffer.newStrict 8)
    [[1, 0, 0], [0, 0, 0, 0, 2, 104], [105]] rfl rfl (by rw [hbatch]; decide)
    (by rw [hbatch]; decide)

end ContainerRs
