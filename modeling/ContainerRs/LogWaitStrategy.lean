import ContainerRs.Lib.Checked
import ContainerRs.Lib.Occurrences
import ContainerRs.SharedLogBuffer
import Mathlib.Data.List.Forall2
import Mathlib.Data.List.GetD

/-!
# Waiting for a Log Message

`LogWaitStrategy` (wait/log_strategy.rs) polls the log readers of a container until a
message has occurred often enough. Each reader has a `StreamMatcher`, which searches the
stream chunk by chunk and carries over the last `pattern.length - 1` bytes. Once the
container has ended, the wait goes on for a grace period and then gives up with the last
bytes it has read.

A round of the loop asks every reader once; what the readers return, whether the container
has ended and what time it is are inputs of the round.

## Main results

* `StreamMatcher.Represents.feed`: a chunk is counted as if the stream were searched whole.
* `LogWait.Represents.waitRound`: what a round adds up, and when it is the last one.
* `streamMatcher_chunking`: counts, carry and total of any chunking and any rounds.
-/

namespace ContainerRs

open Checked Occurrences

/-! ### The matcher -/

/-- Counts the occurrences of a pattern in a byte stream. -/
structure StreamMatcher where
  pattern : Bytes
  carry : Bytes
  count : ℕ
  deriving DecidableEq, Repr

namespace StreamMatcher

/-- A matcher at the start of a stream. -/
def new (pattern : Bytes) : StreamMatcher := { pattern, carry := [], count := 0 }

/-- Search a chunk: the number of occurrences so far, and the matcher for the next chunk. An
empty pattern always counts as found. -/
def feed (m : StreamMatcher) (chunk : Bytes) : ℕ × StreamMatcher :=
  if m.pattern = [] then (usizeMax, m)
  else
    let buf := m.carry ++ chunk
    if m.pattern.length ≤ buf.length then
      let count := m.count +
        (windows m.pattern.length buf).countP fun w => decide (w = m.pattern)
      let keep := m.pattern.length - 1
      (count, { m with carry := buf.drop (buf.length - min keep buf.length), count })
    else (m.count, { m with carry := buf })

/-- Search chunk after chunk: what `feed` returns for each of them, and the matcher behind
the last one. -/
def feedAll (m : StreamMatcher) : List Bytes → List ℕ × StreamMatcher
  | [] => ([], m)
  | chunk :: chunks =>
      let fed := m.feed chunk
      let rest := fed.2.feedAll chunks
      (fed.1 :: rest.1, rest.2)

/-- The matcher has searched the stream `total` for the pattern. -/
structure Represents (m : StreamMatcher) (pattern total : Bytes) : Prop where
  pattern_eq : m.pattern = pattern
  count_eq : m.count = occurrences pattern total
  carry_eq : m.carry = total.rtake (pattern.length - 1)

variable {m : StreamMatcher} {pattern total : Bytes}

/-- A new matcher has counted in nothing and keeps nothing. -/
theorem represents_new (hp : pattern ≠ []) : (new pattern).Represents pattern [] :=
  ⟨rfl, (occurrences_nil hp).symm, (List.rtake_nil _).symm⟩

/-- The carried bytes are fewer than the pattern has. -/
theorem Represents.carry_length_le (h : m.Represents pattern total) :
    m.carry.length ≤ pattern.length - 1 := by
  rw [h.carry_eq]
  exact length_rtake_le _ _

/-- **The step lemma**: a chunk is counted as if the stream were searched whole. While there is too
little to hold an occurrence, all of it is carried over. -/
theorem Represents.feed (hp : pattern ≠ []) (h : m.Represents pattern total)
    (chunk : Bytes) :
    (m.feed chunk).1 = occurrences pattern (total ++ chunk) ∧
      (m.feed chunk).2.Represents pattern (total ++ chunk) := by
  obtain ⟨pattern', carry, count⟩ := m
  obtain ⟨rfl, hcount, hcarry⟩ := h
  simp only at hp hcount hcarry
  have hwhole : occurrences pattern' (total ++ chunk) =
      count + occurrences pattern' (carry ++ chunk) := by
    rw [occurrences_append hp, hcount, hcarry]
  have hkeep : (carry ++ chunk).rtake (pattern'.length - 1) =
      (total ++ chunk).rtake (pattern'.length - 1) := by
    rw [hcarry, rtake_append_rtake]
  rw [StreamMatcher.feed, if_neg hp]
  by_cases hlen : pattern'.length ≤ (carry ++ chunk).length
  · have hmin : min (pattern'.length - 1) (carry ++ chunk).length = pattern'.length - 1 := by
      omega
    simp only [if_pos hlen, hmin, count_windows hp]
    exact ⟨hwhole.symm, rfl, hwhole.symm, hkeep⟩
  · have hnone : occurrences pattern' (carry ++ chunk) = 0 :=
      occurrences_of_length_lt (by omega)
    have hcarry' : carry ++ chunk = (total ++ chunk).rtake (pattern'.length - 1) := by
      rw [← hkeep, rtake_of_length_le (by omega)]
    rw [hnone, Nat.add_zero] at hwhole
    simp only [if_neg hlen]
    exact ⟨hwhole.symm, rfl, hwhole.symm, hcarry'⟩

/-- **The run lemma**: after each chunk the count is that of the bytes fed so far. By
induction on the chunks, of which the first is counted by the step lemma. -/
theorem Represents.feedAll (hp : pattern ≠ []) (h : m.Represents pattern total)
    (chunks : List Bytes) :
    (m.feedAll chunks).1 =
        chunks.inits.tail.map (fun fed => occurrences pattern (total ++ fed.flatten)) ∧
      (m.feedAll chunks).2.Represents pattern (total ++ chunks.flatten) := by
  induction chunks generalizing m total with
  | nil =>
      rw [List.flatten_nil, List.append_nil]
      exact ⟨rfl, h⟩
  | cons chunk chunks ih =>
      obtain ⟨hcount, hfed⟩ := h.feed hp chunk
      obtain ⟨hcounts, hrest⟩ := ih hfed
      rw [StreamMatcher.feedAll, List.flatten_cons, ← List.append_assoc]
      refine ⟨?_, hrest⟩
      cases chunks with
      | nil => simp [hcount, StreamMatcher.feedAll]
      | cons next rest =>
          simp only [List.append_assoc] at hcounts
          simp [hcount, hcounts, Function.comp_def]

end StreamMatcher

/-! ### The log kept for the diagnosis -/

/-- How many bytes are kept for the report that the log has ended. -/
def maxCollectedLogBytes : ℕ := 1024 * 1024

/-- The bytes read last, over all readers. -/
structure CollectedLogs where
  buf : Bytes
  deriving DecidableEq, Repr

namespace CollectedLogs

/-- Nothing read yet. -/
def new : CollectedLogs := { buf := [] }

/-- Add bytes at the end and drop the oldest ones beyond the limit. -/
def push (logs : CollectedLogs) (bytes : Bytes) : CollectedLogs :=
  if bytes.isEmpty then logs
  else
    let keep :=
      if maxCollectedLogBytes < bytes.length then
        bytes.drop (bytes.length - maxCollectedLogBytes)
      else bytes
    { buf := (SharedLogBuffer.popWhileOver maxCollectedLogBytes (logs.buf ++ keep) 0).1 }

/-- The bytes kept. -/
def intoBytes (logs : CollectedLogs) : Bytes := logs.buf

/-- What is kept are the last bytes of everything pushed; an oversized chunk fills the buffer
alone. -/
theorem buf_push {logs : CollectedLogs} {all : Bytes}
    (h : logs.buf = all.rtake maxCollectedLogBytes) (bytes : Bytes) :
    (logs.push bytes).buf = (all ++ bytes).rtake maxCollectedLogBytes := by
  rw [push]
  split
  · next hempty => rw [List.isEmpty_iff.mp hempty, List.append_nil, h]
  · simp only [SharedLogBuffer.popWhileOver_eq]
    rw [← List.rtake]
    split
    · next hlong =>
        have hchunk : bytes.length - maxCollectedLogBytes ≤ bytes.length := Nat.sub_le _ _
        have hfull : (bytes.rtake maxCollectedLogBytes).length = maxCollectedLogBytes := by
          rw [List.rtake, List.length_drop]
          omega
        rw [← List.rtake, rtake_append_of_length_le _ hfull.ge,
          rtake_append_of_length_le _ hlong.le, rtake_of_length_le hfull.le]
    · rw [h, rtake_append_rtake]

end CollectedLogs

/-! ### The wait -/

/-- Where the message is looked for. -/
inductive LogSource
  | stdOut
  | stdErr
  | bothStd
  deriving DecidableEq, Repr

/-- The number of readers of a source. -/
def LogSource.readers : LogSource → ℕ
  | .stdOut | .stdErr => 1
  | .bothStd => 2

/-- Wait until `message` has occurred `times` times. -/
structure LogWaitStrategy where
  source : LogSource
  message : Bytes
  times : ℕ
  deriving DecidableEq, Repr

/-- What a read returns within the poll interval: bytes, nothing at the end of the file, an
error, or no answer in time. -/
inductive ReadOutcome
  | read (bytes : Bytes)
  | failed
  | elapsed
  deriving DecidableEq, Repr

/-- The bytes that a read has delivered. -/
def ReadOutcome.bytes : ReadOutcome → Bytes
  | .read bytes => bytes
  | .failed | .elapsed => []

/-- What a round of the loop meets: the answer of each of the `n` readers, whether the
container has ended (its exit code is known or its log stream is terminated), and the time
in milliseconds. -/
structure Round (n : ℕ) where
  reads : List ReadOutcome
  length_reads : reads.length = n
  ended : Bool
  now : ℕ

/-- How long the log of an ended container is still read, in milliseconds. -/
def drainGrace : ℕ := 2000

/-- The locals of the loop. -/
structure LogWait where
  matchers : List StreamMatcher
  exitedAt : Option ℕ
  collected : CollectedLogs
  deriving DecidableEq, Repr

/-- How the wait ends. -/
inductive WaitLogResult
  | ready
  | io
  | endOfStream (collected : Bytes)
  deriving DecidableEq, Repr

/-- What one pass over the readers has gathered. -/
structure Pass where
  progressed : Bool
  total : ℕ
  matchers : List StreamMatcher
  collected : CollectedLogs
  deriving DecidableEq, Repr

namespace LogWait

/-- The loop over the readers and their matchers; nothing when a read fails. -/
def pollReaders (pass : Pass) : List StreamMatcher → List ReadOutcome → Option Pass
  | m :: matchers, outcome :: reads =>
      match outcome with
      | .failed => none
      | .read (b :: bytes) =>
          let fed := m.feed (b :: bytes)
          pollReaders
            { progressed := true, total := saturatingAdd usizeMax pass.total fed.1,
              matchers := pass.matchers ++ [fed.2],
              collected := pass.collected.push (b :: bytes) } matchers reads
      | .read [] | .elapsed =>
          let fed := m.feed []
          pollReaders
            { pass with
              total := saturatingAdd usizeMax pass.total fed.1
              matchers := pass.matchers ++ [fed.2] } matchers reads
  | _, _ => some pass

/-- The locals in front of the loop. -/
def start (strategy : LogWaitStrategy) : LogWait :=
  { matchers := List.replicate strategy.source.readers (StreamMatcher.new strategy.message)
    exitedAt := none
    collected := CollectedLogs.new }

/-- The pass of a round. -/
def poll {n : ℕ} (s : LogWait) (round : Round n) : Option Pass :=
  pollReaders { progressed := false, total := 0, matchers := [], collected := s.collected }
    s.matchers round.reads

/-- One round of the loop: the wait goes on, or it ends. -/
def waitRound (strategy : LogWaitStrategy) (s : LogWait)
    (round : Round strategy.source.readers) : LogWait ⊕ WaitLogResult :=
  match s.poll round with
  | none => .inr .io
  | some pass =>
      let s : LogWait := { s with matchers := pass.matchers, collected := pass.collected }
      if strategy.times ≤ pass.total then .inr .ready
      else if pass.progressed then .inl s
      else if round.ended then
        let exitedAt := s.exitedAt.getD round.now
        if drainGrace ≤ round.now - exitedAt then .inr (.endOfStream pass.collected.intoBytes)
        else .inl { s with exitedAt := some exitedAt }
      else .inl s

/-- The loop, as long as rounds are given. -/
def waitRounds (strategy : LogWaitStrategy) (s : LogWait) :
    List (Round strategy.source.readers) → LogWait ⊕ WaitLogResult
  | [] => .inl s
  | round :: rounds =>
      match s.waitRound strategy round with
      | .inl s => s.waitRounds strategy rounds
      | .inr result => .inr result

end LogWait

/-! ### What the wait counts -/

/-- What reader `i` has delivered in the rounds. -/
def delivered {n : ℕ} (rounds : List (Round n)) (i : ℕ) : Bytes :=
  rounds.flatMap fun round => (round.reads.map ReadOutcome.bytes).getD i []

/-- What each of the readers has delivered in the rounds. -/
def streams {n : ℕ} (rounds : List (Round n)) : List Bytes := (List.range n).map (delivered rounds)

/-- Everything delivered in the rounds, in the order of the reads. -/
def deliveredAll {n : ℕ} (rounds : List (Round n)) : Bytes :=
  rounds.flatMap fun round => round.reads.flatMap ReadOutcome.bytes

/-- The number of occurrences of a message in all streams, as far as a `usize` can count. -/
def totalOccurrences (message : Bytes) (streams : List Bytes) : ℕ :=
  min (streams.map (occurrences message)).sum usizeMax

/-- A round adds what each reader returns to its stream. -/
theorem streams_concat {n : ℕ} (rounds : List (Round n)) (round : Round n) :
    streams (rounds ++ [round]) =
      List.zipWith (· ++ ·) (streams rounds) (round.reads.map ReadOutcome.bytes) := by
  refine List.ext_getElem ?_ ?_
  · simp [streams, round.length_reads]
  · intro i hi hi'
    have hread : i < (round.reads.map ReadOutcome.bytes).length := by
      rw [List.length_zipWith] at hi'
      omega
    simp only [streams, delivered, List.getElem_map, List.getElem_range, List.flatMap_append,
      List.flatMap_singleton, List.getElem_zipWith]
    rw [List.getD_eq_getElem _ _ hread, List.getElem_map]

namespace LogWait

/-- After the rounds, each matcher has searched what its reader delivered, and the last
bytes are kept. -/
structure Represents {n : ℕ} (s : LogWait) (message : Bytes) (rounds : List (Round n)) :
    Prop where
  matchers : List.Forall₂ (fun m stream => m.Represents message stream) s.matchers
    (streams rounds)
  collected : s.collected.buf = (deliveredAll rounds).rtake maxCollectedLogBytes

/-- At the start of a wait no reader has delivered anything. There is one matcher for each
reader, by induction on how many there are. -/
theorem represents_start (strategy : LogWaitStrategy) (hmessage : strategy.message ≠ []) :
    (start strategy).Represents strategy.message
      ([] : List (Round strategy.source.readers)) := by
  have hempty : streams ([] : List (Round strategy.source.readers)) =
      List.replicate strategy.source.readers [] := by
    rw [streams, List.eq_replicate_iff]
    refine ⟨by simp, ?_⟩
    intro stream hstream
    obtain ⟨i, -, rfl⟩ := List.mem_map.mp hstream
    rfl
  refine ⟨?_, (List.rtake_nil _).symm⟩
  rw [hempty, start]
  generalize strategy.source.readers = n
  induction n with
  | zero => exact List.Forall₂.nil
  | succ n ih => exact List.Forall₂.cons (StreamMatcher.represents_new hmessage) ih

/-- A read that does not fail is fed to the matcher as the bytes it has delivered. -/
theorem pollReaders_cons {pass : Pass} {m : StreamMatcher} {ms : List StreamMatcher}
    {outcome : ReadOutcome} {reads : List ReadOutcome} (h : outcome ≠ .failed) :
    pollReaders pass (m :: ms) (outcome :: reads) = pollReaders
      { progressed := pass.progressed || !outcome.bytes.isEmpty
        total := saturatingAdd usizeMax pass.total (m.feed outcome.bytes).1
        matchers := pass.matchers ++ [(m.feed outcome.bytes).2]
        collected := pass.collected.push outcome.bytes } ms reads := by
  cases outcome with
  | failed => exact absurd rfl h
  | elapsed => simp [pollReaders, ReadOutcome.bytes, CollectedLogs.push]
  | read bytes =>
      cases bytes with
      | nil => simp [pollReaders, ReadOutcome.bytes, CollectedLogs.push]
      | cons b bytes => simp [pollReaders, ReadOutcome.bytes]

/-- **The pass lemma**: for matchers that have searched the given streams, a pass feeds
each of them what its reader returns and adds up the occurrences. -/
theorem pollReaders_spec {message : Bytes} (hmessage : message ≠ []) {pass pass' : Pass}
    {ms : List StreamMatcher} {streams : List Bytes} {reads : List ReadOutcome}
    (hms : List.Forall₂ (fun m stream => m.Represents message stream) ms streams)
    (hlen : reads.length = streams.length) (htotal : pass.total ≤ usizeMax)
    (h : pollReaders pass ms reads = some pass') :
    (∃ ms', pass'.matchers = pass.matchers ++ ms' ∧
        List.Forall₂ (fun m stream => m.Represents message stream) ms'
          (List.zipWith (· ++ ·) streams (reads.map ReadOutcome.bytes))) ∧
      pass'.total = min (pass.total + ((List.zipWith (· ++ ·) streams
        (reads.map ReadOutcome.bytes)).map (occurrences message)).sum) usizeMax ∧
      ∀ all, pass.collected.buf = all.rtake maxCollectedLogBytes →
        pass'.collected.buf =
          (all ++ reads.flatMap ReadOutcome.bytes).rtake maxCollectedLogBytes := by
  induction hms generalizing pass reads with
  | nil =>
      obtain rfl := List.length_eq_zero_iff.mp hlen
      obtain rfl := Option.some.inj h
      refine ⟨⟨[], (List.append_nil _).symm, List.Forall₂.nil⟩, ?_, ?_⟩
      · simp [htotal]
      · intro all hall
        rw [List.flatMap_nil, List.append_nil, hall]
  | @cons m stream ms streams hm _ ih =>
      obtain ⟨outcome, reads, rfl⟩ := List.exists_cons_of_length_eq_add_one hlen
      rw [List.length_cons, List.length_cons, Nat.add_right_cancel_iff] at hlen
      by_cases hfail : outcome = .failed
      · rw [hfail] at h
        exact absurd h (by simp [pollReaders])
      · rw [pollReaders_cons hfail] at h
        obtain ⟨hcount, hfed⟩ := hm.feed hmessage outcome.bytes
        obtain ⟨⟨ms', hms', hsearched⟩, htotal', hcollected⟩ :=
          ih hlen (Nat.min_le_right _ _) h
        rw [List.map_cons, List.zipWith_cons_cons]
        refine ⟨⟨(m.feed outcome.bytes).2 :: ms', ?_, .cons hfed hsearched⟩, ?_, ?_⟩
        · rw [hms', List.append_assoc, List.singleton_append]
        · rw [htotal', List.map_cons, List.sum_cons, ← hcount]
          simp only [saturatingAdd]
          omega
        · intro all hall
          rw [List.flatMap_cons, ← List.append_assoc]
          exact hcollected _ (CollectedLogs.buf_push hall _)

variable {n : ℕ} {s : LogWait} {message : Bytes} {rounds : List (Round n)}

/-- What the pass of a round adds up and keeps. -/
theorem Represents.poll (hmessage : message ≠ []) (h : s.Represents message rounds)
    {round : Round n} {pass : Pass} (hpass : s.poll round = some pass) :
    pass.total = totalOccurrences message (streams (rounds ++ [round])) ∧
      ∀ exitedAt, (LogWait.mk pass.matchers exitedAt pass.collected).Represents message
        (rounds ++ [round]) := by
  have hlen : round.reads.length = (streams rounds).length := by
    simp [streams, round.length_reads]
  obtain ⟨⟨ms, hms, hsearched⟩, htotal, hcollected⟩ :=
    pollReaders_spec hmessage h.matchers hlen (Nat.zero_le _) hpass
  rw [← streams_concat] at hsearched htotal
  rw [List.nil_append] at hms
  refine ⟨by rw [htotal, Nat.zero_add, totalOccurrences], fun exitedAt => ⟨hms ▸ hsearched, ?_⟩⟩
  rw [hcollected _ h.collected, deliveredAll, deliveredAll, List.flatMap_append,
    List.flatMap_singleton]

/-- **The round lemma**: a round ends the wait with success exactly if the streams hold the
message often enough by then; if the wait goes on they do not, and if it gives up it reports
the last bytes. -/
theorem Represents.waitRound {strategy : LogWaitStrategy} {s : LogWait}
    {rounds : List (Round strategy.source.readers)} (hmessage : strategy.message ≠ [])
    (h : s.Represents strategy.message rounds) (round : Round strategy.source.readers) :
    match s.waitRound strategy round with
    | .inl s' => s'.Represents strategy.message (rounds ++ [round]) ∧
        totalOccurrences strategy.message (streams (rounds ++ [round])) < strategy.times
    | .inr .ready =>
        strategy.times ≤ totalOccurrences strategy.message (streams (rounds ++ [round]))
    | .inr (.endOfStream bytes) =>
        bytes = (deliveredAll (rounds ++ [round])).rtake maxCollectedLogBytes ∧
          totalOccurrences strategy.message (streams (rounds ++ [round])) < strategy.times
    | .inr .io => s.poll round = none := by
  rw [LogWait.waitRound]
  cases hpass : s.poll round with
  | none => rfl
  | some pass =>
      obtain ⟨htotal, hnext⟩ := h.poll hmessage hpass
      simp only [← htotal]
      by_cases hready : strategy.times ≤ pass.total
      · simp only [if_pos hready]
        exact hready
      · have hlt := Nat.lt_of_not_le hready
        by_cases hprogressed : pass.progressed = true
        · simp only [if_neg hready, if_pos hprogressed]
          exact ⟨hnext _, hlt⟩
        · by_cases hended : round.ended = true
          · by_cases hgrace : drainGrace ≤ round.now - s.exitedAt.getD round.now
            · simp only [if_neg hready, if_neg hprogressed, if_pos hended, if_pos hgrace]
              exact ⟨(hnext none).collected, hlt⟩
            · simp only [if_neg hready, if_neg hprogressed, if_pos hended, if_neg hgrace]
              exact ⟨hnext _, hlt⟩
          · simp only [if_neg hready, if_neg hprogressed, if_neg hended]
            exact ⟨hnext _, hlt⟩

/-- **The run lemma**: as long as the wait goes on, every matcher has searched all that its
reader delivered. -/
theorem Represents.waitRounds {strategy : LogWaitStrategy} {s s' : LogWait}
    {before rounds : List (Round strategy.source.readers)} (hmessage : strategy.message ≠ [])
    (h : s.Represents strategy.message before)
    (hwait : s.waitRounds strategy rounds = .inl s') :
    s'.Represents strategy.message (before ++ rounds) := by
  induction rounds generalizing s before with
  | nil =>
      obtain rfl := Sum.inl.inj hwait
      rwa [List.append_nil]
  | cons round rounds ih =>
      have hround := h.waitRound hmessage round
      rw [LogWait.waitRounds] at hwait
      split at hwait
      · next hnext =>
          rw [hnext] at hround
          rw [List.append_cons]
          exact ih hround.1 hwait
      · exact absurd hwait (by simp)

end LogWait

/-- **Matching does not depend on the chunking**: after each chunk the count is the number
of occurrences in the bytes fed so far, so it never decreases, and fewer bytes than the
pattern has are carried over; and the total of each round of a wait is the number of
occurrences in all that its readers have delivered. -/
theorem streamMatcher_chunking (pattern : Bytes) (hp : pattern ≠ []) :
    (∀ chunks : List Bytes,
      ((StreamMatcher.new pattern).feedAll chunks).1 =
          chunks.inits.tail.map (fun fed => occurrences pattern fed.flatten) ∧
        ((StreamMatcher.new pattern).feedAll chunks).1.Pairwise (· ≤ ·) ∧
        ((StreamMatcher.new pattern).feedAll chunks).2.carry.length ≤ pattern.length - 1) ∧
      ∀ (source : LogSource) (times : ℕ) (rounds : List (Round source.readers)) (s : LogWait)
        (round : Round source.readers) (pass : Pass),
        (LogWait.start ⟨source, pattern, times⟩).waitRounds ⟨source, pattern, times⟩ rounds =
            .inl s →
          s.poll round = some pass →
          pass.total = totalOccurrences pattern (streams (rounds ++ [round])) := by
  constructor
  · intro chunks
    obtain ⟨hcounts, hfed⟩ := (StreamMatcher.represents_new hp).feedAll hp chunks
    simp only [List.nil_append] at hcounts
    refine ⟨hcounts, ?_, hfed.carry_length_le⟩
    rw [hcounts, List.pairwise_map]
    refine (pairwise_inits chunks).tail.imp ?_
    rintro fed - ⟨more, rfl⟩
    rw [List.flatten_append]
    exact occurrences_le_append hp _ _
  · intro source times rounds s round pass hwait hpass
    have hstart := LogWait.represents_start ⟨source, pattern, times⟩ hp
    exact ((hstart.waitRounds hp hwait).poll hp hpass).1

/-- Both readers return an "a" and are at the end of the file then. -/
def firstRound : Round LogSource.bothStd.readers :=
  { reads := [.read [97], .read [97]], length_reads := rfl, ended := false, now := 0 }

/-- The standard output goes on with "aa", the standard error does not answer in time. -/
def secondRound : Round LogSource.bothStd.readers :=
  { reads := [.read [97, 97], .elapsed], length_reads := rfl, ended := true, now := 100 }

/-- The pattern "aa" in "a", nothing, "aa", and in the streams of a wait. -/
theorem streamMatcher_chunking_overlapping :
    ((StreamMatcher.new [97, 97]).feedAll [[97], [], [97, 97]]).1 = [0, 0, 2] ∧
      ∃ s pass, (LogWait.start ⟨.bothStd, [97, 97], 3⟩).waitRounds ⟨.bothStd, [97, 97], 3⟩
          [firstRound] = .inl s ∧ s.poll secondRound = some pass ∧ pass.total = 2 := by
  obtain ⟨hchunks, hwait⟩ := streamMatcher_chunking [97, 97] (by decide)
  refine ⟨(hchunks [[97], [], [97, 97]]).1.trans (by decide), _, _, rfl, rfl, ?_⟩
  exact (hwait .bothStd 3 [firstRound] _ secondRound _ rfl rfl).trans (by decide)

end ContainerRs
