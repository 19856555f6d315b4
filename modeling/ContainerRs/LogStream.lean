import ContainerRs.SharedLogBuffer

/-!
# Following a Log Stream

One `LogStream` (docker_log_stream.rs) is shared by the demux thread, which appends decoded
bytes, notifies and finally terminates the stream, and by any number of follow readers:
`LogReader` polls (`poll_fill`), `SyncLogReader` blocks. The module models them as a system
of interleaved atomic steps. A step is one access to the shared state together with the
local code up to the next one: the append under the buffer lock, `notify_waiters`, the
store of `terminated`, a poll of the reader's `Notified`, `read_at` under the lock, the
load of `terminated`.

`Notify` is modelled by what the readers hold: a `Notified` that has been polled is
registered, `notify_waiters` completes every registered one and leaves no permit behind.

## Main results

* `SystemInv.of_step`, `NotifyInv.of_step`: what one step of any party preserves.
* `eof_complete_iff_no_late_append`: the end-of-file reports of a run are complete exactly
  if no append falls between an empty read and the load that finds the stream terminated.
* `no_lost_wakeup`: a parked reader misses neither an append nor the termination.
-/

namespace ContainerRs

/-- The most bytes that one poll takes from the shared buffer. -/
def readChunk : ℕ := 8192

/-! ### The stream and its writer -/

/-- Where the demux thread stands between two accesses to the stream. The pending notify
carries the range of offsets that its append added. -/
inductive Writer
  | demuxing
  | notifyPending (start stop : ℕ)
  | terminateNotifyPending
  | done
  deriving DecidableEq, Repr

/-- The state shared by the parties. As history it keeps the bytes ever appended and the
offset ranges of the appends whose notify has been made. -/
structure LogStream where
  buffer : SharedLogBuffer
  terminated : Bool
  writer : Writer
  appended : Bytes
  notified : List (ℕ × ℕ)
  deriving DecidableEq, Repr

/-- The atomic steps of the demux thread: `drain_decoded` appends the chunks of one
decoded piece under the lock and then notifies; `terminate` stores the flag and then
notifies. -/
inductive WriterStep
  | append (chunks : List Bytes)
  | notifyAppend
  | storeTerminated
  | notifyTerminated
  deriving DecidableEq, Repr

/-- Append chunk after chunk within one hold of the lock. -/
def SharedLogBuffer.appendAll (b : SharedLogBuffer) (chunks : List Bytes) : SharedLogBuffer :=
  chunks.foldl (fun b chunk => (b.append chunk).1) b

namespace LogStream

/-- A new stream with a follow-mode buffer. -/
def new (limit : ℕ) : LogStream :=
  { buffer := SharedLogBuffer.new limit, terminated := false, writer := .demuxing,
    appended := [], notified := [] }

/-- One step of the demux thread. Only a chunk that is not empty asks for a notify (`wrote_out`),
and an error of `consume_body` ends the thread between the append and its notify. -/
def step (log : LogStream) : WriterStep → Option LogStream
  | .append chunks =>
      match log.writer with
      | .demuxing =>
          let buffer := log.buffer.appendAll chunks
          some { log with
            buffer
            appended := log.appended ++ chunks.flatten
            writer :=
              if chunks.any fun chunk => !chunk.isEmpty then
                .notifyPending log.buffer.tail buffer.tail
              else .demuxing }
      | _ => none
  | .notifyAppend =>
      match log.writer with
      | .notifyPending start stop =>
          some { log with writer := .demuxing, notified := log.notified ++ [(start, stop)] }
      | _ => none
  | .storeTerminated =>
      match log.writer with
      | .demuxing | .notifyPending _ _ =>
          some { log with terminated := true, writer := .terminateNotifyPending }
      | _ => none
  | .notifyTerminated =>
      match log.writer with
      | .terminateNotifyPending => some { log with writer := .done }
      | _ => none

end LogStream

/-- Whether a step of the demux thread is a `notify_waiters`. -/
def WriterStep.notifies : WriterStep → Bool
  | .notifyAppend | .notifyTerminated => true
  | _ => false

/-! ### The polling reader -/

/-- A `Notified` after its first poll. -/
inductive Notified
  | registered
  | completed
  deriving DecidableEq, Repr

/-- What a call of `poll_fill` returned. -/
inductive PollResult
  | data
  | eof
  | pending
  deriving DecidableEq, Repr

/-- Where a polling reader stands: outside a call with its last result, or in front of an
access to the shared state. As history, the load of `terminated` carries how many bytes
had been appended when the preceding read found nothing. -/
inductive PollPc
  | idle (last : Option PollResult)
  | pollNotified
  | readBuffer
  | loadTerminated (seen : ℕ)
  deriving DecidableEq, Repr

/-- The asynchronous follow reader. As history it keeps the bytes its caller consumed. -/
structure LogReader where
  offset : ℕ
  warnedSkip : Bool
  buf : Bytes
  pos : ℕ
  wait : Option Notified
  pc : PollPc
  consumed : Bytes
  deriving DecidableEq, Repr

/-- The steps of a polling reader: the call, its three accesses, and the caller's
`consume`. -/
inductive ReaderStep
  | pollFill
  | pollNotified
  | readBuffer
  | loadTerminated
  | consume (amt : ℕ)
  deriving DecidableEq, Repr

namespace LogReader

/-- A reader at the start of the stream. -/
def new : LogReader :=
  { offset := 0, warnedSkip := false, buf := [], pos := 0, wait := none,
    pc := .idle none, consumed := [] }

/-- One step of a polling reader. A wait that has completed is forgotten, and the loop goes round
with a new one. -/
def step (r : LogReader) (log : LogStream) : ReaderStep → Option LogReader
  | .pollFill =>
      match r.pc with
      | .idle _ =>
          if r.pos < r.buf.length then some { r with pc := .idle (some .data) }
          else some { r with pc := .pollNotified }
      | _ => none
  | .pollNotified =>
      match r.pc with
      | .pollNotified =>
          match r.wait with
          | some .completed => some { r with wait := none }
          | _ => some { r with wait := some .registered, pc := .readBuffer }
      | _ => none
  | .readBuffer =>
      match r.pc with
      | .readBuffer =>
          let (bytes, next, skipped) := log.buffer.readAt r.offset readChunk
          let r := { r with
            buf := bytes, pos := 0, offset := next, warnedSkip := r.warnedSkip || skipped }
          if bytes.length > 0 then some { r with wait := none, pc := .idle (some .data) }
          else some { r with pc := .loadTerminated log.appended.length }
      | _ => none
  | .loadTerminated =>
      match r.pc with
      | .loadTerminated _ =>
          if log.terminated then some { r with wait := none, pc := .idle (some .eof) }
          else some { r with pc := .idle (some .pending) }
      | _ => none
  | .consume amt =>
      match r.pc with
      | .idle _ =>
          let pos := min (r.pos + amt) r.buf.length
          some { r with
            pos, consumed := r.consumed ++ (r.buf.drop r.pos).take (pos - r.pos) }
      | _ => none

/-- `notify_waiters` as seen by one reader. -/
def notify (r : LogReader) : LogReader :=
  match r.wait with
  | some .registered => { r with wait := some .completed }
  | _ => r

end LogReader

/-! ### The blocking reader -/

/-- Where a blocking reader stands; `returned dst n` is outside a call whose destination
had `dst` bytes and which returned `Ok(n)`. -/
inductive SyncPc
  | idle
  | readBuffer (dst : ℕ)
  | loadTerminated (dst seen : ℕ)
  | returned (dst n : ℕ)
  deriving DecidableEq, Repr

/-- The synchronous follow reader. As history it keeps the bytes it returned. -/
structure SyncLogReader where
  offset : ℕ
  warnedSkip : Bool
  pc : SyncPc
  returned : Bytes
  deriving DecidableEq, Repr

/-- The steps of a blocking reader: the call and its two accesses. -/
inductive SyncStep
  | read (dst : ℕ)
  | readBuffer
  | loadTerminated
  deriving DecidableEq, Repr

namespace SyncLogReader

/-- A reader at the start of the stream. -/
def new : SyncLogReader := { offset := 0, warnedSkip := false, pc := .idle, returned := [] }

/-- One step of a blocking reader, which parks for a while and looks again until the stream has
terminated. -/
def step (r : SyncLogReader) (log : LogStream) : SyncStep → Option SyncLogReader
  | .read dst =>
      match r.pc with
      | .idle | .returned _ _ => some { r with pc := .readBuffer dst }
      | _ => none
  | .readBuffer =>
      match r.pc with
      | .readBuffer dst =>
          let (bytes, next, skipped) := log.buffer.readAt r.offset dst
          let r := { r with offset := next, warnedSkip := r.warnedSkip || skipped }
          if bytes.length > 0 then
            some { r with pc := .returned dst bytes.length, returned := r.returned ++ bytes }
          else some { r with pc := .loadTerminated dst log.appended.length }
      | _ => none
  | .loadTerminated =>
      match r.pc with
      | .loadTerminated dst _ =>
          if log.terminated then some { r with pc := .returned dst 0 }
          else some { r with pc := .readBuffer dst }
      | _ => none

end SyncLogReader

/-! ### The system -/

/-- A stream with its writer and two families of readers. -/
structure LogSystem where
  log : LogStream
  readers : ℕ → LogReader
  syncReaders : ℕ → SyncLogReader

/-- A step of one party. -/
inductive LogAction
  | writer (a : WriterStep)
  | reader (i : ℕ) (a : ReaderStep)
  | sync (i : ℕ) (a : SyncStep)
  deriving DecidableEq, Repr

namespace LogSystem

/-- A new stream, all readers in front of it. -/
def start (limit : ℕ) : LogSystem :=
  { log := LogStream.new limit
    readers := fun _ => LogReader.new
    syncReaders := fun _ => SyncLogReader.new }

/-- One step of the system. -/
def step (s : LogSystem) : LogAction → Option LogSystem
  | .writer a =>
      (s.log.step a).map fun log =>
        { s with
          log
          readers := if a.notifies then fun i => (s.readers i).notify else s.readers }
  | .reader i a =>
      ((s.readers i).step s.log a).map fun r =>
        { s with readers := Function.update s.readers i r }
  | .sync i a =>
      ((s.syncReaders i).step s.log a).map fun r =>
        { s with syncReaders := Function.update s.syncReaders i r }

end LogSystem

/-! ### What one step does -/

/-- The transitions of the demux thread. -/
inductive LogStream.Transition (log : LogStream) : WriterStep → LogStream → Prop
  | wrote (chunks : List Bytes) : log.writer = .demuxing →
      Transition log (.append chunks) { log with
        buffer := log.buffer.appendAll chunks
        appended := log.appended ++ chunks.flatten
        writer := .notifyPending log.buffer.tail (log.buffer.appendAll chunks).tail }
  | wroteNothing (chunks : List Bytes) : log.writer = .demuxing → chunks.flatten = [] →
      Transition log (.append chunks) { log with
        buffer := log.buffer.appendAll chunks
        appended := log.appended ++ chunks.flatten
        writer := .demuxing }
  | notified {start stop : ℕ} : log.writer = .notifyPending start stop →
      Transition log .notifyAppend
        { log with writer := .demuxing, notified := log.notified ++ [(start, stop)] }
  | stored : log.writer ≠ .terminateNotifyPending → log.writer ≠ .done →
      Transition log .storeTerminated
        { log with terminated := true, writer := .terminateNotifyPending }
  | terminateNotified : log.writer = .terminateNotifyPending →
      Transition log .notifyTerminated { log with writer := .done }

/-- **What one step of the demux thread does**: it is one of the transitions. One case for
each step and for the places where it is possible. -/
theorem LogStream.transition_of_step {log log' : LogStream} {a : WriterStep}
    (h : log.step a = some log') : log.Transition a log' := by
  cases a with
  | append chunks =>
      rw [step] at h
      split at h
      · next hw =>
          obtain rfl := Option.some.inj h
          by_cases hany : (chunks.any fun chunk => !chunk.isEmpty) = true
          · simp only [hany, if_true]
            exact .wrote chunks hw
          · simp only [hany]
            refine .wroteNothing chunks hw (List.flatten_eq_nil_iff.mpr ?_)
            intro chunk hmem
            simp only [List.any_eq_true, not_exists, not_and] at hany
            simpa using hany chunk hmem
      · exact absurd h (by simp)
  | notifyAppend =>
      rw [step] at h
      split at h
      · next hw =>
          obtain rfl := Option.some.inj h
          exact .notified hw
      · exact absurd h (by simp)
  | storeTerminated =>
      rw [step] at h
      split at h
      · next hw =>
          obtain rfl := Option.some.inj h
          exact .stored (by simp [hw]) (by simp [hw])
      · next hw =>
          obtain rfl := Option.some.inj h
          exact .stored (by simp [hw]) (by simp [hw])
      · exact absurd h (by simp)
  | notifyTerminated =>
      rw [step] at h
      split at h
      · next hw =>
          obtain rfl := Option.some.inj h
          exact .terminateNotified hw
      · exact absurd h (by simp)

/-- The transitions of a polling reader. -/
inductive LogReader.Transition (log : LogStream) (r : LogReader) :
    ReaderStep → LogReader → Prop
  | buffered {last : Option PollResult} : r.pc = .idle last → r.pos < r.buf.length →
      Transition log r .pollFill { r with pc := .idle (some .data) }
  | exhausted {last : Option PollResult} : r.pc = .idle last → r.buf.length ≤ r.pos →
      Transition log r .pollFill { r with pc := .pollNotified }
  | woken : r.pc = .pollNotified → r.wait = some .completed →
      Transition log r .pollNotified { r with wait := none }
  | registered : r.pc = .pollNotified →
      Transition log r .pollNotified { r with wait := some .registered, pc := .readBuffer }
  | readSome : r.pc = .readBuffer → (log.buffer.readAt r.offset readChunk).1 ≠ [] →
      Transition log r .readBuffer { r with
        buf := (log.buffer.readAt r.offset readChunk).1
        pos := 0
        offset := (log.buffer.readAt r.offset readChunk).2.1
        warnedSkip := r.warnedSkip || (log.buffer.readAt r.offset readChunk).2.2
        wait := none
        pc := .idle (some .data) }
  | readNothing : r.pc = .readBuffer → (log.buffer.readAt r.offset readChunk).1 = [] →
      Transition log r .readBuffer { r with
        buf := []
        pos := 0
        offset := (log.buffer.readAt r.offset readChunk).2.1
        warnedSkip := r.warnedSkip || (log.buffer.readAt r.offset readChunk).2.2
        pc := .loadTerminated log.appended.length }
  | sawTerminated {seen : ℕ} : r.pc = .loadTerminated seen → log.terminated = true →
      Transition log r .loadTerminated { r with wait := none, pc := .idle (some .eof) }
  | parked {seen : ℕ} : r.pc = .loadTerminated seen → log.terminated = false →
      Transition log r .loadTerminated { r with pc := .idle (some .pending) }
  | consumed {last : Option PollResult} (amt : ℕ) : r.pc = .idle last →
      Transition log r (.consume amt) { r with
        pos := min (r.pos + amt) r.buf.length
        consumed := r.consumed ++
          (r.buf.drop r.pos).take (min (r.pos + amt) r.buf.length - r.pos) }

/-- **What one step of a polling reader does**: it is one of the transitions. One case for
each step and for the places where it is possible. -/
theorem LogReader.transition_of_step {log : LogStream} {r r' : LogReader} {a : ReaderStep}
    (h : r.step log a = some r') : r.Transition log a r' := by
  cases a with
  | pollFill =>
      rw [step] at h
      split at h
      · next last hpc =>
          split at h <;> obtain rfl := Option.some.inj h
          · exact .buffered hpc ‹_›
          · exact .exhausted hpc (Nat.not_lt.mp ‹_›)
      · exact absurd h (by simp)
  | pollNotified =>
      rw [step] at h
      split at h
      · next hpc =>
          split at h <;> obtain rfl := Option.some.inj h
          · exact .woken hpc ‹_›
          · exact .registered hpc
      · exact absurd h (by simp)
  | readBuffer =>
      rw [step] at h
      split at h
      · next hpc =>
          by_cases hne : (log.buffer.readAt r.offset readChunk).1 = []
          · simp only [hne, List.length_nil, gt_iff_lt, lt_irrefl, if_false] at h
            obtain rfl := Option.some.inj h
            exact .readNothing hpc hne
          · simp only [gt_iff_lt, List.length_pos_iff.mpr hne, if_true] at h
            obtain rfl := Option.some.inj h
            exact .readSome hpc hne
      · exact absurd h (by simp)
  | loadTerminated =>
      rw [step] at h
      split at h
      · next seen hpc =>
          split at h <;> obtain rfl := Option.some.inj h
          · exact .sawTerminated hpc ‹_›
          · next hterm => exact .parked hpc (by simpa using hterm)
      · exact absurd h (by simp)
  | consume amt =>
      rw [step] at h
      split at h
      · next last hpc =>
          obtain rfl := Option.some.inj h
          exact .consumed amt hpc
      · exact absurd h (by simp)

/-- The transitions of a blocking reader. -/
inductive SyncLogReader.Transition (log : LogStream) (r : SyncLogReader) :
    SyncStep → SyncLogReader → Prop
  | called (dst : ℕ) : Transition log r (.read dst) { r with pc := .readBuffer dst }
  | readSome {dst : ℕ} : r.pc = .readBuffer dst → (log.buffer.readAt r.offset dst).1 ≠ [] →
      Transition log r .readBuffer { r with
        offset := (log.buffer.readAt r.offset dst).2.1
        warnedSkip := r.warnedSkip || (log.buffer.readAt r.offset dst).2.2
        pc := .returned dst (log.buffer.readAt r.offset dst).1.length
        returned := r.returned ++ (log.buffer.readAt r.offset dst).1 }
  | readNothing {dst : ℕ} : r.pc = .readBuffer dst →
      (log.buffer.readAt r.offset dst).1 = [] →
      Transition log r .readBuffer { r with
        offset := (log.buffer.readAt r.offset dst).2.1
        warnedSkip := r.warnedSkip || (log.buffer.readAt r.offset dst).2.2
        pc := .loadTerminated dst log.appended.length }
  | sawTerminated {dst seen : ℕ} : r.pc = .loadTerminated dst seen → log.terminated = true →
      Transition log r .loadTerminated { r with pc := .returned dst 0 }
  | parked {dst seen : ℕ} : r.pc = .loadTerminated dst seen → log.terminated = false →
      Transition log r .loadTerminated { r with pc := .readBuffer dst }

/-- **What one step of a blocking reader does**: it is one of the transitions. One case
for each step and for the places where it is possible. -/
theorem SyncLogReader.transition_of_step {log : LogStream} {r r' : SyncLogReader}
    {a : SyncStep} (h : r.step log a = some r') : r.Transition log a r' := by
  cases a with
  | read dst =>
      rw [step] at h
      split at h
      · obtain rfl := Option.some.inj h
        exact .called dst
      · obtain rfl := Option.some.inj h
        exact .called dst
      · exact absurd h (by simp)
  | readBuffer =>
      rw [step] at h
      split at h
      · next dst hpc =>
          by_cases hne : (log.buffer.readAt r.offset dst).1 = []
          · simp only [hne, List.length_nil, gt_iff_lt, lt_irrefl, if_false] at h
            obtain rfl := Option.some.inj h
            exact .readNothing hpc hne
          · simp only [gt_iff_lt, List.length_pos_iff.mpr hne, if_true] at h
            obtain rfl := Option.some.inj h
            exact .readSome hpc hne
      · exact absurd h (by simp)
  | loadTerminated =>
      rw [step] at h
      split at h
      · next dst seen hpc =>
          split at h <;> obtain rfl := Option.some.inj h
          · exact .sawTerminated hpc ‹_›
          · next hterm => exact .parked hpc (by simpa using hterm)
      · exact absurd h (by simp)

/-! ### Invariants of the system -/

namespace LogSystem

/-- A property of the stream, of every polling reader and of every blocking reader. -/
def Each (L : LogStream → Prop) (R : LogStream → LogReader → Prop)
    (S : LogStream → SyncLogReader → Prop) (s : LogSystem) : Prop :=
  L s.log ∧ (∀ i, R s.log (s.readers i)) ∧ ∀ i, S s.log (s.syncReaders i)

section

variable {L : LogStream → Prop} {R : LogStream → LogReader → Prop}
  {S : LogStream → SyncLogReader → Prop}

/-- **The interleaving rule**: what the writer's transitions keep true of the stream and of
each reader, and each reader's transitions of itself, every step of the system keeps. -/
theorem each_of_step
    (hwriter : ∀ log a log', L log → log.Transition a log' → L log')
    (hreaders : ∀ log a log' r, L log → R log r → log.Transition a log' →
      R log' (if a.notifies then r.notify else r))
    (hsyncs : ∀ log a log' r, L log → S log r → log.Transition a log' → S log' r)
    (hreader : ∀ log r a r', L log → R log r → r.Transition log a r' → R log r')
    (hsync : ∀ log r a r', L log → S log r → r.Transition log a r' → S log r')
    {s s' : LogSystem} {a : LogAction} (h : s.Each L R S) (hs : s.step a = some s') :
    s'.Each L R S := by
  obtain ⟨hL, hR, hS⟩ := h
  cases a with
  | writer a =>
      obtain ⟨log', hlog, rfl⟩ := Option.map_eq_some_iff.mp hs
      have htr := LogStream.transition_of_step hlog
      refine ⟨hwriter _ _ _ hL htr, ?_, fun i => hsyncs _ _ _ _ hL (hS i) htr⟩
      intro i
      have hri := hreaders _ _ _ _ hL (hR i) htr
      cases hn : a.notifies with
      | true => simpa only [hn, if_true] using hri
      | false => simpa only [hn, Bool.false_eq_true, if_false] using hri
  | reader i a =>
      obtain ⟨r', hr, rfl⟩ := Option.map_eq_some_iff.mp hs
      refine ⟨hL, ?_, hS⟩
      intro j
      by_cases hj : j = i
      · subst hj
        simp only [Function.update_self]
        exact hreader _ _ _ _ hL (hR j) (LogReader.transition_of_step hr)
      · simp only [Function.update_of_ne hj]
        exact hR j
  | sync i a =>
      obtain ⟨r', hr, rfl⟩ := Option.map_eq_some_iff.mp hs
      refine ⟨hL, hR, ?_⟩
      intro j
      by_cases hj : j = i
      · subst hj
        simp only [Function.update_self]
        exact hsync _ _ _ _ hL (hS j) (SyncLogReader.transition_of_step hr)
      · simp only [Function.update_of_ne hj]
        exact hS j

end

end LogSystem

/-! ### No lost wakeup -/

/-- The notified ranges lie before the tail, and a finished termination is visible. -/
structure LogStream.NotifyOk (log : LogStream) : Prop where
  notified_le : ∀ range ∈ log.notified, range.2 ≤ log.buffer.tail
  pending_le : ∀ start stop, log.writer = .notifyPending start stop →
    stop ≤ log.buffer.tail
  terminated_of_done : log.writer = .terminateNotifyPending ∨ log.writer = .done →
    log.terminated = true

/-- A reader whose `Notified` is still registered and which has looked at the buffer since
has seen every notified byte, and once parked it has seen that the stream is alive. -/
structure LogReader.NotifyOk (log : LogStream) (r : LogReader) : Prop where
  checked : r.wait = some .registered →
    (∃ seen, r.pc = .loadTerminated seen) ∨ r.pc = .idle (some .pending) →
    ∀ range ∈ log.notified, range.2 ≤ r.offset
  parked : r.wait = some .registered → r.pc = .idle (some .pending) → log.writer ≠ .done

/-- Appends move the tail forward only, by induction on the chunks. -/
theorem SharedLogBuffer.tail_le_tail_appendAll (b : SharedLogBuffer) (chunks : List Bytes) :
    b.tail ≤ (b.appendAll chunks).tail := by
  induction chunks generalizing b with
  | nil => exact le_rfl
  | cons chunk chunks ih => exact le_trans (tail_le_tail_append b chunk) (ih _)

/-- **The step lemma of the thread**: the tail only moves forward, and a termination stays
visible once it is stored. -/
theorem LogStream.NotifyOk.of_transition {log log' : LogStream} {a : WriterStep}
    (h : log.NotifyOk) (htr : log.Transition a log') : log'.NotifyOk := by
  cases htr with
  | wrote chunks hw =>
      have htail := log.buffer.tail_le_tail_appendAll chunks
      refine ⟨fun range hr => le_trans (h.notified_le range hr) htail, ?_, by simp⟩
      intro start stop heq
      obtain ⟨-, rfl⟩ := Writer.notifyPending.inj heq
      exact le_rfl
  | wroteNothing chunks hw hnil =>
      have htail := log.buffer.tail_le_tail_appendAll chunks
      exact ⟨fun range hr => le_trans (h.notified_le range hr) htail, by simp, by simp⟩
  | @notified start stop hw =>
      refine ⟨?_, by simp, by simp⟩
      intro range hr
      rcases List.mem_append.mp hr with hr | hr
      · exact h.notified_le range hr
      · obtain rfl := List.mem_singleton.mp hr
        exact h.pending_le start stop hw
  | stored hnot hdone => exact ⟨h.notified_le, by simp, fun _ => rfl⟩
  | terminateNotified hw =>
      exact ⟨h.notified_le, by simp, fun _ => h.terminated_of_done (.inl hw)⟩

/-- A step of the demux thread that is no notify leaves what the readers rely on; a notify
leaves no reader registered. -/
theorem LogReader.NotifyOk.of_writer {log log' : LogStream} {a : WriterStep} {r : LogReader}
    (h : r.NotifyOk log) (htr : log.Transition a log') :
    LogReader.NotifyOk log' (if a.notifies then r.notify else r) := by
  have hnotify : r.notify.wait ≠ some .registered := by
    rw [LogReader.notify]
    split
    · simp
    · next hne => exact hne
  cases htr with
  | wrote chunks hw => exact ⟨h.checked, fun _ _ => by simp⟩
  | wroteNothing chunks hw hnil => exact ⟨h.checked, fun _ _ => by simp⟩
  | notified hw => exact ⟨fun hwait => absurd hwait hnotify, fun hwait => absurd hwait hnotify⟩
  | stored hnot hdone => exact ⟨h.checked, fun _ _ => by simp⟩
  | terminateNotified hw =>
      exact ⟨fun hwait => absurd hwait hnotify, fun hwait => absurd hwait hnotify⟩

/-- The reader registers before it looks: an empty read leaves its offset at the tail, and
a load that misses the flag precedes the final notify. -/
theorem LogReader.NotifyOk.of_transition {log : LogStream} {r r' : LogReader}
    {a : ReaderStep} (hlog : log.NotifyOk) (h : r.NotifyOk log)
    (htr : r.Transition log a r') : r'.NotifyOk log := by
  cases htr with
  | buffered hpc hlt => exact ⟨by simp, by simp⟩
  | exhausted hpc hle => exact ⟨by simp, by simp⟩
  | woken hpc hwait => exact ⟨by simp, by simp⟩
  | registered hpc => exact ⟨by simp, by simp⟩
  | readSome hpc hne => exact ⟨by simp, by simp⟩
  | readNothing hpc hnil =>
      refine ⟨?_, by simp⟩
      intro _ _ range hr
      exact le_trans (hlog.notified_le range hr)
        (SharedLogBuffer.readAt_empty (by decide) hnil)
  | sawTerminated hpc hterm => exact ⟨by simp, by simp⟩
  | @parked seen hpc hterm =>
      refine ⟨fun hwait _ => h.checked hwait (.inl ⟨seen, hpc⟩), ?_⟩
      intro _ _ hdone
      have := hlog.terminated_of_done (.inr hdone)
      rw [hterm] at this
      exact absurd this (by decide)
  | consumed amt hpc => exact ⟨h.checked, h.parked⟩

namespace LogSystem

/-- The notify invariant of the whole system. -/
def NotifyInv : LogSystem → Prop :=
  Each LogStream.NotifyOk (fun log r => r.NotifyOk log) fun _ _ => True

/-- In the beginning no notify has been made and no reader waits. -/
theorem notifyInv_start (limit : ℕ) : (start limit).NotifyInv :=
  ⟨⟨by simp [start, LogStream.new], by simp [start, LogStream.new],
    by simp [start, LogStream.new]⟩,
    fun _ => ⟨by simp [start, LogReader.new], by simp [start, LogReader.new]⟩,
    fun _ => trivial⟩

/-- **The step lemma of the system**: the step lemmas of the thread and of the readers,
put together. -/
theorem NotifyInv.of_step {s s' : LogSystem} {a : LogAction} (h : s.NotifyInv)
    (hs : s.step a = some s') : s'.NotifyInv :=
  each_of_step (fun _ _ _ hL htr => hL.of_transition htr)
    (fun _ _ _ _ _ hR htr => hR.of_writer htr) (fun _ _ _ _ _ _ _ => trivial)
    (fun _ _ _ _ hL hR htr => hR.of_transition hL htr) (fun _ _ _ _ _ _ _ => trivial) h hs

/-- Reader `i` returned `Pending`, its `Notified` is registered and not completed, and yet
the notify of an append with bytes at or behind its offset, or of the termination, has been
made. -/
def LostWakeup (s : LogSystem) (i : ℕ) : Prop :=
  (s.readers i).pc = .idle (some .pending) ∧ (s.readers i).wait = some .registered ∧
    ((∃ range ∈ s.log.notified, (s.readers i).offset < range.2) ∨ s.log.writer = .done)

/-- **No lost wakeup.** In no reachable state, for any buffer limit and any interleaving of
the writer with any number of readers, has a parked reader missed a notify. -/
theorem no_lost_wakeup (limit : ℕ) (acts : List LogAction) (s : LogSystem)
    (hrun : Runs.run step (start limit) acts = some s) (i : ℕ) : ¬ s.LostWakeup i := by
  obtain ⟨-, hreaders, -⟩ :=
    Runs.invariant_of_run (fun _ _ _ h hs => NotifyInv.of_step h hs) (notifyInv_start limit) hrun
  rintro ⟨hpc, hwait, hmissed⟩
  rcases hmissed with ⟨range, hr, hlt⟩ | hdone
  · have := (hreaders i).checked hwait (.inr hpc) range hr
    omega
  · exact (hreaders i).parked hwait hpc hdone

/-- A reader that finds an empty stream parks, and its registered `Notified` is completed by
the notify of the append that follows. -/
theorem no_lost_wakeup_parked :
    ∃ s, Runs.run step (start 8)
        [.reader 0 .pollFill, .reader 0 .pollNotified, .reader 0 .readBuffer,
          .reader 0 .loadTerminated, .writer (.append [[97]]), .writer .notifyAppend] = some s ∧
      (s.readers 0).pc = .idle (some .pending) ∧ s.log.notified = [(0, 1)] ∧
      ¬ s.LostWakeup 0 := by
  obtain ⟨s, hrun⟩ : ∃ s, Runs.run step (start 8)
      [.reader 0 .pollFill, .reader 0 .pollNotified, .reader 0 .readBuffer,
        .reader 0 .loadTerminated, .writer (.append [[97]]), .writer .notifyAppend] = some s :=
    ⟨_, rfl⟩
  obtain rfl := Option.some.inj hrun.symm
  exact ⟨_, hrun, rfl, rfl, no_lost_wakeup 8 _ _ hrun 0⟩

end LogSystem

/-! ### The end of the stream -/

/-- The stream has never outgrown its buffer. -/
def LogStream.Fits (log : LogStream) : Prop := log.appended.length ≤ log.buffer.limit

/-- The buffer is a window on the appended bytes, and nothing follows the termination. -/
structure LogStream.StreamOk (log : LogStream) : Prop where
  follow : log.buffer.strict = false
  window : log.Fits → log.buffer.Represents log.appended
  closed : log.terminated = true → log.writer = .terminateNotifyPending ∨ log.writer = .done

/-- A polling reader has consumed, or holds unconsumed, the stream up to its offset. -/
structure LogReader.StreamOk (log : LogStream) (r : LogReader) : Prop where
  offset_le : r.offset ≤ log.appended.length
  pos_le : r.pos ≤ r.buf.length
  consumed_eq : r.consumed ++ r.buf.drop r.pos = log.appended.take r.offset
  exhausted : (∀ last, r.pc = .idle last → last = some .eof) → r.buf.length ≤ r.pos
  offset_eq : ∀ seen, r.pc = .loadTerminated seen → r.offset = seen
  terminated : r.pc = .idle (some .eof) → log.terminated = true

/-- A blocking reader has returned the stream up to its offset. -/
structure SyncLogReader.StreamOk (log : LogStream) (r : SyncLogReader) : Prop where
  offset_le : r.offset ≤ log.appended.length
  returned_eq : r.returned = log.appended.take r.offset
  offset_eq : ∀ dst seen, r.pc = .loadTerminated dst seen → 0 < dst → r.offset = seen
  terminated : ∀ dst, r.pc = .returned dst 0 → log.terminated = true

section

variable {b : SharedLogBuffer} {total : Bytes}

/-- Appends leave the limit of the buffer. -/
@[simp] theorem SharedLogBuffer.appendAll_limit (b : SharedLogBuffer) (chunks : List Bytes) :
    (b.appendAll chunks).limit = b.limit := by
  induction chunks generalizing b with
  | nil => rfl
  | cons chunk chunks ih => exact (ih _).trans (append_limit b chunk)

/-- Appends leave the mode of the buffer. -/
@[simp] theorem SharedLogBuffer.appendAll_strict (b : SharedLogBuffer) (chunks : List Bytes) :
    (b.appendAll chunks).strict = b.strict := by
  induction chunks generalizing b with
  | nil => rfl
  | cons chunk chunks ih => exact (ih _).trans (append_strict b chunk)

/-- While the stream fits the buffer, chunk after chunk extends the window. By induction
on the chunks. -/
theorem SharedLogBuffer.Represents.appendAll (h : b.Represents total)
    (hb : b.strict = false) {chunks : List Bytes}
    (hfit : (total ++ chunks.flatten).length ≤ b.limit) :
    (b.appendAll chunks).Represents (total ++ chunks.flatten) := by
  induction chunks generalizing b total with
  | nil =>
      rw [List.flatten_nil, List.append_nil]
      exact h
  | cons chunk chunks ih =>
      rw [List.flatten_cons, ← List.append_assoc] at hfit ⊢
      simp only [List.length_append] at hfit
      refine ih (h.append hb (by omega)) (by rw [append_strict, hb]) ?_
      rw [append_limit]
      simp only [List.length_append]
      omega

/-- A read through a buffer that holds the whole stream starts at the reader's offset. -/
theorem SharedLogBuffer.Represents.readAt_of_fits (h : b.Represents total)
    (hfit : total.length ≤ b.limit) (offset dst : ℕ) :
    (b.readAt offset dst).1 = (total.drop offset).take dst ∧
      (b.readAt offset dst).2.1 = offset + (b.readAt offset dst).1.length := by
  have hhead := (h.of_fits hfit).1
  have hmax : max offset b.head = offset := by omega
  refine ⟨by rw [h.readAt_bytes, hmax], ?_⟩
  rw [h.readAt_next, h.readAt_bytes, hmax, List.length_take, List.length_drop]

end

/-- What a read adds to the stream read so far. -/
theorem take_append_take_drop (total : Bytes) (offset dst : ℕ) :
    total.take offset ++ (total.drop offset).take dst =
      total.take (offset + ((total.drop offset).take dst).length) := by
  rw [List.take_add, List.length_take, ← List.take_eq_take_min]

/-- **The step lemma of the thread**: while the stream fits, the buffer holds all of it,
and after the termination the thread appends nothing. -/
theorem LogStream.StreamOk.of_transition {log log' : LogStream} {a : WriterStep}
    (h : log.StreamOk) (htr : log.Transition a log') : log'.StreamOk := by
  have hopen : log.writer = .demuxing → log.terminated = false := fun hw => by
    by_contra hne
    rcases h.closed (by simpa using hne) with hc | hc <;> rw [hw] at hc <;>
      exact absurd hc (by simp)
  have hwindow : ∀ chunks : List Bytes,
      (log.appended ++ chunks.flatten).length ≤ (log.buffer.appendAll chunks).limit →
      (log.buffer.appendAll chunks).Represents (log.appended ++ chunks.flatten) := by
    intro chunks hfit
    rw [SharedLogBuffer.appendAll_limit] at hfit
    refine (h.window ?_).appendAll h.follow hfit
    rw [List.length_append] at hfit
    rw [LogStream.Fits]
    omega
  cases htr with
  | wrote chunks hw =>
      exact ⟨by simp [h.follow], hwindow chunks, fun ht => absurd ht (by simp [hopen hw])⟩
  | wroteNothing chunks hw hnil =>
      exact ⟨by simp [h.follow], hwindow chunks, fun ht => absurd ht (by simp [hopen hw])⟩
  | notified hw =>
      refine ⟨h.follow, h.window, ?_⟩
      intro ht
      rcases h.closed ht with hc | hc <;> rw [hw] at hc <;> exact absurd hc (by simp)
  | stored hnot hdone => exact ⟨h.follow, h.window, fun _ => .inl rfl⟩
  | terminateNotified hw => exact ⟨h.follow, h.window, fun _ => .inr rfl⟩

/-- The writer only ever extends the appended bytes, and a set flag stays set. One case
for each transition. -/
theorem LogStream.Transition.extends {log log' : LogStream} {a : WriterStep}
    (htr : log.Transition a log') :
    (∃ more, log'.appended = log.appended ++ more) ∧
      (log.terminated = true → log'.terminated = true) ∧
      log'.buffer.limit = log.buffer.limit := by
  cases htr with
  | wrote chunks hw => exact ⟨⟨_, rfl⟩, id, by simp⟩
  | wroteNothing chunks hw hnil => exact ⟨⟨_, rfl⟩, id, by simp⟩
  | notified hw => exact ⟨⟨[], by simp⟩, id, rfl⟩
  | stored hnot hdone => exact ⟨⟨[], by simp⟩, fun _ => rfl, rfl⟩
  | terminateNotified hw => exact ⟨⟨[], by simp⟩, id, rfl⟩

/-- A polling reader stays in order while the thread goes on: what it has read is a front
of the longer stream as well. -/
theorem LogReader.StreamOk.of_writer {log log' : LogStream} {a : WriterStep} {r : LogReader}
    (h : r.StreamOk log) (htr : log.Transition a log') :
    LogReader.StreamOk log' (if a.notifies then r.notify else r) := by
  obtain ⟨⟨more, hmore⟩, hterm, -⟩ := htr.extends
  have hle := h.offset_le
  have hr : r.StreamOk log' := by
    refine ⟨?_, h.pos_le, ?_, h.exhausted, h.offset_eq, fun hpc => hterm (h.terminated hpc)⟩
    · rw [hmore, List.length_append]
      omega
    · rw [h.consumed_eq, hmore, List.take_append_of_le_length hle]
  split
  · rw [LogReader.notify]
    split
    · exact ⟨hr.offset_le, hr.pos_le, hr.consumed_eq, hr.exhausted, hr.offset_eq, hr.terminated⟩
    · exact hr
  · exact hr

/-- A blocking reader stays in order while the thread goes on. -/
theorem SyncLogReader.StreamOk.of_writer {log log' : LogStream} {a : WriterStep}
    {r : SyncLogReader} (h : r.StreamOk log) (htr : log.Transition a log') :
    r.StreamOk log' := by
  obtain ⟨⟨more, hmore⟩, hterm, -⟩ := htr.extends
  have hle := h.offset_le
  refine ⟨?_, ?_, h.offset_eq, fun dst hpc => hterm (h.terminated dst hpc)⟩
  · rw [hmore, List.length_append]
    omega
  · rw [h.returned_eq, hmore, List.take_append_of_le_length hle]

/-- **The step lemma of a polling reader**: it reads on where it stands, and takes the
stream for ended only when the flag is set. -/
theorem LogReader.StreamOk.of_transition {log : LogStream} {r r' : LogReader}
    {a : ReaderStep} (hlog : log.StreamOk) (hfits : log.Fits) (h : r.StreamOk log)
    (htr : r.Transition log a r') : r'.StreamOk log := by
  have hread := (hlog.window hfits).readAt_of_fits hfits r.offset readChunk
  have hspent : r.pc = .readBuffer → r.consumed = log.appended.take r.offset := fun hpc => by
    have hle := h.exhausted (by simp [hpc])
    rw [← h.consumed_eq, List.drop_of_length_le hle, List.append_nil]
  cases htr with
  | buffered hpc hlt =>
      exact ⟨h.offset_le, h.pos_le, h.consumed_eq, fun hex => absurd (hex _ rfl) (by simp),
        by simp, by simp⟩
  | exhausted hpc hle =>
      exact ⟨h.offset_le, h.pos_le, h.consumed_eq, fun _ => hle, by simp, by simp⟩
  | woken hpc hwait =>
      exact ⟨h.offset_le, h.pos_le, h.consumed_eq, h.exhausted, h.offset_eq, h.terminated⟩
  | registered hpc =>
      exact ⟨h.offset_le, h.pos_le, h.consumed_eq, fun _ => h.exhausted (by simp [hpc]),
        by simp, by simp⟩
  | readSome hpc hne =>
      refine ⟨?_, Nat.zero_le _, ?_, fun hex => absurd (hex _ rfl) (by simp), by simp, by simp⟩
      · have hlen := congrArg List.length hread.1
        rw [List.length_take, List.length_drop] at hlen
        have := h.offset_le
        simp only [hread.2]
        omega
      · simp only [List.drop_zero, hread.2, hspent hpc, hread.1, take_append_take_drop]
  | readNothing hpc hnil =>
      rw [hnil, List.length_nil, Nat.add_zero] at hread
      have htail := SharedLogBuffer.readAt_empty (by decide) hnil
      rw [(hlog.window hfits).tail_eq, hread.2] at htail
      have hoff := h.offset_le
      refine ⟨by simp only [hread.2]; exact hoff, Nat.zero_le _, ?_, fun _ => Nat.zero_le _,
        ?_, by simp⟩
      · simp only [List.drop_nil, List.append_nil, hread.2]
        exact hspent hpc
      · intro seen hseen
        obtain rfl := PollPc.loadTerminated.inj hseen
        simp only [hread.2]
        omega
  | sawTerminated hpc hterm =>
      exact ⟨h.offset_le, h.pos_le, h.consumed_eq, fun _ => h.exhausted (by simp [hpc]),
        by simp, fun _ => hterm⟩
  | parked hpc hterm =>
      exact ⟨h.offset_le, h.pos_le, h.consumed_eq, fun hex => absurd (hex _ rfl) (by simp),
        by simp, by simp⟩
  | consumed amt hpc =>
      have hpos := h.pos_le
      refine ⟨h.offset_le, by simp only; omega, ?_, ?_, h.offset_eq, h.terminated⟩
      · rw [← h.consumed_eq, List.append_assoc]
        congr 1
        have hsum : min (r.pos + amt) r.buf.length =
            r.pos + (min (r.pos + amt) r.buf.length - r.pos) := by omega
        conv_lhs => rw [hsum, ← List.drop_drop, Nat.add_sub_cancel_left]
        exact List.take_append_drop _ _
      · intro hex
        have := h.exhausted hex
        simp only
        omega

/-- **The step lemma of a blocking reader**, which has no buffer of its own. One case for
each transition; a read that gives nothing means that the reader stands at the end. -/
theorem SyncLogReader.StreamOk.of_transition {log : LogStream} {r r' : SyncLogReader}
    {a : SyncStep} (hlog : log.StreamOk) (hfits : log.Fits) (h : r.StreamOk log)
    (htr : r.Transition log a r') : r'.StreamOk log := by
  have hread := (hlog.window hfits).readAt_of_fits hfits r.offset
  cases htr with
  | called dst => exact ⟨h.offset_le, h.returned_eq, by simp, by simp⟩
  | @readSome dst hpc hne =>
      refine ⟨?_, ?_, by simp, ?_⟩
      · have hlen := congrArg List.length (hread dst).1
        rw [List.length_take, List.length_drop] at hlen
        have := h.offset_le
        simp only [(hread dst).2]
        omega
      · simp only [(hread dst).2, h.returned_eq, (hread dst).1, take_append_take_drop]
      · intro dst' heq
        have := List.length_eq_zero_iff.mp (SyncPc.returned.inj heq).2
        exact absurd this hne
  | @readNothing dst hpc hnil =>
      have hnext := (hread dst).2
      rw [hnil, List.length_nil, Nat.add_zero] at hnext
      have hoff := h.offset_le
      refine ⟨by simp only [hnext]; exact hoff, by simp only [hnext]; exact h.returned_eq, ?_,
        by simp⟩
      intro dst' seen heq hdst
      obtain ⟨rfl, rfl⟩ := SyncPc.loadTerminated.inj heq
      have htail := SharedLogBuffer.readAt_empty hdst hnil
      rw [(hlog.window hfits).tail_eq, hnext] at htail
      simp only [hnext]
      omega
  | sawTerminated hpc hterm => exact ⟨h.offset_le, h.returned_eq, by simp, fun _ _ => hterm⟩
  | parked hpc hterm => exact ⟨h.offset_le, h.returned_eq, by simp, by simp⟩

/-- When the reader reports the end of the file, its caller has consumed every byte. -/
def LogReader.EofComplete (log : LogStream) (r : LogReader) : Prop :=
  r.pc = .idle (some .eof) → r.consumed = log.appended

/-- When the reader returns `Ok(0)` to a nonempty destination, it has returned every byte. -/
def SyncLogReader.EofComplete (log : LogStream) (r : SyncLogReader) : Prop :=
  ∀ dst, 0 < dst → r.pc = .returned dst 0 → r.returned = log.appended

/-- The reader's next load of `terminated`, if it finds the flag set, has had no append
since the read that found nothing. -/
def LogReader.NoLateAppend (log : LogStream) (r : LogReader) : Prop :=
  ∀ seen, r.pc = .loadTerminated seen → log.terminated = true → log.appended.length = seen

/-- The same for a blocking reader with a nonempty destination. -/
def SyncLogReader.NoLateAppend (log : LogStream) (r : SyncLogReader) : Prop :=
  ∀ dst seen, r.pc = .loadTerminated dst seen → 0 < dst → log.terminated = true →
    log.appended.length = seen

/-- A reader at the end of the file keeps a complete report while the writer moves on. -/
theorem LogStream.StreamOk.appended_of_terminated {log log' : LogStream} {a : WriterStep}
    (h : log.StreamOk) (htr : log.Transition a log') (hterm : log.terminated = true) :
    log'.appended = log.appended := by
  have hw := h.closed hterm
  cases htr with
  | wrote chunks hdemux | wroteNothing chunks hdemux =>
      rw [hdemux] at hw
      exact absurd hw (by simp)
  | notified | stored | terminateNotified => rfl

/-- A step of a polling reader keeps its report complete exactly if it is no load that
comes too late. -/
theorem LogReader.eofComplete_iff {log : LogStream} {r r' : LogReader} {a : ReaderStep}
    (h : r.StreamOk log) (hcomplete : r.EofComplete log) (htr : r.Transition log a r') :
    r'.EofComplete log ↔ (a = .loadTerminated → r.NoLateAppend log) := by
  cases htr with
  | buffered | exhausted | registered | readSome | readNothing =>
      exact ⟨fun _ heq => absurd heq (by simp), fun _ heq => absurd heq (by simp)⟩
  | parked hpc hterm =>
      refine ⟨?_, fun _ heq => absurd heq (by simp)⟩
      intro _ _ _ _ ht
      rw [hterm] at ht
      exact absurd ht (by decide)
  | woken hpc hwait =>
      refine ⟨fun _ heq => absurd heq (by simp), ?_⟩
      intro _ heq
      rw [hpc] at heq
      exact absurd heq (by simp)
  | @sawTerminated seen hpc hterm =>
      have hspent : r.consumed = log.appended.take seen := by
        have hle := h.exhausted (by simp [hpc])
        rw [← h.offset_eq seen hpc, ← h.consumed_eq, List.drop_of_length_le hle,
          List.append_nil]
      have hseen : seen ≤ log.appended.length := h.offset_eq seen hpc ▸ h.offset_le
      constructor
      · intro hc _ seen' hpc' _
        obtain rfl := PollPc.loadTerminated.inj (hpc.symm.trans hpc')
        have hall : log.appended.take seen = log.appended := hspent ▸ hc rfl
        have := List.take_eq_self_iff _ |>.mp hall
        omega
      · intro hlate _
        have hlen := hlate rfl seen hpc hterm
        simp only [hspent, ← hlen, List.take_length]
  | @consumed last amt hpc =>
      refine ⟨fun _ heq => absurd heq (by simp), ?_⟩
      intro _ heq
      have hle := h.exhausted fun last' hlast' => PollPc.idle.inj (hlast'.symm.trans heq)
      simp only [List.drop_of_length_le hle, List.take_nil, List.append_nil]
      exact hcomplete heq

/-- A step of a blocking reader keeps its report complete exactly if it is no load that
comes too late. -/
theorem SyncLogReader.eofComplete_iff {log : LogStream} {r r' : SyncLogReader} {a : SyncStep}
    (h : r.StreamOk log) (htr : r.Transition log a r') :
    r'.EofComplete log ↔ (a = .loadTerminated → r.NoLateAppend log) := by
  cases htr with
  | called dst =>
      exact ⟨fun _ heq => absurd heq (by simp), fun _ _ _ heq => absurd heq (by simp)⟩
  | readSome hpc hne =>
      refine ⟨fun _ heq => absurd heq (by simp), ?_⟩
      intro _ _ _ heq
      exact absurd (List.length_eq_zero_iff.mp (SyncPc.returned.inj heq).2) hne
  | readNothing hpc hnil =>
      exact ⟨fun _ heq => absurd heq (by simp), fun _ _ _ heq => absurd heq (by simp)⟩
  | @sawTerminated dst seen hpc hterm =>
      constructor
      · intro hc _ dst' seen' hpc' hdst _
        obtain ⟨rfl, rfl⟩ := SyncPc.loadTerminated.inj (hpc.symm.trans hpc')
        have hall : log.appended.take seen = log.appended := by
          rw [← h.offset_eq dst seen hpc hdst, ← h.returned_eq]
          exact hc dst hdst rfl
        have hseen := h.offset_eq dst seen hpc hdst
        have hle := h.offset_le
        have := List.take_eq_self_iff _ |>.mp hall
        omega
      · intro hlate dst' hdst heq
        obtain ⟨rfl, -⟩ := SyncPc.returned.inj heq
        have hlen := hlate rfl dst seen hpc hdst hterm
        simp only [h.returned_eq, h.offset_eq dst seen hpc hdst, ← hlen, List.take_length]
  | parked hpc hterm =>
      refine ⟨?_, fun _ _ _ heq => absurd heq (by simp)⟩
      intro _ _ _ _ _ _ ht
      rw [hterm] at ht
      exact absurd ht (by decide)

namespace LogSystem

/-- The stream invariant of the whole system, as long as the stream fits the buffer. -/
def StreamInv : LogSystem → Prop :=
  Each LogStream.StreamOk (fun log r => log.Fits → r.StreamOk log)
    fun log r => log.Fits → r.StreamOk log

/-- In the beginning nothing has been appended. -/
theorem streamInv_start (limit : ℕ) : (start limit).StreamInv := by
  refine ⟨⟨rfl, fun _ => SharedLogBuffer.represents_new limit,
    fun h => absurd h (by simp [start, LogStream.new])⟩, ?_, ?_⟩
  · intro _ _
    exact ⟨le_rfl, le_rfl, rfl, fun _ => le_rfl,
      fun _ h => absurd h (by simp [start, LogReader.new]),
      fun h => absurd h (by simp [start, LogReader.new])⟩
  · intro _ _
    exact ⟨le_rfl, rfl, fun _ _ h => absurd h (by simp [start, SyncLogReader.new]),
      fun _ h => absurd h (by simp [start, SyncLogReader.new])⟩

/-- A stream that fits after a step of the writer has fitted before. -/
theorem fits_of_transition {log log' : LogStream} {a : WriterStep}
    (htr : log.Transition a log') (h : log'.Fits) : log.Fits := by
  obtain ⟨⟨more, hmore⟩, -, hlimit⟩ := htr.extends
  rw [LogStream.Fits, hmore, hlimit, List.length_append] at h
  rw [LogStream.Fits]
  omega

/-- **The step lemma of the system**: the step lemmas of the thread and of the readers,
put together. -/
theorem StreamInv.of_step {s s' : LogSystem} {a : LogAction} (h : s.StreamInv)
    (hs : s.step a = some s') : s'.StreamInv :=
  each_of_step (fun _ _ _ hL htr => hL.of_transition htr)
    (fun _ _ _ _ _ hR htr hfits => (hR (fits_of_transition htr hfits)).of_writer htr)
    (fun _ _ _ _ _ hS htr hfits => (hS (fits_of_transition htr hfits)).of_writer htr)
    (fun _ _ _ _ hL hR htr hfits => (hR hfits).of_transition hL hfits htr)
    (fun _ _ _ _ hL hS htr hfits => (hS hfits).of_transition hL hfits htr) h hs

/-- A run whose stream fits the buffer at the end fits it in every state. Nothing that has
been written is taken back. -/
theorem always_fits {s t : LogSystem} {acts : List LogAction}
    (hrun : Runs.run step s acts = some t) (h : t.log.Fits) :
    Runs.Always step s acts fun u => u.log.Fits := by
  refine Runs.always_of_final ?_ hrun h
  intro u a u' hs hfits
  cases a with
  | writer a =>
      obtain ⟨log', hlog, rfl⟩ := Option.map_eq_some_iff.mp hs
      exact fits_of_transition (LogStream.transition_of_step hlog) hfits
  | reader i a =>
      obtain ⟨r', hr, rfl⟩ := Option.map_eq_some_iff.mp hs
      exact hfits
  | sync i a =>
      obtain ⟨r', hr, rfl⟩ := Option.map_eq_some_iff.mp hs
      exact hfits

/-- Whoever has reported the end of the file had been given every byte appended. -/
def EofComplete (s : LogSystem) : Prop :=
  (∀ i, (s.readers i).EofComplete s.log) ∧ ∀ i, (s.syncReaders i).EofComplete s.log

/-- The step is no load of `terminated` that finds the flag set although bytes were appended
since the same reader's read found nothing. -/
def NoLateAppend (s : LogSystem) : LogAction → Prop
  | .reader i .loadTerminated => (s.readers i).NoLateAppend s.log
  | .sync i .loadTerminated => (s.syncReaders i).NoLateAppend s.log
  | _ => True

/-- **The step lemma**: a step from a complete state stays complete exactly if no append
came too late for it. -/
theorem eofComplete_step_iff {s s' : LogSystem} {a : LogAction}
    (hinv : s.StreamInv ∧ s.log.Fits) (hc : s.EofComplete) (hs : s.step a = some s') :
    s'.EofComplete ↔ s.NoLateAppend a := by
  obtain ⟨⟨hL, hR, hS⟩, hfits⟩ := hinv
  obtain ⟨hcR, hcS⟩ := hc
  cases a with
  | writer a =>
      obtain ⟨log', hlog, rfl⟩ := Option.map_eq_some_iff.mp hs
      have htr := LogStream.transition_of_step hlog
      refine iff_of_true ⟨?_, ?_⟩ trivial
      · intro i
        have hsame : (if a.notifies then fun i => (s.readers i).notify else s.readers) i =
            (if a.notifies then (s.readers i).notify else s.readers i) := by
          cases a.notifies <;> rfl
        have hpc_consumed : (s.readers i).notify.pc = (s.readers i).pc ∧
            (s.readers i).notify.consumed = (s.readers i).consumed := by
          rw [LogReader.notify]
          split <;> exact ⟨rfl, rfl⟩
        have hkeep : (s.readers i).pc = .idle (some .eof) →
            (s.readers i).consumed = log'.appended := fun hpc => by
          rw [hL.appended_of_terminated htr ((hR i hfits).terminated hpc)]
          exact hcR i hpc
        simp only [hsame, LogReader.EofComplete]
        split
        · rw [hpc_consumed.1, hpc_consumed.2]
          exact hkeep
        · exact hkeep
      · intro i dst hdst hpc
        rw [hL.appended_of_terminated htr ((hS i hfits).terminated dst hpc)]
        exact hcS i dst hdst hpc
  | reader i a =>
      obtain ⟨r', hr, rfl⟩ := Option.map_eq_some_iff.mp hs
      have htr := LogReader.transition_of_step hr
      have hiff := LogReader.eofComplete_iff (hR i hfits) (hcR i) htr
      have hlate : s.NoLateAppend (.reader i a) ↔
          (a = .loadTerminated → (s.readers i).NoLateAppend s.log) := by
        cases a <;> simp [NoLateAppend]
      rw [hlate, ← hiff]
      refine ⟨fun h => by simpa using h.1 i, fun h => ⟨?_, hcS⟩⟩
      intro j
      by_cases hj : j = i
      · subst hj
        simpa using h
      · simpa only [Function.update_of_ne hj] using hcR j
  | sync i a =>
      obtain ⟨r', hr, rfl⟩ := Option.map_eq_some_iff.mp hs
      have htr := SyncLogReader.transition_of_step hr
      have hiff := SyncLogReader.eofComplete_iff (hS i hfits) htr
      have hlate : s.NoLateAppend (.sync i a) ↔
          (a = .loadTerminated → (s.syncReaders i).NoLateAppend s.log) := by
        cases a <;> simp [NoLateAppend]
      rw [hlate, ← hiff]
      refine ⟨fun h => by simpa using h.2 i, fun h => ⟨hcR, ?_⟩⟩
      intro j
      by_cases hj : j = i
      · subst hj
        simpa using h
      · simpa only [Function.update_of_ne hj] using hcS j

/-- **End-of-file reports are complete exactly without a late append.** In a run whose
stream fits the buffer, every reader that reports the end of the file has been given every
byte ever appended, in every state of the run, if and only if no load of `terminated` finds
the flag set after bytes were appended behind the same reader's empty read. -/
theorem eof_complete_iff_no_late_append (limit : ℕ) (acts : List LogAction) (s : LogSystem)
    (hrun : Runs.run step (start limit) acts = some s)
    (hfits : s.log.appended.length ≤ s.log.buffer.limit) :
    Runs.Always step (start limit) acts EofComplete ↔
      Runs.StepsMeet step (start limit) acts NoLateAppend := by
  have hinv : Runs.Always step (start limit) acts fun t => t.StreamInv ∧ t.log.Fits := by
    intro pre post t hsplit hpre
    exact ⟨Runs.invariant_of_run (fun _ _ _ h hs => StreamInv.of_step h hs)
      (streamInv_start limit) hpre, always_fits hrun hfits pre post t hsplit hpre⟩
  have hstart : (start limit).EofComplete :=
    ⟨fun _ h => absurd h (by simp [start, LogReader.new]),
      fun _ _ _ h => absurd h (by simp [start, SyncLogReader.new])⟩
  have hgood : ∀ (t : LogSystem) (a : LogAction) (t' : LogSystem),
      t.StreamInv ∧ t.log.Fits → t.EofComplete → t.step a = some t' →
      (t'.EofComplete ↔ t.NoLateAppend a) := fun _ _ _ hi hp hs => eofComplete_step_iff hi hp hs
  exact Runs.always_iff_stepsMeet hgood hinv hstart hrun

/-- The demux thread appends its last byte and terminates the stream while a polling and a
blocking reader stand between their empty read and their load of the flag. -/
def lateAppendSchedule : List LogAction :=
  [.reader 0 .pollFill, .reader 0 .pollNotified, .reader 0 .readBuffer, .sync 0 (.read 16),
    .sync 0 .readBuffer, .writer (.append [[97]]), .writer .notifyAppend,
    .writer .storeTerminated, .reader 0 .loadTerminated, .sync 0 .loadTerminated]

/-- Both readers then report the end of the file without ever having been given the byte. -/
theorem eof_incomplete_after_late_append :
    ∃ s, Runs.run step (start 8) lateAppendSchedule = some s ∧
      s.log.appended.length ≤ s.log.buffer.limit ∧ s.log.appended = [97] ∧
      (s.readers 0).pc = .idle (some .eof) ∧ (s.readers 0).consumed = [] ∧
      (s.syncReaders 0).pc = .returned 16 0 ∧ (s.syncReaders 0).returned = [] ∧
      ¬ s.EofComplete := by
  obtain ⟨s, hrun⟩ : ∃ s, Runs.run step (start 8) lateAppendSchedule = some s := ⟨_, rfl⟩
  obtain rfl := Option.some.inj hrun.symm
  refine ⟨_, hrun, by decide, rfl, rfl, rfl, rfl, rfl, ?_⟩
  intro h
  exact absurd (h.1 0 rfl) (by decide)

/-- The reader that had registered is woken, reads the byte, and meets the flag only on its
next round. -/
def timelySchedule : List LogAction :=
  [.reader 0 .pollFill, .reader 0 .pollNotified, .reader 0 .readBuffer,
    .reader 0 .loadTerminated, .writer (.append [[97]]), .writer .notifyAppend,
    .reader 0 .pollFill, .reader 0 .pollNotified, .reader 0 .pollNotified,
    .reader 0 .readBuffer, .reader 0 (.consume 1), .writer .storeTerminated,
    .reader 0 .pollFill, .reader 0 .pollNotified, .reader 0 .readBuffer,
    .reader 0 .loadTerminated]

/-- No load of the timely schedule comes after a late append, and so its one report of the end
of the file is complete. -/
theorem eof_complete_iff_no_late_append_timely :
    Runs.Always step (start 8) timelySchedule EofComplete ∧
      Runs.StepsMeet step (start 8) timelySchedule NoLateAppend := by
  obtain ⟨s, hrun⟩ : ∃ s, Runs.run step (start 8) timelySchedule = some s := ⟨_, rfl⟩
  obtain rfl := Option.some.inj hrun.symm
  have hmeets : Runs.StepsMeet step (start 8) timelySchedule NoLateAppend := by
    iterate 3 refine (Runs.stepsMeet_cons rfl).mpr ⟨trivial, ?_⟩
    refine (Runs.stepsMeet_cons rfl).mpr ⟨?_, ?_⟩
    · intro seen hpc hterm
      exact absurd hterm (by decide)
    iterate 11 refine (Runs.stepsMeet_cons rfl).mpr ⟨trivial, ?_⟩
    refine (Runs.stepsMeet_cons rfl).mpr ⟨?_, Runs.stepsMeet_nil⟩
    intro seen hpc hterm
    cases hpc
    rfl
  have hiff := eof_complete_iff_no_late_append 8 timelySchedule _ hrun (by decide)
  exact ⟨hiff.mpr hmeets, hmeets⟩

end LogSystem

end ContainerRs
