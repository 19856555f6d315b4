import ContainerRs.Lib.Bytes
import ContainerRs.Lib.Json
import ContainerRs.Lib.Runs
import Mathlib.Logic.Function.Basic

/-!
# The Readers of a Command's Output

On macOS two threads read the output of a command (`read_file_to_vec_cancellable`,
xpc_client.rs) and send what they have read through one channel; a thread that panics drops
its sender without a message. `join_exec_readers` waits for the two messages until a deadline,
then tells the threads to stop and waits for what is left.

All parties are interleaved step by step; what the system calls answer is chosen from outside.
The deadline may fire at any step of the function. `recv_timeout` hands out a message that is
queued without looking at the clock, so that the deadline fires, for the function, when a
receive finds it passed; that may also happen while a message is just being queued. A thread may
see the flag set late, for it is loaded `Relaxed`.

## Main results

* `sent_of_readerStep`: a thread sends at most one message.
* `JoinInv.of_step`: the invariant of a step.
* `joinExecReaders_pairs`: what the function returns, under any timing.
-/

namespace ContainerRs

open Json Runs

/-! ### The threads -/

/-- The streams of a command. -/
inductive ExecStream
  | stdout
  | stderr
  deriving DecidableEq, Repr

/-- What a thread returns: all bytes, nothing if it was cancelled, or an error (its text). -/
abbrev ReaderResult := Except Text (Option Bytes)

/-- A message of a thread. -/
inductive ExecReaderMsg
  | stdout (r : ReaderResult)
  | stderr (r : ReaderResult)

/-- The message of the thread for a stream. -/
def ExecStream.msg : ExecStream → ReaderResult → ExecReaderMsg
  | stdout => .stdout
  | stderr => .stderr

/-- The result in a message, if it is that of the stream. -/
def ExecReaderMsg.resultOf : ExecStream → ExecReaderMsg → Option ReaderResult
  | .stdout, .stdout r => some r
  | .stderr, .stderr r => some r
  | _, _ => none

/-- The largest output, in bytes. -/
def maxOutputSize : ℕ := 64 * 1024 * 1024

/-- The size of the buffer for one read. -/
def chunkSize : ℕ := 8192

/-- POLLERR or POLLNVAL: the pipe cannot be read. -/
def pollErrors : UInt16 := 8 ||| 32

/-- POLLIN or POLLHUP: there are bytes, or there is the end. -/
def pollReadable : UInt16 := 1 ||| 16

/-- Where a thread stands: in front of loading the flag, of polling, of reading (with what it
has read), of sending its result, behind that, or ended, with what it has sent. -/
inductive ReaderPc
  | checkCancel (buf : Bytes)
  | poll (buf : Bytes)
  | read (buf : Bytes)
  | send (r : ReaderResult)
  | sent (r : ReaderResult)
  | gone (sent : Option ReaderResult)

namespace ReaderPc

/-- What has been sent. -/
def sent? : ReaderPc → Option ReaderResult
  | sent r => some r
  | gone r => r
  | _ => none

/-- Whether the sender has been dropped. -/
def isGone : ReaderPc → Bool
  | gone _ => true
  | _ => false

/-- The result that the thread has, sent or not. -/
def result? : ReaderPc → Option ReaderResult
  | send r => some r
  | sent r => some r
  | gone r => r
  | _ => none

end ReaderPc

/-- What happens to a thread: the answers of the system calls (an error without text is an
interruption), a panic, or that it goes on. -/
inductive ReaderEvent
  | cancelLoaded (observed : Bool)
  | pollFailed (err : Option Text)
  | pollTimedOut
  | polled (revents : UInt16)
  | readOk (chunk : Bytes)
  | readFailed (err : Option Text)
  | panicked
  | proceed

/-- The thread behind a poll that has found something. -/
def afterPoll (buf : Bytes) (revents : UInt16) : ReaderPc :=
  if revents &&& pollErrors ≠ 0 then
    .send (.error ("poll on exec output pipe failed with revents 0x".toList ++
      Nat.toDigits 16 revents.toNat))
  else if revents &&& pollReadable ≠ 0 then .read buf
  else .checkCancel buf

/-- The thread behind a read. -/
def afterRead (buf chunk : Bytes) : ReaderPc :=
  if chunk = [] then .send (.ok (some buf))
  else if (buf ++ chunk).length > maxOutputSize then
    .send (.error ("output exceeds ".toList ++ naturalText maxOutputSize ++
      " bytes limit".toList))
  else .checkCancel (buf ++ chunk)

/-- A step of a thread. -/
def readerStep (cancel : Bool) : ReaderPc → ReaderEvent → Option ReaderPc
  | .checkCancel _, .cancelLoaded true => if cancel then some (.send (.ok none)) else none
  | .checkCancel buf, .cancelLoaded false => some (.poll buf)
  | .poll buf, .pollFailed none => some (.checkCancel buf)
  | .poll _, .pollFailed (some err) => some (.send (.error err))
  | .poll buf, .pollTimedOut => some (.checkCancel buf)
  | .poll buf, .polled revents => some (afterPoll buf revents)
  | .read buf, .readOk chunk =>
      if chunk.length ≤ chunkSize then some (afterRead buf chunk) else none
  | .read buf, .readFailed none => some (.checkCancel buf)
  | .read _, .readFailed (some err) => some (.send (.error err))
  | .send r, .proceed => some (.sent r)
  | .sent r, .proceed => some (.gone (some r))
  | .checkCancel _, .panicked | .poll _, .panicked | .read _, .panicked | .send _, .panicked =>
      some (.gone none)
  | _, _ => none

/-- What a step puts into the channel. -/
def outgoing (stream : ExecStream) : ReaderPc → ReaderEvent → List ExecReaderMsg
  | .send r, .proceed => [stream.msg r]
  | _, _ => []

/-! ### Waiting for the threads -/

/-- The streams without a message; none where the code is unreachable. -/
def describeMissing : Bool → Bool → Option Text
  | false, false => some "stdout/stderr".toList
  | false, true => some "stdout".toList
  | true, false => some "stderr".toList
  | true, true => none

/-- A thread has ended without a message. -/
def terminatedText (missing : Text) : Text :=
  "exec reader thread for ".toList ++ missing ++ " terminated without sending result".toList

/-- The deadline has passed. -/
def timedOutText (missing : Text) (timeoutMs : ℕ) : Text :=
  "read ".toList ++ missing ++ " timed out after ".toList ++ naturalText timeoutMs ++ "ms".toList

/-- Where the function stands: in the loop up to the deadline, behind it, in the loop behind the
deadline, returned, or in a panic. -/
inductive JoinPc
  | receiving
  | test
  | draining (missing : Text)
  | returned (r : Except Text (Bytes × Bytes))
  | panicked

/-- The threads, the channel, the flag, and the function with what it has received. Of what has
happened: each message received, with whether the deadline had fired, and when the deadline
fired, whether a message was missing. -/
structure JoinState where
  reader : ExecStream → ReaderPc
  queue : List ExecReaderMsg
  cancel : Bool
  stdout : Option ReaderResult
  stderr : Option ReaderResult
  main : JoinPc
  received : List (ExecReaderMsg × Bool)
  deadline : Option Bool

/-- The steps of the system. -/
inductive JoinAction
  | main
  | deadline
  | reader (stream : ExecStream) (event : ReaderEvent)

/-- The bytes of both streams, or the error of the first one without; a panic if there is no
message. -/
def unwrapResults (stdout stderr : Option ReaderResult) : JoinPc :=
  match stdout with
  | none => .panicked
  | some (.ok none) =>
      .returned (.error "exec stdout reader was cancelled unexpectedly".toList)
  | some (.error e) => .returned (.error ("read stdout failed: ".toList ++ e))
  | some (.ok (some a)) =>
      match stderr with
      | none => .panicked
      | some (.ok none) =>
          .returned (.error "exec stderr reader was cancelled unexpectedly".toList)
      | some (.error e) => .returned (.error ("read stderr failed: ".toList ++ e))
      | some (.ok (some b)) => .returned (.ok (a, b))

namespace JoinState

/-- The threads have just been started. -/
def initial : JoinState where
  reader _ := .checkCancel []
  queue := []
  cancel := false
  stdout := none
  stderr := none
  main := .receiving
  received := []
  deadline := none

/-- Whether a message is missing. -/
def missing (s : JoinState) : Bool := s.stdout.isNone || s.stderr.isNone

/-- Whether all senders have been dropped. -/
def disconnected (s : JoinState) : Bool := (s.reader .stdout).isGone && (s.reader .stderr).isGone

/-- Put a message in its place. -/
def store (s : JoinState) : ExecReaderMsg → JoinState
  | .stdout r => { s with stdout := some r }
  | .stderr r => { s with stderr := some r }

/-- Take a message from the channel. -/
def take (s : JoinState) (msg : ExecReaderMsg) (queue : List ExecReaderMsg) : JoinState :=
  { s.store msg with queue := queue, received := s.received ++ [(msg, s.deadline.isSome)] }

/-- A step of the function. -/
def mainStep (timeoutMs : ℕ) (s : JoinState) : Option JoinState :=
  match s.main with
  | .receiving =>
      match s.queue with
      | msg :: queue =>
          some { s.take msg queue with
            main := if (s.take msg queue).missing then .receiving else .test }
      | [] =>
          if s.disconnected then
            some { s with
              main := match describeMissing s.stdout.isSome s.stderr.isSome with
                | some missing => .returned (.error (terminatedText missing))
                | none => .panicked }
          else none
  | .test =>
      if s.missing then
        some { s with
          cancel := true
          main := match describeMissing s.stdout.isSome s.stderr.isSome with
            | some missing => .draining missing
            | none => .panicked }
      else some { s with main := unwrapResults s.stdout s.stderr }
  | .draining missing =>
      match s.queue with
      | msg :: queue =>
          some { s.take msg queue with
            main := if (s.take msg queue).missing then .draining missing
              else .returned (.error (timedOutText missing timeoutMs)) }
      | [] =>
          if s.disconnected then
            some { s with main := .returned (.error (timedOutText missing timeoutMs)) }
          else none
  | .returned _ | .panicked => none

/-- The deadline fires, which ends the first loop. -/
def deadlineStep (s : JoinState) : Option JoinState :=
  match s.deadline, s.main with
  | none, .receiving => some { s with deadline := some s.missing, main := .test }
  | none, .test => some { s with deadline := some s.missing }
  | none, .draining _ => some { s with deadline := some s.missing }
  | _, _ => none

/-- A step of the system. -/
def step (timeoutMs : ℕ) (s : JoinState) : JoinAction → Option JoinState
  | .main => s.mainStep timeoutMs
  | .deadline => s.deadlineStep
  | .reader stream event =>
      (readerStep s.cancel (s.reader stream) event).map fun pc =>
        { s with
          reader := Function.update s.reader stream pc
          queue := s.queue ++ outgoing stream (s.reader stream) event }

end JoinState

/-! ### One message of each thread -/

/-- The message of a stream carries its result. -/
@[simp] theorem resultOf_msg (stream : ExecStream) (r : ReaderResult) :
    (stream.msg r).resultOf stream = some r := by cases stream <;> rfl

/-- A message that carries a result for a stream is the message of that stream with that
result. -/
theorem resultOf_eq_some_iff {stream : ExecStream} {msg : ExecReaderMsg} {r : ReaderResult} :
    msg.resultOf stream = some r ↔ msg = stream.msg r := by
  constructor
  · intro h
    cases stream <;> cases msg
    case stdout.stdout => exact congrArg _ (Option.some.inj h)
    case stderr.stderr => exact congrArg _ (Option.some.inj h)
    all_goals exact nomatch h
  · rintro rfl
    exact resultOf_msg stream r

/-- Messages of other streams have no result of this one. -/
theorem resultOf_msg_of_ne {stream other : ExecStream} (h : other ≠ stream) (r : ReaderResult) :
    (other.msg r).resultOf stream = none := by
  cases stream <;> cases other
  case stdout.stdout => exact absurd rfl h
  case stderr.stderr => exact absurd rfl h
  all_goals rfl

/-- A thread sends nothing for another stream. -/
theorem outgoing_of_ne {stream other : ExecStream} (h : other ≠ stream) (pc : ReaderPc)
    (event : ReaderEvent) : (outgoing other pc event).filterMap (·.resultOf stream) = [] := by
  cases pc with
  | send r =>
      cases event with
      | proceed => exact List.filterMap_cons_none (resultOf_msg_of_ne h r)
      | _ => rfl
  | _ => rfl

/-- The thread is reading. -/
def ReaderPc.IsReading : ReaderPc → Prop
  | checkCancel _ | poll _ | read _ => True
  | _ => False

/-- What a step of a thread can be. -/
inductive ReaderMove (cancel : Bool) : ReaderPc → ReaderEvent → ReaderPc → Prop
  | reads {pc pc' : ReaderPc} {event : ReaderEvent} (hpc : pc.IsReading) (hpc' : pc'.IsReading) :
      ReaderMove cancel pc event pc'
  | finishes {pc : ReaderPc} {event : ReaderEvent} (hpc : pc.IsReading) (r : ReaderResult)
      (hr : r = .ok none → cancel = true) : ReaderMove cancel pc event (.send r)
  | dies {pc : ReaderPc} {event : ReaderEvent} (hpc : pc.IsReading) :
      ReaderMove cancel pc event (.gone none)
  | sends (r : ReaderResult) : ReaderMove cancel (.send r) .proceed (.sent r)
  | diesBefore (r : ReaderResult) : ReaderMove cancel (.send r) .panicked (.gone none)
  | drops (r : ReaderResult) : ReaderMove cancel (.sent r) .proceed (.gone (some r))

/-- What a reader does behind a poll is one of its moves: it reads, it ends, or it polls
again. -/
theorem readerMove_afterPoll {cancel : Bool} (buf : Bytes) (revents : UInt16) :
    ReaderMove cancel (.poll buf) (.polled revents) (afterPoll buf revents) := by
  rw [afterPoll]
  split
  · exact .finishes (by trivial) _ nofun
  split
  · exact .reads trivial trivial
  · exact .reads trivial trivial

/-- What a reader does behind a read is one of its moves: at the end it has its result,
and otherwise it has gathered the chunk. -/
theorem readerMove_afterRead {cancel : Bool} (buf chunk : Bytes) :
    ReaderMove cancel (.read buf) (.readOk chunk) (afterRead buf chunk) := by
  rw [afterRead]
  split
  · exact .finishes (by trivial) _ nofun
  split
  · exact .finishes (by trivial) _ nofun
  · exact .reads trivial trivial

/-- **What a step of a thread can be.** One case for each place where a thread can stand,
and in it for each event that is possible there. -/
theorem readerMove_of_readerStep {cancel : Bool} {pc pc' : ReaderPc} {event : ReaderEvent}
    (h : readerStep cancel pc event = some pc') : ReaderMove cancel pc event pc' := by
  cases pc with
  | checkCancel buf =>
      cases event with
      | cancelLoaded observed =>
          cases observed with
          | false =>
              obtain rfl := Option.some.inj h
              exact .reads trivial trivial
          | true =>
              obtain ⟨hcancel, hsome⟩ := Option.ite_none_right_eq_some.mp h
              obtain rfl := Option.some.inj hsome
              exact .finishes (by trivial) _ fun _ => hcancel
      | panicked =>
          obtain rfl := Option.some.inj h
          exact .dies trivial
      | _ => exact nomatch h
  | poll buf =>
      cases event with
      | pollFailed err =>
          cases err with
          | none =>
              obtain rfl := Option.some.inj h
              exact .reads trivial trivial
          | some err =>
              obtain rfl := Option.some.inj h
              exact .finishes (by trivial) _ nofun
      | pollTimedOut =>
          obtain rfl := Option.some.inj h
          exact .reads trivial trivial
      | polled revents =>
          obtain rfl := Option.some.inj h
          exact readerMove_afterPoll buf revents
      | panicked =>
          obtain rfl := Option.some.inj h
          exact .dies trivial
      | _ => exact nomatch h
  | read buf =>
      cases event with
      | readOk chunk =>
          obtain ⟨-, hsome⟩ := Option.ite_none_right_eq_some.mp h
          obtain rfl := Option.some.inj hsome
          exact readerMove_afterRead buf chunk
      | readFailed err =>
          cases err with
          | none =>
              obtain rfl := Option.some.inj h
              exact .reads trivial trivial
          | some err =>
              obtain rfl := Option.some.inj h
              exact .finishes (by trivial) _ nofun
      | panicked =>
          obtain rfl := Option.some.inj h
          exact .dies trivial
      | _ => exact nomatch h
  | send r =>
      cases event with
      | proceed =>
          obtain rfl := Option.some.inj h
          exact .sends r
      | panicked =>
          obtain rfl := Option.some.inj h
          exact .diesBefore r
      | _ => exact nomatch h
  | sent r =>
      cases event with
      | proceed =>
          obtain rfl := Option.some.inj h
          exact .drops r
      | _ => exact nomatch h
  | gone r => cases event <;> exact nomatch h

/-- A thread that reads has sent nothing. -/
theorem ReaderPc.IsReading.sent?_eq {pc : ReaderPc} (h : pc.IsReading) : pc.sent? = none := by
  cases pc with
  | checkCancel | poll | read => rfl
  | send | sent | gone => exact h.elim

/-- A thread that reads puts nothing into the channel. -/
theorem ReaderPc.IsReading.outgoing_eq {pc : ReaderPc} (h : pc.IsReading) (stream : ExecStream)
    (event : ReaderEvent) : outgoing stream pc event = [] := by
  cases pc with
  | checkCancel | poll | read => rfl
  | send | sent | gone => exact h.elim

/-- **A thread sends at most one message**: what it has sent behind a step is what it had sent
before, and what the step puts into the channel. -/
theorem sent_of_readerStep {cancel : Bool} {pc pc' : ReaderPc} {event : ReaderEvent}
    (h : readerStep cancel pc event = some pc') (stream : ExecStream) :
    pc'.sent?.toList =
      pc.sent?.toList ++ (outgoing stream pc event).filterMap (·.resultOf stream) := by
  cases readerMove_of_readerStep h with
  | reads hpc hpc' => rw [hpc.sent?_eq, hpc'.sent?_eq, hpc.outgoing_eq]; rfl
  | finishes hpc | dies hpc => rw [hpc.sent?_eq, hpc.outgoing_eq]; rfl
  | sends r => cases stream <;> rfl
  | diesBefore | drops => rfl

/-- A thread is cancelled only if it has seen the flag. -/
theorem cancelled_of_readerStep {cancel : Bool} {pc pc' : ReaderPc} {event : ReaderEvent}
    (h : readerStep cancel pc event = some pc') (hpc : pc.result? = some (.ok none) → cancel = true)
    (hresult : pc'.result? = some (.ok none)) : cancel = true := by
  cases readerMove_of_readerStep h with
  | reads _ hpc' =>
      cases pc' with
      | checkCancel | poll | read => exact nomatch hresult
      | send | sent | gone => exact hpc'.elim
  | finishes _ r hr => exact hr (Option.some.inj hresult)
  | dies | diesBefore => exact nomatch hresult
  | sends | drops => exact hpc hresult

/-- A thread that has ended does nothing. -/
theorem readerStep_of_isGone {cancel : Bool} {pc : ReaderPc} (h : pc.isGone = true)
    (event : ReaderEvent) : readerStep cancel pc event = none := by
  cases pc with
  | gone r => cases event <;> rfl
  | _ => exact nomatch h

namespace JoinState

/-! ### The invariant -/

/-- The message received from a stream. -/
def slot (s : JoinState) : ExecStream → Option ReaderResult
  | .stdout => s.stdout
  | .stderr => s.stderr

/-- All messages were received before the deadline fired. -/
def InTime (s : JoinState) : Prop := ∀ entry ∈ s.received, entry.2 = false

/-- From some stream no message was received before the deadline fired. -/
def Late (s : JoinState) : Prop := ∃ stream : ExecStream, ∀ r, (stream.msg r, false) ∉ s.received

/-- What holds where the function stands. -/
def MainInv (s : JoinState) : Prop :=
  match s.main with
  | .receiving => s.missing = true ∧ s.cancel = false ∧ s.deadline = none ∧ s.InTime
  | .test =>
      s.cancel = false ∧ s.InTime ∧
        (s.missing = true ∧ s.deadline = some true ∨ s.missing = false ∧ s.deadline ≠ some true)
  | .draining _ => s.missing = true ∧ s.cancel = true ∧ s.deadline = some true ∧ s.Late
  | .returned r =>
      (s.cancel = false ∧ s.deadline ≠ some true ∧ s.missing = true ∧ ∃ e, r = .error e) ∨
        (s.cancel = false ∧ s.deadline ≠ some true ∧ s.missing = false ∧ s.InTime ∧
          unwrapResults s.stdout s.stderr = .returned r) ∨
        (s.cancel = true ∧ s.deadline = some true ∧ s.Late ∧
          (s.missing = false ∨ s.disconnected = true) ∧ ∃ e, r = .error e)
  | .panicked => False

/-- What holds between the steps. -/
structure JoinInv (s : JoinState) : Prop where
  /-- What a thread has sent is received or in the channel. -/
  ledger : ∀ stream,
    (s.slot stream).toList ++ s.queue.filterMap (·.resultOf stream) = (s.reader stream).sent?.toList
  /-- What has been received is in its place. -/
  history : ∀ stream,
    (s.received.map Prod.fst).filterMap (·.resultOf stream) = (s.slot stream).toList
  cancelled : ∀ stream, (s.reader stream).result? = some (.ok none) → s.cancel = true
  main : s.MainInv

variable {s s' : JoinState}

/-- In the beginning nothing has been sent and no slot is filled. -/
theorem joinInv_initial : JoinInv initial where
  ledger stream := by cases stream <;> rfl
  history stream := by cases stream <;> rfl
  cancelled _ h := nomatch h
  main := ⟨rfl, rfl, rfl, nofun⟩

/-- A result is missing as long as the slot of one of the streams is empty. -/
theorem missing_eq_true_iff : s.missing = true ↔ ∃ stream, s.slot stream = none := by
  rw [missing, Bool.or_eq_true, Option.isNone_iff_eq_none, Option.isNone_iff_eq_none]
  constructor
  · rintro (h | h)
    · exact ⟨.stdout, h⟩
    · exact ⟨.stderr, h⟩
  · rintro ⟨_ | _, h⟩
    · exact .inl h
    · exact .inr h

/-- While a message is missing the missing streams can be described. -/
theorem describeMissing_isSome (h : s.missing = true) :
    ∃ text, describeMissing s.stdout.isSome s.stderr.isSome = some text := by
  rw [missing] at h
  cases hout : s.stdout with
  | none => cases s.stderr <;> exact ⟨_, rfl⟩
  | some r =>
      cases herr : s.stderr with
      | none => exact ⟨_, rfl⟩
      | some r' =>
          rw [hout, herr] at h
          exact nomatch h

/-- A stream of which something was received has its message in its place. -/
theorem slot_of_received
    (h : ∀ stream, (s.received.map Prod.fst).filterMap (·.resultOf stream) =
      (s.slot stream).toList) (stream : ExecStream) {r : ReaderResult} {late : Bool}
    (hmem : (stream.msg r, late) ∈ s.received) : s.slot stream = some r := by
  have hfst : stream.msg r ∈ s.received.map Prod.fst := List.mem_map_of_mem hmem
  have hin := List.mem_filterMap.mpr ⟨_, hfst, resultOf_msg stream r⟩
  rw [h stream] at hin
  exact Option.mem_toList.mp hin

/-- In time, a message in its place was received before the deadline. -/
theorem received_of_slot
    (h : ∀ stream, (s.received.map Prod.fst).filterMap (·.resultOf stream) =
      (s.slot stream).toList) (hin : s.InTime) {stream : ExecStream} {r : ReaderResult}
    (hslot : s.slot stream = some r) : (stream.msg r, false) ∈ s.received := by
  have hmem : r ∈ (s.received.map Prod.fst).filterMap (·.resultOf stream) := by
    rw [h stream, hslot]
    exact List.mem_singleton_self r
  obtain ⟨msg, hmsg, hr⟩ := List.mem_filterMap.mp hmem
  obtain ⟨⟨msg', late⟩, hentry, rfl⟩ := List.mem_map.mp hmsg
  obtain rfl := resultOf_eq_some_iff.mp hr
  obtain rfl : late = false := hin _ hentry
  exact hentry

/-- While a message is missing, some stream is late. -/
theorem JoinInv.late (h : JoinInv s) (hmissing : s.missing = true) : s.Late := by
  obtain ⟨stream, hslot⟩ := missing_eq_true_iff.mp hmissing
  refine ⟨stream, fun r hmem => ?_⟩
  rw [slot_of_received h.history stream hmem] at hslot
  exact nomatch hslot

/-! ### Receiving -/

/-- Storing a message leaves the readers as they are. -/
@[simp] theorem reader_store (s : JoinState) (msg : ExecReaderMsg) :
    (s.store msg).reader = s.reader := by cases msg <;> rfl

/-- Storing a message leaves the flag that cancels them. -/
@[simp] theorem cancel_store (s : JoinState) (msg : ExecReaderMsg) :
    (s.store msg).cancel = s.cancel := by cases msg <;> rfl

/-- Storing a message leaves the deadline. -/
@[simp] theorem deadline_store (s : JoinState) (msg : ExecReaderMsg) :
    (s.store msg).deadline = s.deadline := by cases msg <;> rfl

/-- A message is stored in the slot of its stream, and the other slot stays as it is. -/
theorem slot_store (s : JoinState) (msg : ExecReaderMsg) (stream : ExecStream) :
    (s.store msg).slot stream = (msg.resultOf stream).or (s.slot stream) := by
  cases msg <;> cases stream <;> rfl

/-- A message at the front of the channel is the first one of its stream. A thread sends
once, so its slot is filled only by this message. -/
theorem JoinInv.slot_eq_none (h : JoinInv s) {msg : ExecReaderMsg} {queue : List ExecReaderMsg}
    (hqueue : s.queue = msg :: queue) {stream : ExecStream} {r : ReaderResult}
    (hr : msg.resultOf stream = some r) : s.slot stream = none := by
  have hledger := h.ledger stream
  rw [hqueue, List.filterMap_cons_some hr] at hledger
  cases hslot : s.slot stream with
  | none => rfl
  | some r' =>
      rw [hslot] at hledger
      cases hsent : (s.reader stream).sent? with
      | none =>
          rw [hsent] at hledger
          exact nomatch hledger
      | some r'' =>
          rw [hsent] at hledger
          exact nomatch hledger

/-- **Receiving a message** keeps the account of the messages. The message leaves the
queue for its slot and for the list of what has been received; the other stream is left
alone. -/
theorem JoinInv.of_take (h : JoinInv s) {msg : ExecReaderMsg} {queue : List ExecReaderMsg}
    (hqueue : s.queue = msg :: queue) {pc : JoinPc}
    (hmain : MainInv { s.take msg queue with main := pc }) :
    JoinInv { s.take msg queue with main := pc } := by
  have hslot : ∀ stream, slot { s.take msg queue with main := pc } stream =
      (msg.resultOf stream).or (s.slot stream) := by
    intro stream
    rw [← slot_store]
    cases stream <;> rfl
  refine ⟨fun stream => ?_, fun stream => ?_, fun stream hresult => ?_, hmain⟩
  · have hledger := h.ledger stream
    rw [hqueue] at hledger
    rw [hslot]
    dsimp only [take]
    cases hr : msg.resultOf stream with
    | none =>
        rw [List.filterMap_cons_none hr] at hledger
        rw [Option.none_or, hledger, reader_store]
    | some r =>
        rw [List.filterMap_cons_some hr, h.slot_eq_none hqueue hr] at hledger
        rw [Option.some_or, reader_store, ← hledger]
        rfl
  · rw [hslot]
    dsimp only [take]
    rw [List.map_append, List.filterMap_append, h.history stream]
    cases hr : msg.resultOf stream with
    | none =>
        rw [Option.none_or]
        exact (congrArg _ (List.filterMap_cons_none hr)).trans (List.append_nil _)
    | some r =>
        rw [h.slot_eq_none hqueue hr]
        exact List.filterMap_cons_some hr
  · dsimp only [take] at hresult ⊢
    rw [reader_store] at hresult
    rw [cancel_store]
    exact h.cancelled stream hresult

/-- A message received before the deadline is in time. -/
theorem InTime.of_take (h : s.InTime) (hdeadline : s.deadline = none) (msg : ExecReaderMsg)
    (queue : List ExecReaderMsg) (pc : JoinPc) :
    InTime { s.take msg queue with main := pc } := by
  intro entry hentry
  rcases List.mem_append.mp hentry with hentry | hentry
  · exact h entry hentry
  · obtain rfl := List.mem_singleton.mp hentry
    dsimp only
    rw [hdeadline]
    rfl

/-- A message received behind the deadline does not change who is late. -/
theorem Late.of_take (h : s.Late) (hdeadline : s.deadline = some true) (msg : ExecReaderMsg)
    (queue : List ExecReaderMsg) (pc : JoinPc) :
    Late { s.take msg queue with main := pc } := by
  obtain ⟨stream, hlate⟩ := h
  refine ⟨stream, fun r hmem => ?_⟩
  rcases List.mem_append.mp hmem with hmem | hmem
  · exact hlate r hmem
  · have hfalse := congrArg Prod.snd (List.mem_singleton.mp hmem)
    dsimp only at hfalse
    rw [hdeadline] at hfalse
    exact nomatch hfalse

/-! ### Steps -/

/-- What is received is unwrapped without a panic. -/
theorem exists_unwrapResults (h : s.missing = false) :
    ∃ r, unwrapResults s.stdout s.stderr = .returned r := by
  rw [missing, Bool.or_eq_false_iff, Option.isNone_eq_false_iff, Option.isNone_eq_false_iff,
    Option.isSome_iff_exists, Option.isSome_iff_exists] at h
  obtain ⟨⟨out, hout⟩, err, herr⟩ := h
  rw [hout, herr]
  cases out with
  | error e => exact ⟨_, rfl⟩
  | ok a =>
      cases a with
      | none => exact ⟨_, rfl⟩
      | some a =>
          cases err with
          | error e => exact ⟨_, rfl⟩
          | ok b => cases b <;> exact ⟨_, rfl⟩

/-- Up to the deadline a message is received, or all senders have been dropped. A message
is put in its slot, and the loop is left once none is missing; without senders the
function returns an error. -/
theorem JoinInv.of_receiving (h : JoinInv s) {timeoutMs : ℕ} (hpc : s.main = .receiving)
    (hstep : s.mainStep timeoutMs = some s') : JoinInv s' := by
  have hmain := h.main
  rw [MainInv, hpc] at hmain
  obtain ⟨hmissing, hcancel, hdeadline, hin⟩ := hmain
  rw [mainStep, hpc] at hstep
  dsimp only at hstep
  split at hstep
  · next msg queue hqueue =>
      obtain rfl := Option.some.inj hstep
      apply h.of_take hqueue
      have hcancel' : (s.take msg queue).cancel = false := by rw [take, cancel_store, hcancel]
      have hdeadline' : (s.take msg queue).deadline = none := by
        rw [take, deadline_store, hdeadline]
      split
      · next hmissing' =>
          exact ⟨hmissing', hcancel', hdeadline', hin.of_take hdeadline msg queue _⟩
      · next hmissing' =>
          refine ⟨hcancel', hin.of_take hdeadline msg queue _, .inr ⟨?_, ?_⟩⟩
          · exact eq_false_of_ne_true hmissing'
          · exact ne_of_eq_of_ne hdeadline' nofun
  · obtain ⟨-, hsome⟩ := Option.ite_none_right_eq_some.mp hstep
    obtain rfl := Option.some.inj hsome
    obtain ⟨text, htext⟩ := describeMissing_isSome hmissing
    rw [htext]
    refine ⟨h.ledger, h.history, h.cancelled, .inl ⟨hcancel, ?_, hmissing, _, rfl⟩⟩
    exact ne_of_eq_of_ne hdeadline nofun

/-- Behind the loop the flag is set, or what is received is unwrapped. The flag is set
when the deadline has come; otherwise both results are there. -/
theorem JoinInv.of_test (h : JoinInv s) {timeoutMs : ℕ} (hpc : s.main = .test)
    (hstep : s.mainStep timeoutMs = some s') : JoinInv s' := by
  have hmain := h.main
  rw [MainInv, hpc] at hmain
  obtain ⟨hcancel, hin, hdeadline⟩ := hmain
  rw [mainStep, hpc] at hstep
  dsimp only at hstep
  split at hstep
  · next hmissing =>
      obtain rfl := Option.some.inj hstep
      obtain ⟨text, htext⟩ := describeMissing_isSome hmissing
      rw [htext]
      rcases hdeadline with ⟨-, hdeadline⟩ | ⟨hmissing', -⟩
      · exact ⟨h.ledger, h.history, fun _ _ => rfl, hmissing, rfl, hdeadline, h.late hmissing⟩
      · exact absurd hmissing (ne_of_eq_of_ne hmissing' nofun)
  · next hmissing =>
      obtain rfl := Option.some.inj hstep
      rcases hdeadline with ⟨hmissing', -⟩ | ⟨hmissing', hdeadline⟩
      · exact absurd hmissing' hmissing
      · obtain ⟨r, hr⟩ := exists_unwrapResults hmissing'
        rw [hr]
        exact ⟨h.ledger, h.history, h.cancelled,
          .inr (.inl ⟨hcancel, hdeadline, hmissing', hin, hr⟩)⟩

/-- Behind the deadline the function returns with the last message, or without senders.
What it returns is the error of the deadline, whatever arrives. -/
theorem JoinInv.of_draining (h : JoinInv s) {timeoutMs : ℕ} {text : Text}
    (hpc : s.main = .draining text) (hstep : s.mainStep timeoutMs = some s') : JoinInv s' := by
  have hmain := h.main
  rw [MainInv, hpc] at hmain
  obtain ⟨hmissing, hcancel, hdeadline, hlate⟩ := hmain
  rw [mainStep, hpc] at hstep
  dsimp only at hstep
  split at hstep
  · next msg queue hqueue =>
      obtain rfl := Option.some.inj hstep
      apply h.of_take hqueue
      have hcancel' : (s.take msg queue).cancel = true := by rw [take, cancel_store, hcancel]
      have hdeadline' : (s.take msg queue).deadline = some true := by
        rw [take, deadline_store, hdeadline]
      split
      · next hmissing' =>
          exact ⟨hmissing', hcancel', hdeadline', hlate.of_take hdeadline msg queue _⟩
      · next hmissing' =>
          exact .inr (.inr ⟨hcancel', hdeadline', hlate.of_take hdeadline msg queue _,
            .inl (eq_false_of_ne_true hmissing'), _, rfl⟩)
  · obtain ⟨hgone, hsome⟩ := Option.ite_none_right_eq_some.mp hstep
    obtain rfl := Option.some.inj hsome
    exact ⟨h.ledger, h.history, h.cancelled,
      .inr (.inr ⟨hcancel, hdeadline, hlate, .inr hgone, _, rfl⟩)⟩

/-- The function goes on. One case for each place in its code. -/
theorem JoinInv.of_mainStep (h : JoinInv s) {timeoutMs : ℕ}
    (hstep : s.mainStep timeoutMs = some s') : JoinInv s' := by
  cases hpc : s.main with
  | receiving => exact h.of_receiving hpc hstep
  | test => exact h.of_test hpc hstep
  | draining text => exact h.of_draining hpc hstep
  | returned r =>
      rw [mainStep, hpc] at hstep
      exact nomatch hstep
  | panicked =>
      rw [mainStep, hpc] at hstep
      exact nomatch hstep

/-- The deadline fires. While messages are received it ends the loop, and in front of the
test it comes too late; further on it has fired already. -/
theorem JoinInv.of_deadlineStep (h : JoinInv s) (hstep : s.deadlineStep = some s') :
    JoinInv s' := by
  have hmain := h.main
  rw [MainInv] at hmain
  rw [deadlineStep] at hstep
  split at hstep
  · next hdeadline hpc =>
      rw [hpc] at hmain
      obtain rfl := Option.some.inj hstep
      obtain ⟨hmissing, hcancel, -, hin⟩ := hmain
      exact ⟨h.ledger, h.history, h.cancelled,
        hcancel, hin, .inl ⟨hmissing, congrArg some hmissing⟩⟩
  · next hdeadline hpc =>
      rw [hpc, hdeadline] at hmain
      obtain rfl := Option.some.inj hstep
      obtain ⟨hcancel, hin, ⟨-, hfired⟩ | ⟨hmissing, -⟩⟩ := hmain
      · exact nomatch hfired
      · refine ⟨h.ledger, h.history, h.cancelled, ?_⟩
        rw [MainInv, hmissing]
        dsimp only
        rw [hpc]
        exact ⟨hcancel, hin, .inr ⟨hmissing, nofun⟩⟩
  · next hdeadline hpc =>
      rw [hpc, hdeadline] at hmain
      exact nomatch hmain.2.2.1
  · exact absurd hstep (by simp)

/-- Senders that have been dropped stay so: no thread goes on. -/
theorem not_disconnected_of_readerStep {stream : ExecStream} {event : ReaderEvent}
    {pc : ReaderPc} (hstep : readerStep s.cancel (s.reader stream) event = some pc) :
    s.disconnected ≠ true := by
  intro hgone
  obtain ⟨hout, herr⟩ := Bool.and_eq_true_iff.mp hgone
  have hstream : (s.reader stream).isGone = true := by
    cases stream with
    | stdout => exact hout
    | stderr => exact herr
  rw [readerStep_of_isGone hstream] at hstep
  exact nomatch hstep

/-- A thread goes on. Its account grows by what it sends, and that of the other thread
stays; one case for each place where the main thread can stand. -/
theorem JoinInv.of_readerStep (h : JoinInv s) {stream : ExecStream} {event : ReaderEvent}
    {pc : ReaderPc} (hstep : readerStep s.cancel (s.reader stream) event = some pc) :
    JoinInv { s with
      reader := Function.update s.reader stream pc
      queue := s.queue ++ outgoing stream (s.reader stream) event } := by
  have hconnected := not_disconnected_of_readerStep hstep
  refine ⟨fun other => ?_, h.history, fun other hresult => ?_, ?_⟩
  · dsimp only
    rw [List.filterMap_append, ← List.append_assoc]
    refine (congrArg (· ++ _) (h.ledger other)).trans ?_
    by_cases hother : other = stream
    · subst hother
      rw [Function.update_self]
      exact (sent_of_readerStep hstep other).symm
    · rw [Function.update_of_ne hother, outgoing_of_ne (Ne.symm hother)]
      exact List.append_nil _
  · dsimp only at hresult
    by_cases hother : other = stream
    · subst hother
      rw [Function.update_self] at hresult
      exact cancelled_of_readerStep hstep (h.cancelled other) hresult
    · rw [Function.update_of_ne hother] at hresult
      exact h.cancelled other hresult
  · have hmain := h.main
    rw [MainInv] at hmain ⊢
    cases hpc : s.main with
    | returned r =>
        rw [hpc] at hmain
        rcases hmain with hmain | hmain | ⟨hcancel, hdeadline, hlate, hmissing, herror⟩
        · exact .inl hmain
        · exact .inr (.inl hmain)
        · exact .inr (.inr ⟨hcancel, hdeadline, hlate,
            .inl (hmissing.resolve_right hconnected), herror⟩)
    | receiving | test | draining | panicked =>
        rw [hpc] at hmain
        exact hmain

/-- **Every step keeps the invariant.** -/
theorem JoinInv.of_step (h : JoinInv s) {timeoutMs : ℕ} {action : JoinAction}
    (hstep : step timeoutMs s action = some s') : JoinInv s' := by
  cases action with
  | main => exact h.of_mainStep hstep
  | deadline => exact h.of_deadlineStep hstep
  | reader stream event =>
      obtain ⟨pc, hpc, rfl⟩ := Option.map_eq_some_iff.mp hstep
      exact h.of_readerStep hpc

/-- **The invariant holds in every state that a run reaches.** -/
theorem joinInv_of_run {timeoutMs : ℕ} {as : List JoinAction}
    (h : run (step timeoutMs) initial as = some s) : JoinInv s :=
  invariant_of_run (fun _ _ _ hinv hstep => hinv.of_step hstep) joinInv_initial h

/-! ### What is returned -/

/-- What has been sent is the result. -/
theorem result?_of_sent? {pc : ReaderPc} {r : ReaderResult} (h : pc.sent? = some r) :
    pc.result? = some r := by
  cases pc with
  | checkCancel | poll | read | send => exact nomatch h
  | sent | gone => exact h

/-- The output is returned exactly if both streams have been read to their end. Any other
result is an error, and without a result there is a panic. -/
theorem unwrapResults_eq_ok_iff {stdout stderr : Option ReaderResult} {a b : Bytes} :
    unwrapResults stdout stderr = .returned (.ok (a, b)) ↔
      stdout = some (.ok (some a)) ∧ stderr = some (.ok (some b)) := by
  constructor
  · intro h
    rw [unwrapResults.eq_def] at h
    split at h
    · exact nomatch h
    · exact nomatch h
    · exact nomatch h
    next a' =>
      split at h
      · exact nomatch h
      · exact nomatch h
      · exact nomatch h
      · obtain ⟨rfl, rfl⟩ := Prod.mk.inj (Except.ok.inj (JoinPc.returned.inj h))
        exact ⟨rfl, rfl⟩
  · rintro ⟨rfl, rfl⟩
    rfl

/-- Where a stream is late, the messages were not both received before the deadline fired. -/
theorem Late.not_both (h : s.Late) {out err : ReaderResult}
    (hout : (ExecReaderMsg.stdout out, false) ∈ s.received)
    (herr : (ExecReaderMsg.stderr err, false) ∈ s.received) : False := by
  obtain ⟨stream, hlate⟩ := h
  cases stream with
  | stdout => exact hlate out hout
  | stderr => exact hlate err herr

/-- What is in its place was sent by the thread for its stream. -/
theorem JoinInv.sent_of_slot (h : JoinInv s) {stream : ExecStream} {r : ReaderResult}
    (hslot : s.slot stream = some r) : (s.reader stream).sent? = some r := by
  have hledger := h.ledger stream
  rw [hslot] at hledger
  exact Option.mem_toList.mp (hledger ▸ List.mem_cons_self)

/-- **The bytes of both streams** are returned exactly if both arrive in time. One case
for each way to return: only the one in time with both results is no error. -/
theorem JoinInv.returned_ok_iff (h : JoinInv s) {r : Except Text (Bytes × Bytes)}
    (hpc : s.main = .returned r) (a b : Bytes) :
    r = .ok (a, b) ↔ (.stdout (.ok (some a)), false) ∈ s.received ∧
      (.stderr (.ok (some b)), false) ∈ s.received := by
  have hmain := h.main
  rw [MainInv, hpc] at hmain
  rcases hmain with ⟨-, -, hmissing, e, rfl⟩ | ⟨-, -, -, hin, hr⟩ | ⟨-, -, hlate, -, e, rfl⟩
  · exact iff_of_false nofun fun hboth => (h.late hmissing).not_both hboth.1 hboth.2
  · have hok : r = .ok (a, b) ↔ s.slot .stdout = some (.ok (some a)) ∧
        s.slot .stderr = some (.ok (some b)) := by
      rw [← JoinPc.returned.injEq, ← hr]
      exact unwrapResults_eq_ok_iff
    rw [hok]
    constructor
    · rintro ⟨hout, herr⟩
      exact ⟨received_of_slot h.history hin hout, received_of_slot h.history hin herr⟩
    · rintro ⟨hout, herr⟩
      exact ⟨slot_of_received h.history .stdout hout,
        slot_of_received h.history .stderr herr⟩
  · exact iff_of_false nofun fun hboth => hlate.not_both hboth.1 hboth.2

/-- The flag is set exactly if the deadline fired while a message was missing, but for the step
between. -/
theorem JoinInv.cancel_iff (h : JoinInv s) :
    (s.cancel = true → s.deadline = some true) ∧
      (s.deadline = some true → s.cancel = true ∨ s.main = .test) := by
  have hmain := h.main
  rw [MainInv] at hmain
  cases hpc : s.main with
  | receiving =>
      rw [hpc] at hmain
      obtain ⟨-, hcancel, hdeadline, -⟩ := hmain
      exact ⟨(fun h => nomatch hcancel.symm.trans h), (fun h => nomatch hdeadline.symm.trans h)⟩
  | test =>
      rw [hpc] at hmain
      exact ⟨(fun h => nomatch hmain.1.symm.trans h), fun _ => .inr rfl⟩
  | draining text =>
      rw [hpc] at hmain
      obtain ⟨-, hcancel, hdeadline, -⟩ := hmain
      exact ⟨fun _ => hdeadline, fun _ => .inl hcancel⟩
  | returned r =>
      rw [hpc] at hmain
      rcases hmain with ⟨hcancel, hdeadline, -⟩ | ⟨hcancel, hdeadline, -⟩ |
        ⟨hcancel, hdeadline, -⟩
      · exact ⟨(fun h => nomatch hcancel.symm.trans h), fun h => absurd h hdeadline⟩
      · exact ⟨(fun h => nomatch hcancel.symm.trans h), fun h => absurd h hdeadline⟩
      · exact ⟨fun _ => hdeadline, fun _ => .inl hcancel⟩
  | panicked =>
      rw [hpc] at hmain
      exact hmain.elim

/-- With the flag set the function returns an error, and not before the threads have sent or
ended. -/
theorem JoinInv.returned_of_cancel (h : JoinInv s) {r : Except Text (Bytes × Bytes)}
    (hpc : s.main = .returned r) (hcancel : s.cancel = true) :
    ((∀ stream, (s.reader stream).sent? ≠ none) ∨ s.disconnected = true) ∧
      ∃ e, r = .error e := by
  have hmain := h.main
  rw [MainInv, hpc] at hmain
  rcases hmain with ⟨hfalse, -⟩ | ⟨hfalse, -⟩ | ⟨-, -, -, hall, herror⟩
  · exact nomatch hfalse.symm.trans hcancel
  · exact nomatch hfalse.symm.trans hcancel
  · refine ⟨hall.imp_left fun hmissing stream hsent => ?_, herror⟩
    cases hslot : s.slot stream with
    | none => exact nomatch hmissing.symm.trans (missing_eq_true_iff.mpr ⟨stream, hslot⟩)
    | some r' => exact nomatch hsent.symm.trans (h.sent_of_slot hslot)

/-- **Both messages in time give the bytes**: the function has returned them, or does so with
its next step. -/
theorem JoinInv.returns_of_both (h : JoinInv s) (timeoutMs : ℕ) {a b : Bytes}
    (hout : (.stdout (.ok (some a)), false) ∈ s.received)
    (herr : (.stderr (.ok (some b)), false) ∈ s.received) :
    s.main = .returned (.ok (a, b)) ∨
      ∃ s', s.step timeoutMs .main = some s' ∧ s'.main = .returned (.ok (a, b)) := by
  have hslotOut : s.stdout = some (.ok (some a)) := slot_of_received h.history .stdout hout
  have hslotErr : s.stderr = some (.ok (some b)) := slot_of_received h.history .stderr herr
  have hmissing : s.missing = false := by
    rw [missing, hslotOut, hslotErr]
    rfl
  have hmain := h.main
  rw [MainInv] at hmain
  cases hpc : s.main with
  | receiving =>
      rw [hpc] at hmain
      exact absurd hmain.1 (ne_of_eq_of_ne hmissing Bool.false_ne_true)
  | test =>
      refine .inr ⟨{ s with main := unwrapResults s.stdout s.stderr }, ?_, ?_⟩
      · rw [step, mainStep, hpc]
        dsimp only
        rw [hmissing, if_neg Bool.false_ne_true]
      · exact unwrapResults_eq_ok_iff.mpr ⟨hslotOut, hslotErr⟩
  | draining text =>
      rw [hpc] at hmain
      exact (hmain.2.2.2.not_both hout herr).elim
  | returned r => exact .inl (congrArg _ ((h.returned_ok_iff hpc a b).mpr ⟨hout, herr⟩))
  | panicked =>
      rw [hpc] at hmain
      exact hmain.elim

/-- **The function waits only for a thread**: until it has returned it can go on, unless the
channel is empty and a thread has not ended. -/
theorem JoinInv.goes_on (h : JoinInv s) (timeoutMs : ℕ) :
    (∃ r, s.main = .returned r) ∨ (∃ s', s.step timeoutMs .main = some s') ∨
      s.queue = [] ∧ s.disconnected = false := by
  have hmain := h.main
  rw [MainInv] at hmain
  rw [step, mainStep]
  cases hpc : s.main with
  | receiving | draining text =>
      refine .inr ?_
      cases s.queue with
      | cons msg queue => exact .inl ⟨_, rfl⟩
      | nil =>
          cases s.disconnected with
          | true => exact .inl ⟨_, rfl⟩
          | false => exact .inr ⟨rfl, rfl⟩
  | test =>
      refine .inr (.inl ?_)
      cases s.missing with
      | true => exact ⟨_, rfl⟩
      | false => exact ⟨_, rfl⟩
  | returned r => exact .inl ⟨r, rfl⟩
  | panicked =>
      rw [hpc] at hmain
      exact hmain.elim

/-- **The threads are joined** as the streams arrive. Each part is read off the invariant,
which holds in every state that a run reaches. -/
theorem joinExecReaders_pairs {timeoutMs : ℕ} {as : List JoinAction}
    (h : run (step timeoutMs) initial as = some s) :
    s.main ≠ .panicked ∧
      (∀ stream, (s.reader stream).sent? = some (.ok none) → s.cancel = true) ∧
      (s.cancel = true → s.deadline = some true) ∧
      (s.deadline = some true → s.cancel = true ∨ s.main = .test) ∧
      (∀ a b, (.stdout (.ok (some a)), false) ∈ s.received →
        (.stderr (.ok (some b)), false) ∈ s.received →
        s.main = .returned (.ok (a, b)) ∨
          ∃ s', s.step timeoutMs .main = some s' ∧ s'.main = .returned (.ok (a, b))) ∧
      ((∃ r, s.main = .returned r) ∨ (∃ s', s.step timeoutMs .main = some s') ∨
        s.queue = [] ∧ s.disconnected = false) ∧
      ∀ r, s.main = .returned r →
        (∀ a b, r = .ok (a, b) ↔ (.stdout (.ok (some a)), false) ∈ s.received ∧
          (.stderr (.ok (some b)), false) ∈ s.received) ∧
        (∀ a b, r = .ok (a, b) → (s.reader .stdout).sent? = some (.ok (some a)) ∧
          (s.reader .stderr).sent? = some (.ok (some b))) ∧
        (s.cancel = true ↔ s.deadline = some true) ∧
        (s.cancel = true →
          ((∀ stream, (s.reader stream).sent? ≠ none) ∨ s.disconnected = true) ∧
            ∃ e, r = .error e) := by
  have hinv := joinInv_of_run h
  obtain ⟨hcancel, hdeadline⟩ := hinv.cancel_iff
  refine ⟨fun hpc => ?_, fun stream hsent => hinv.cancelled stream (result?_of_sent? hsent),
    hcancel, hdeadline, fun a b => hinv.returns_of_both timeoutMs, hinv.goes_on timeoutMs,
    fun r hpc => ⟨hinv.returned_ok_iff hpc, fun a b hr => ?_,
      ⟨hcancel, fun hfired => (hdeadline hfired).resolve_right ?_⟩, hinv.returned_of_cancel hpc⟩⟩
  · have hmain := hinv.main
    rw [MainInv, hpc] at hmain
    exact hmain
  · obtain ⟨hout, herr⟩ := (hinv.returned_ok_iff hpc a b).mp hr
    exact ⟨hinv.sent_of_slot (slot_of_received hinv.history .stdout hout),
      hinv.sent_of_slot (slot_of_received hinv.history .stderr herr)⟩
  · rw [hpc]
    exact nofun

/-- One byte on one stream, nothing on the other, which is at its end first. -/
def swappedRun : List JoinAction :=
  [.reader .stdout (.cancelLoaded false), .reader .stdout (.polled 1),
    .reader .stdout (.readOk [104]), .reader .stderr (.cancelLoaded false),
    .reader .stderr (.polled 16), .reader .stderr (.readOk []), .reader .stderr .proceed,
    .reader .stdout (.cancelLoaded false), .reader .stdout (.polled 17),
    .reader .stdout (.readOk []), .main, .reader .stdout .proceed, .main, .main]

/-- The bytes are returned with their streams. -/
theorem joinExecReaders_pairs_swapped :
    ∃ s, run (step 5000) initial swappedRun = some s ∧
      s.main = .returned (.ok ([104], [])) ∧ (s.reader .stdout).sent? = some (.ok (some [104])) ∧
      s.cancel = false := by
  have hrun : run (step 5000) initial swappedRun = some _ := rfl
  obtain ⟨-, -, -, -, -, -, hreturned⟩ := joinExecReaders_pairs hrun
  exact ⟨_, hrun, rfl, ((hreturned _ rfl).2.1 _ _ rfl).1, rfl⟩

end JoinState

end ContainerRs
