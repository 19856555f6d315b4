import ContainerRs.ContainerLog
import ContainerRs.Lib.Runs
import ContainerRs.Line
import ContainerRs.LogWaitStrategy

/-!
# Delivering a Log File to Consumers

On macOS `spawn_log_consumer_task` (async_container.rs) delivers a growing log file to the
registered consumers, line by line: it calls `deliver_line_to_consumers` until that meets an
end of the file with nothing gathered, then looks at the stop flag and the exit code, sleeps
and polls again. The end of the file is only its current end, but `read_line_limited` takes
it for final.

The module models the task and the container's side as interleaved atomic steps. A step of
the task is one `fill_buf` with the iteration of `read_line_limited` on what it returned, or
one of the looks at the end of the file.

## Main results

* `ConsumerTask.outcome_process`, `ConsumerTask.outcome_metEnd`: what one `fill_buf` does to
  the frames delivered and pending.
* `ConsumerInv.of_transition`: what one step of any party preserves.
* `delivery_eq_splitLog_iff`: a task that has drained the file has delivered the frames of
  the complete log exactly if it never met a premature end in the middle of a line.
-/

namespace ContainerRs

/-- The capacity of a `BufReader`, in bytes. -/
def bufferCapacity : ℕ := 8192

/-- A frame for the consumers. -/
inductive LogFrame
  | stdOut (bytes : Bytes)
  | stdErr (bytes : Bytes)
  deriving DecidableEq, Repr

/-- Where the task stands: in front of a `fill_buf`; after a closed read in front of the
stop flag or of the exit code cell; asleep; or done, by its own decision or by a failed
read. -/
inductive TaskPc
  | reading
  | checkStop
  | checkExit
  | sleeping
  | finished
  | failed
  deriving DecidableEq, Repr

/-- The delivery task for `n` consumers: its position in the file, the unconsumed part of
its buffer, the locals of the current `read_line_limited`, and when it first observed the
exit code. It keeps what every consumer accepted and, as history, the consumed bytes. -/
structure ConsumerTask (n : ℕ) where
  pos : ℕ
  buffer : Bytes
  call : LineState
  pc : TaskPc
  exitObservedAt : Option ℕ
  consumed : Bytes
  delivered : Fin n → List LogFrame

/-- The container's log, a clock in milliseconds, and the task. -/
structure ConsumerSystem (n : ℕ) where
  log : ContainerLog
  clock : ℕ
  task : ConsumerTask n

/-- A step of one party; the kernel chooses how many bytes a `pread` delivers. -/
inductive ConsumerAction
  | log (a : LogFileStep)
  | tick (ms : ℕ)
  | fillBuf (n : ℕ)
  | readFailed
  | checkStop
  | checkExit
  | wake
  deriving DecidableEq, Repr

namespace ConsumerTask

variable {n : ℕ}

/-- A task at the start of the file. -/
def new : ConsumerTask n :=
  { pos := 0, buffer := [], call := LineState.start, pc := .reading, exitObservedAt := none,
    consumed := [], delivered := fun _ => [] }

/-- `deliver_line_to_consumers` on the result of a call: every consumer accepts the frame,
and a closed read is left to the task. -/
def deliver (toFrame : Bytes → LogFrame) (t : ConsumerTask n) (result : LineRead) :
    ConsumerTask n :=
  match result with
  | .closed => { t with call := LineState.start, pc := .checkStop }
  | .line bytes | .final bytes | .truncated bytes =>
      { t with
        call := LineState.start
        delivered := fun i => t.delivered i ++ [toFrame bytes] }

/-- One iteration of `read_line_limited` on the nonempty buffer. -/
def process (limit : ℕ) (toFrame : Bytes → LogFrame) (t : ConsumerTask n) : ConsumerTask n :=
  let step := t.call.readLineStep limit t.buffer
  let t : ConsumerTask n := { t with
    buffer := t.buffer.drop step.1
    consumed := t.consumed ++ t.buffer.take step.1 }
  match step.2 with
  | .inl result => t.deliver toFrame result
  | .inr call => { t with call }

/-- Refill the empty buffer. -/
def refill (t : ConsumerTask n) (log : ContainerLog) (count : ℕ) : ConsumerTask n :=
  { t with
    pos := t.pos + count
    buffer := (log.readAt t.pos bufferCapacity).take count }

/-- `fill_buf` and the iteration on what it returned. -/
def fillBuf (limit : ℕ) (toFrame : Bytes → LogFrame) (t : ConsumerTask n) (log : ContainerLog)
    (count : ℕ) : Option (ConsumerTask n) :=
  match t.pc with
  | .reading =>
      if t.buffer ≠ [] then some (t.process limit toFrame)
      else if log.Delivers t.pos bufferCapacity count then
        if count = 0 then some (t.deliver toFrame t.call.endOfFile)
        else some ((t.refill log count).process limit toFrame)
      else none
  | _ => none

/-- The look at the exit code: the grace period runs from the first time it was there. -/
def checkExit (t : ConsumerTask n) (log : ContainerLog) (clock : ℕ) : ConsumerTask n :=
  if log.waitState.exitCode.isSome then
    let anchor := t.exitObservedAt.getD clock
    if drainGrace ≤ clock - anchor then
      { t with exitObservedAt := some anchor, pc := .finished }
    else { t with exitObservedAt := some anchor, pc := .sleeping }
  else { t with pc := .sleeping }

end ConsumerTask

namespace ConsumerSystem

variable {n : ℕ}

/-- A running container that has not written yet, and a fresh task. -/
def start (n : ℕ) : ConsumerSystem n :=
  { log := ContainerLog.new, clock := 0, task := ConsumerTask.new }

/-- One step of the system. -/
def step (limit : ℕ) (toFrame : Bytes → LogFrame) (s : ConsumerSystem n) :
    ConsumerAction → Option (ConsumerSystem n)
  | .log a => (s.log.step a).map fun log => { s with log }
  | .tick ms => some { s with clock := s.clock + ms }
  | .fillBuf count =>
      (s.task.fillBuf limit toFrame s.log count).map fun task => { s with task }
  | .readFailed =>
      match s.task.pc with
      | .reading =>
          if s.task.buffer = [] then some { s with task := { s.task with pc := .failed } }
          else none
      | _ => none
  | .checkStop =>
      match s.task.pc with
      | .checkStop =>
          let pc := if s.log.stop then .finished else .checkExit
          some { s with task := { s.task with pc } }
      | _ => none
  | .checkExit =>
      match s.task.pc with
      | .checkExit => some { s with task := s.task.checkExit s.log s.clock }
      | _ => none
  | .wake =>
      match s.task.pc with
      | .sleeping => some { s with task := { s.task with pc := .reading } }
      | _ => none

end ConsumerSystem

/-! ### What one step does -/

/-- The transitions of the system. -/
inductive ConsumerSystem.Transition {n : ℕ} (limit : ℕ) (toFrame : Bytes → LogFrame)
    (s : ConsumerSystem n) : ConsumerAction → ConsumerSystem n → Prop
  | logged {a : LogFileStep} {log : ContainerLog} : s.log.Transition a log →
      Transition limit toFrame s (.log a) { s with log }
  | ticked (ms : ℕ) : Transition limit toFrame s (.tick ms) { s with clock := s.clock + ms }
  | buffered (count : ℕ) : s.task.pc = .reading → s.task.buffer ≠ [] →
      Transition limit toFrame s (.fillBuf count) { s with task := s.task.process limit toFrame }
  | refilled {count : ℕ} : s.task.pc = .reading → s.task.buffer = [] → 0 < count →
      count ≤ (s.log.readAt s.task.pos bufferCapacity).length →
      Transition limit toFrame s (.fillBuf count)
        { s with task := (s.task.refill s.log count).process limit toFrame }
  | metEnd : s.task.pc = .reading → s.task.buffer = [] → s.log.file.length ≤ s.task.pos →
      Transition limit toFrame s (.fillBuf 0)
        { s with task := s.task.deliver toFrame s.task.call.endOfFile }
  | readFailed : Transition limit toFrame s .readFailed
      { s with task := { s.task with pc := .failed } }
  | sawStop : s.task.pc = .checkStop → s.log.stop = true →
      Transition limit toFrame s .checkStop { s with task := { s.task with pc := .finished } }
  | notStopped : s.task.pc = .checkStop →
      Transition limit toFrame s .checkStop { s with task := { s.task with pc := .checkExit } }
  | graceOver {anchor : ℕ} : s.task.pc = .checkExit → s.task.exitObservedAt = some anchor →
      s.log.waitState.exitCode.isSome →
      Transition limit toFrame s .checkExit { s with task := { s.task with pc := .finished } }
  | inGrace (anchor : ℕ) : s.task.pc = .checkExit → s.log.waitState.exitCode.isSome →
      Transition limit toFrame s .checkExit
        { s with task := { s.task with exitObservedAt := some anchor, pc := .sleeping } }
  | notExited : s.task.pc = .checkExit →
      Transition limit toFrame s .checkExit { s with task := { s.task with pc := .sleeping } }
  | woken : s.task.pc = .sleeping →
      Transition limit toFrame s .wake { s with task := { s.task with pc := .reading } }

namespace ConsumerSystem

variable {n limit : ℕ} {toFrame : Bytes → LogFrame}

/-- **What a read of the file does**: it fills the buffer, finds the end, or is no step of
the task. -/
theorem transition_of_fillBuf {s : ConsumerSystem n} {count : ℕ} {task : ConsumerTask n}
    (h : s.task.fillBuf limit toFrame s.log count = some task) :
    s.Transition limit toFrame (.fillBuf count) { s with task } := by
  rw [ConsumerTask.fillBuf] at h
  split at h
  · next hpc =>
      split at h
      · next hbuf =>
          obtain rfl := Option.some.inj h
          exact .buffered count hpc hbuf
      · next hbuf =>
          rw [not_not] at hbuf
          split at h
          · next hd =>
              split at h <;> obtain rfl := Option.some.inj h
              · next hzero =>
                  subst hzero
                  exact .metEnd hpc hbuf
                    (ContainerLog.length_le_of_readAt_eq_nil (by decide) (hd.2 rfl))
              · next hpos => exact .refilled hpc hbuf (Nat.pos_of_ne_zero hpos) hd.1
          · exact absurd h (by simp)
  · exact absurd h (by simp)

/-- The grace period has some length, so it is over only for an exit code observed before.
The check ends with the grace period over, with more of it to come, or without an exit
code. -/
theorem transition_of_checkExit {s : ConsumerSystem n} (hpc : s.task.pc = .checkExit) :
    s.Transition limit toFrame .checkExit { s with task := s.task.checkExit s.log s.clock } := by
  rw [ConsumerTask.checkExit]
  split
  · next hexit =>
      dsimp only
      split
      · next hover =>
          cases hanchor : s.task.exitObservedAt with
          | none =>
              rw [hanchor, Option.getD_none, Nat.sub_self] at hover
              exact absurd hover (by decide)
          | some anchor =>
              have htask : { s.task with
                  exitObservedAt := some ((some anchor).getD s.clock), pc := .finished } =
                  { s.task with pc := TaskPc.finished } := by
                rw [Option.getD_some, ← hanchor]
              rw [htask]
              exact .graceOver hpc hanchor hexit
      · exact .inGrace _ hpc hexit
  · exact .notExited hpc

/-- **What one step of the system does**: it is one of the transitions, with the guards of
the step. -/
theorem transition_of_step {s s' : ConsumerSystem n} {a : ConsumerAction}
    (h : s.step limit toFrame a = some s') : s.Transition limit toFrame a s' := by
  cases a with
  | log a =>
      obtain ⟨log, hlog, rfl⟩ := Option.map_eq_some_iff.mp h
      exact .logged (ContainerLog.transition_of_step hlog)
  | tick ms =>
      obtain rfl := Option.some.inj h
      exact .ticked ms
  | fillBuf count =>
      obtain ⟨task, htask, rfl⟩ := Option.map_eq_some_iff.mp h
      exact transition_of_fillBuf htask
  | readFailed =>
      rw [step] at h
      split at h
      · split at h
        · obtain rfl := Option.some.inj h
          exact .readFailed
        · exact absurd h (by simp)
      · exact absurd h (by simp)
  | checkStop =>
      rw [step] at h
      split at h
      · next hpc =>
          obtain rfl := Option.some.inj h
          cases hstop : s.log.stop with
          | true => exact .sawStop hpc hstop
          | false => exact .notStopped hpc
      · exact absurd h (by simp)
  | checkExit =>
      rw [step] at h
      split at h
      · next hpc =>
          obtain rfl := Option.some.inj h
          exact transition_of_checkExit hpc
      · exact absurd h (by simp)
  | wake =>
      rw [step] at h
      split at h
      · next hpc =>
          obtain rfl := Option.some.inj h
          exact .woken hpc
      · exact absurd h (by simp)

end ConsumerSystem

/-! ### Delivered and pending frames -/

/-- Nothing is read yet, or the last byte read was a newline. -/
def AtLineStart (bytes : Bytes) : Prop := bytes = [] ∨ bytes.getLast? = some newline

instance (bytes : Bytes) : Decidable (AtLineStart bytes) := inferInstanceAs (Decidable (_ ∨ _))

/-- Bytes that end in a newline lead to the start of a line, whatever is in front of
them. -/
theorem atLineStart_append {bytes : Bytes} (more : Bytes)
    (h : bytes.getLast? = some newline) : AtLineStart (more ++ bytes) := by
  refine .inr ?_
  rw [List.getLast?_append, h, Option.some_or]

/-- Bytes without a newline, of which there are some, do not lead to the start of a
line. -/
theorem not_atLineStart_append {bytes : Bytes} (more : Bytes) (hne : bytes ≠ [])
    (h : newline ∉ bytes) : ¬ AtLineStart (more ++ bytes) := by
  rintro (hnil | hlast)
  · exact hne (List.append_eq_nil_iff.mp hnil).2
  · rw [List.getLast?_append, List.getLast?_eq_some_getLast hne, Option.some_or,
      Option.some.injEq] at hlast
    exact h (hlast ▸ List.getLast_mem hne)

namespace ConsumerTask

variable {n limit : ℕ} {toFrame : Bytes → LogFrame}

/-- What consumer `i` has accepted once the task has gone through the complete log. -/
def outcome (limit : ℕ) (toFrame : Bytes → LogFrame) (t : ConsumerTask n) (log : Bytes)
    (i : Fin n) : List LogFrame :=
  t.delivered i ++ (t.call.pending limit (t.buffer ++ log.drop t.pos)).map toFrame

/-- A delivery starts the next call and gives the frame, if there is one, to every
consumer. -/
theorem deliver_eq (t : ConsumerTask n) (result : LineRead) :
    t.deliver toFrame result = { t with
      call := LineState.start
      pc := if result = .closed then .checkStop else t.pc
      delivered := fun i => t.delivered i ++ result.frames.map toFrame } := by
  cases result <;> simp [deliver, LineRead.frames]

/-- What an iteration does to the task, in terms of the iteration's result. -/
theorem process_eq {t : ConsumerTask n} (hbuf : t.buffer ≠ []) :
    t.process limit toFrame = { t with
      buffer := t.buffer.drop (t.call.readLineStep limit t.buffer).1
      consumed := t.consumed ++ t.buffer.take (t.call.readLineStep limit t.buffer).1
      call := (LineState.outcome (t.call.readLineStep limit t.buffer).2).2
      delivered := fun i => t.delivered i ++
        (LineState.outcome (t.call.readLineStep limit t.buffer).2).1.map toFrame } := by
  have hconsumes := LineState.readLineStep_consumes limit t.call hbuf
  rw [process]
  cases hstep : (t.call.readLineStep limit t.buffer).2 with
  | inl result =>
      rw [hstep] at hconsumes
      simp only [deliver_eq, LineState.outcome, if_neg hconsumes.1]
  | inr call => simp only [LineState.outcome, List.map_nil, List.append_nil]

/-- An iteration changes nothing of the frames delivered and pending together. -/
theorem outcome_process {t : ConsumerTask n} (hbuf : t.buffer ≠ [])
    (h : t.call.WellFormed limit) (log : Bytes) (i : Fin n) :
    (t.process limit toFrame).outcome limit toFrame log i = t.outcome limit toFrame log i := by
  obtain ⟨-, hpending⟩ := LineState.pending_step h t.buffer (log.drop t.pos)
  rw [process_eq hbuf]
  simp only [outcome]
  rw [← hpending, List.map_append, List.append_assoc]

/-- Refilling moves bytes from the file to the buffer. The bytes taken are the next ones
of the file, so the pending frames are the same. -/
theorem outcome_refill {t : ConsumerTask n} {log : ContainerLog} {count : ℕ}
    (hbuf : t.buffer = []) (hpos : t.pos ≤ log.file.length)
    (hcount : count ≤ (log.readAt t.pos bufferCapacity).length) {bytes : Bytes}
    (hlog : log.file <+: bytes) (i : Fin n) :
    (t.refill log count).outcome limit toFrame bytes i = t.outcome limit toFrame bytes i := by
  obtain ⟨more, rfl⟩ := hlog
  rw [ContainerLog.readAt, List.length_take, List.length_drop] at hcount
  have htake : (log.readAt t.pos bufferCapacity).take count = (log.file.drop t.pos).take count := by
    rw [ContainerLog.readAt, List.take_take, Nat.min_eq_left (by omega)]
  have hfirst : (log.file.drop t.pos).take count = ((log.file ++ more).drop t.pos).take count := by
    rw [List.drop_append_of_le_length hpos,
      List.take_append_of_le_length (by rw [List.length_drop]; omega)]
  have hbytes : (log.file.drop t.pos).take count ++ (log.file ++ more).drop (t.pos + count) =
      (log.file ++ more).drop t.pos := by
    rw [hfirst, ← List.drop_drop, List.take_append_drop]
  simp only [outcome, refill, hbuf, htake, hbytes, List.nil_append]

end ConsumerTask

/-- What links the task to the file, of which `bytes` is the complete content in the end. A call in
the middle of a line has consumed a part of it, or has one to discard. -/
structure ConsumerInv {n : ℕ} (limit : ℕ) (bytes : Bytes) (s : ConsumerSystem n) : Prop where
  log : s.log.StreamOk
  pos_le : s.task.pos ≤ s.log.file.length
  consumed_eq : s.task.consumed ++ s.task.buffer = s.log.file.take s.task.pos
  call : s.task.call.WellFormed limit
  midLine : s.task.call.MidLine → ¬ AtLineStart s.task.consumed ∨
    s.task.call.truncated.isSome ∧ s.task.buffer ≠ [] ∧ newline ∉ s.task.buffer
  waiting : s.task.pc ≠ .reading → s.task.pc ≠ .failed →
    s.task.call = LineState.start ∧ s.task.buffer = []
  anchored : s.task.exitObservedAt.isSome → s.log.waitState.exitCode.isSome
  drained : s.task.pc = .checkStop ∨ s.task.pc = .checkExit → s.task.exitObservedAt.isSome →
    s.task.pos = s.log.file.length
  stopped : s.log.stop = true → s.task.pos = bytes.length
  finished : s.task.pc = .finished → s.task.pos = bytes.length ∨
    s.task.pos = s.log.file.length ∧ s.log.waitState.exitCode.isSome

namespace ConsumerTask

variable {n limit : ℕ} {toFrame : Bytes → LogFrame}

/-- An iteration consumes from the buffer and touches neither the position nor the task's
place. -/
theorem process_frame (limit : ℕ) (toFrame : Bytes → LogFrame) {t : ConsumerTask n}
    (hbuf : t.buffer ≠ []) :
    (t.process limit toFrame).pos = t.pos ∧ (t.process limit toFrame).pc = t.pc ∧
      (t.process limit toFrame).exitObservedAt = t.exitObservedAt ∧
      (t.process limit toFrame).consumed ++ (t.process limit toFrame).buffer =
        t.consumed ++ t.buffer := by
  rw [process_eq hbuf]
  refine ⟨rfl, rfl, rfl, ?_⟩
  rw [List.append_assoc, List.take_append_drop]

/-- Where an iteration leaves its call: at the start of a line, or in the middle of one. A
call that returns has taken its newline; one that goes on has taken the whole buffer, or
has cut off the head of a line that is too long. -/
theorem process_midLine (limit : ℕ) (toFrame : Bytes → LogFrame) {t : ConsumerTask n}
    (hbuf : t.buffer ≠ []) :
    ((t.process limit toFrame).call = LineState.start ∧
        AtLineStart (t.process limit toFrame).consumed) ∨
      (t.process limit toFrame).call.MidLine ∧
        (¬ AtLineStart (t.process limit toFrame).consumed ∨
          (t.process limit toFrame).call.truncated.isSome ∧
            (t.process limit toFrame).buffer ≠ [] ∧
            newline ∉ (t.process limit toFrame).buffer) := by
  have hconsumes := LineState.readLineStep_consumes limit t.call hbuf
  rw [process_eq hbuf]
  simp only
  cases hstep : (t.call.readLineStep limit t.buffer).2 with
  | inl result =>
      rw [hstep] at hconsumes
      exact .inl ⟨rfl, atLineStart_append _ hconsumes.2⟩
  | inr call =>
      rw [hstep] at hconsumes
      obtain ⟨hmid, hno, hrest⟩ := hconsumes
      refine .inr ⟨hmid, ?_⟩
      rcases hrest with hall | ⟨hsome, hne⟩
      · rw [hall]
        exact .inl (not_atLineStart_append _ hbuf hno)
      · exact .inr ⟨hsome, hne, fun hmem => hno (List.mem_of_mem_drop hmem)⟩

/-- A refilled buffer is not empty, and continues the file. -/
theorem refill_frame {t : ConsumerTask n} {log : ContainerLog} {count : ℕ}
    (hpos : t.pos ≤ log.file.length) (hcount : 0 < count)
    (hle : count ≤ (log.readAt t.pos bufferCapacity).length) :
    (t.refill log count).buffer ≠ [] ∧ (t.refill log count).pos ≤ log.file.length ∧
      log.file.take t.pos ++ (t.refill log count).buffer =
        log.file.take (t.refill log count).pos := by
  obtain ⟨hpos', htake⟩ := ContainerLog.take_append_readAt hpos hle
  refine ⟨?_, hpos', htake⟩
  intro hnil
  have hlen := congrArg List.length hnil
  rw [refill, List.length_take, List.length_nil] at hlen
  omega

end ConsumerTask

section

variable {n limit : ℕ} {toFrame : Bytes → LogFrame} {bytes : Bytes}

/-- In the beginning nothing is written and nothing is read. -/
theorem consumerInv_start (limit : ℕ) (bytes : Bytes) :
    ConsumerInv limit bytes (ConsumerSystem.start n) where
  log := fun h => absurd h (by simp [ConsumerSystem.start, ContainerLog.new, WaitState.new])
  pos_le := Nat.zero_le _
  consumed_eq := rfl
  call := LineState.wellFormed_start limit
  midLine := fun h => absurd h (by
    simp [ConsumerSystem.start, ConsumerTask.new, LineState.start, LineState.MidLine])
  waiting := fun h => absurd rfl h
  anchored := fun h => absurd h (by simp [ConsumerSystem.start, ConsumerTask.new])
  drained := fun h => absurd h (by simp [ConsumerSystem.start, ConsumerTask.new])
  stopped := fun h => absurd h (by simp [ConsumerSystem.start, ContainerLog.new])
  finished := fun h => absurd h (by simp [ConsumerSystem.start, ConsumerTask.new])

/-- The invariant after an iteration on a nonempty buffer that continues the file. Each
part of the invariant is kept by itself; that on the middle of a line is the lemma on
iterations. -/
theorem ConsumerInv.of_process {s : ConsumerSystem n} {task : ConsumerTask n}
    (h : ConsumerInv limit bytes s) (hpc : task.pc = .reading) (hbuf : task.buffer ≠ [])
    (hpos : task.pos ≤ s.log.file.length)
    (hconsumed : task.consumed ++ task.buffer = s.log.file.take task.pos)
    (hcall : task.call.WellFormed limit)
    (hanchor : task.exitObservedAt.isSome → s.log.waitState.exitCode.isSome)
    (hstop : s.log.stop = true → task.pos = bytes.length) :
    ConsumerInv limit bytes { s with task := task.process limit toFrame } := by
  obtain ⟨hpos', hpc', hanchor', hconsumed'⟩ :=
    ConsumerTask.process_frame limit toFrame hbuf
  have hreading : (task.process limit toFrame).pc = .reading := hpc'.trans hpc
  refine ⟨h.log, ?_, ?_, ?_, ?_, fun hne => absurd hreading hne, ?_, ?_, ?_, ?_⟩
  · exact hpos'.le.trans hpos
  · rw [hconsumed', hconsumed, hpos']
  · rw [ConsumerTask.process_eq hbuf]
    exact (LineState.pending_step hcall task.buffer []).1
  · intro hmid
    rcases ConsumerTask.process_midLine limit toFrame hbuf with
      ⟨hstart, -⟩ | ⟨-, hcases⟩
    · simp only [hstart] at hmid
      exact absurd hmid (by simp [LineState.MidLine, LineState.start])
    · exact hcases
  · rw [hanchor']
    exact hanchor
  · intro hwait _
    rw [hreading] at hwait
    exact absurd hwait (by simp)
  · rw [hpos']
    exact hstop
  · intro hfin
    exact absurd (hreading.symm.trans hfin) (by simp)

/-- **The step lemma**: every step keeps the invariant, when what is written is a part of
the complete log and the stop flag is set only after all of that has been read. -/
theorem ConsumerInv.of_transition {s s' : ConsumerSystem n} {a : ConsumerAction}
    (h : ConsumerInv limit bytes s) (hpart : s.log.file <+: bytes)
    (hstop : a = .log .setStop → s.task.pos = bytes.length)
    (htr : s.Transition limit toFrame a s') : ConsumerInv limit bytes s' := by
  cases htr with
  | @logged a log htr =>
      obtain ⟨⟨more, hfile⟩, hexit, hstopped⟩ := htr.extends
      have hkeep : s.log.waitState.exitCode.isSome → log.file = s.log.file :=
        h.log.file_of_exited htr
      refine ⟨h.log.of_transition htr, ?_, ?_, h.call, h.midLine, h.waiting,
        fun hanchor => hexit (h.anchored hanchor), ?_, ?_, ?_⟩
      · rw [hfile, List.length_append]
        exact h.pos_le.trans (Nat.le_add_right _ _)
      · rw [hfile, List.take_append_of_le_length h.pos_le]
        exact h.consumed_eq
      · intro hpc hanchor
        simp only [hkeep (h.anchored hanchor)]
        exact h.drained hpc hanchor
      · intro hset
        cases htr with
        | appended | exited | recorded => exact h.stopped hset
        | stopped => exact hstop rfl
      · intro hfin
        rcases h.finished hfin with hall | ⟨hall, hexited⟩
        · exact .inl hall
        · refine .inr ⟨?_, hexit hexited⟩
          simp only [hkeep hexited]
          exact hall
  | ticked =>
      exact ⟨h.log, h.pos_le, h.consumed_eq, h.call, h.midLine, h.waiting, h.anchored, h.drained,
        h.stopped, h.finished⟩
  | buffered count hpc hbuf =>
      exact h.of_process hpc hbuf h.pos_le h.consumed_eq h.call h.anchored h.stopped
  | @refilled count hpc hbuf hcount hle =>
      obtain ⟨hne, hpos, htake⟩ := ConsumerTask.refill_frame h.pos_le hcount hle
      refine h.of_process hpc hne hpos ?_ h.call h.anchored ?_
      · have hconsumed := h.consumed_eq
        rw [hbuf, List.append_nil] at hconsumed
        rw [← htake, ← hconsumed]
        rfl
      · intro hset
        have hall := h.stopped hset
        have hlen := hpart.length_le
        simp only [ConsumerTask.refill] at hpos ⊢
        omega
  | metEnd hpc hbuf hend =>
      rw [ConsumerTask.deliver_eq]
      refine ⟨h.log, h.pos_le, h.consumed_eq, LineState.wellFormed_start limit, ?_,
        fun _ _ => ⟨rfl, hbuf⟩, h.anchored, fun _ _ => h.pos_le.antisymm hend, h.stopped, ?_⟩
      · intro hmid
        exact absurd hmid (by simp [LineState.MidLine, LineState.start])
      · intro hfin
        simp only [hpc] at hfin
        split at hfin
        · exact absurd hfin (by simp)
        · exact absurd hfin (by simp)
  | readFailed =>
      exact ⟨h.log, h.pos_le, h.consumed_eq, h.call, h.midLine, fun _ hne => absurd rfl hne,
        h.anchored, fun hpc => absurd hpc (by simp), h.stopped, fun hpc => absurd hpc (by simp)⟩
  | sawStop hpc hset =>
      have hidle := h.waiting (by simp [hpc]) (by simp [hpc])
      exact ⟨h.log, h.pos_le, h.consumed_eq, h.call, h.midLine, fun _ _ => hidle, h.anchored,
        fun hpc' => absurd hpc' (by simp), h.stopped, fun _ => .inl (h.stopped hset)⟩
  | notStopped hpc =>
      have hidle := h.waiting (by simp [hpc]) (by simp [hpc])
      exact ⟨h.log, h.pos_le, h.consumed_eq, h.call, h.midLine, fun _ _ => hidle, h.anchored,
        fun _ => h.drained (.inl hpc), h.stopped, fun hpc' => absurd hpc' (by simp)⟩
  | @graceOver anchor hpc hanchor hexit =>
      have hidle := h.waiting (by simp [hpc]) (by simp [hpc])
      have hall := h.drained (.inr hpc) (by simp [hanchor])
      exact ⟨h.log, h.pos_le, h.consumed_eq, h.call, h.midLine, fun _ _ => hidle, h.anchored,
        fun hpc' => absurd hpc' (by simp), h.stopped, fun _ => .inr ⟨hall, hexit⟩⟩
  | inGrace anchor hpc hexit =>
      have hidle := h.waiting (by simp [hpc]) (by simp [hpc])
      exact ⟨h.log, h.pos_le, h.consumed_eq, h.call, h.midLine, fun _ _ => hidle, fun _ => hexit,
        fun hpc' => absurd hpc' (by simp), h.stopped, fun hpc' => absurd hpc' (by simp)⟩
  | notExited hpc =>
      have hidle := h.waiting (by simp [hpc]) (by simp [hpc])
      exact ⟨h.log, h.pos_le, h.consumed_eq, h.call, h.midLine, fun _ _ => hidle, h.anchored,
        fun hpc' => absurd hpc' (by simp), h.stopped, fun hpc' => absurd hpc' (by simp)⟩
  | woken hpc =>
      exact ⟨h.log, h.pos_le, h.consumed_eq, h.call, h.midLine, fun hne => absurd rfl hne,
        h.anchored, fun hpc' => absurd hpc' (by simp), h.stopped,
        fun hpc' => absurd hpc' (by simp)⟩

end

/-! ### Whole runs -/

namespace ConsumerSystem

variable {n limit : ℕ} {toFrame : Bytes → LogFrame} {bytes : Bytes}

/-- As long as a part of the log is unread, a call that starts does so at the start of a
line. -/
def CutsAtLines (bytes : Bytes) (s : ConsumerSystem n) : Prop :=
  bytes.drop s.task.pos = [] ∨
    (s.task.call = LineState.start → AtLineStart s.task.consumed)

/-- If the step meets the current end of the file, the complete log is written, or what is
written is empty or ends in a newline. -/
def EndsAtLine (bytes : Bytes) (s : ConsumerSystem n) : ConsumerAction → Prop
  | .fillBuf count => s.task.buffer = [] → count = 0 →
      s.log.file = bytes ∨ AtLineStart s.log.file
  | _ => True

instance (s : ConsumerSystem n) : (a : ConsumerAction) → Decidable (s.EndsAtLine bytes a)
  | .fillBuf _ => inferInstanceAs (Decidable (_ → _ → _))
  | .log _ | .tick _ | .readFailed | .checkStop | .checkExit | .wake => isTrue trivial

/-- The stop flag is set only after the complete log has been read from the file. -/
def StopsAfterRead (bytes : Bytes) (s : ConsumerSystem n) (a : ConsumerAction) : Prop :=
  a = .log .setStop → s.task.pos = bytes.length

instance (s : ConsumerSystem n) (a : ConsumerAction) : Decidable (s.StopsAfterRead bytes a) :=
  inferInstanceAs (Decidable (_ → _))

/-- The task has finished, or is past a closed read of the whole file. -/
def Drained (s : ConsumerSystem n) : Prop :=
  s.task.pc = .finished ∨
    s.task.pc ≠ .reading ∧ s.task.pc ≠ .failed ∧ s.task.pos = s.log.file.length

/-- The end of the file, met by a call. If the end is final, the call delivers what is pending; if
it cuts a line whose rest is still to come, the call makes a frame too many; and where nothing has
been gathered, it delivers nothing. -/
theorem outcome_metEnd {s : ConsumerSystem n} (h : ConsumerInv limit bytes s)
    (hpart : s.log.file <+: bytes) (hbuf : s.task.buffer = [])
    (hend : s.log.file.length ≤ s.task.pos) (i : Fin n) :
    let s' : ConsumerSystem n :=
      { s with task := s.task.deliver toFrame s.task.call.endOfFile }
    (s'.task.outcome limit toFrame bytes i = s.task.outcome limit toFrame bytes i ∧
        (s.CutsAtLines bytes → s'.CutsAtLines bytes ∧ s.EndsAtLine bytes (.fillBuf 0))) ∨
      (s.task.outcome limit toFrame bytes i).length <
          (s'.task.outcome limit toFrame bytes i).length ∧
        ¬ s.EndsAtLine bytes (.fillBuf 0) := by
  have hpos : s.task.pos = s.log.file.length := h.pos_le.antisymm hend
  have hconsumed : s.task.consumed = s.log.file := by
    have heq := h.consumed_eq
    rwa [hbuf, List.append_nil, hpos, List.take_length] at heq
  intro s'
  simp only [s', ConsumerTask.deliver_eq, ConsumerTask.outcome, hbuf, List.nil_append,
    LineState.pending_start]
  by_cases hrest : bytes.drop s.task.pos = []
  · have hall : s.log.file = bytes := by
      refine hpart.eq_of_length_le ?_
      rw [← hpos]
      exact List.drop_eq_nil_iff.mp hrest
    refine .inl ⟨?_, fun _ => ⟨.inl hrest, fun _ _ => .inl hall⟩⟩
    rw [hrest, ← LineState.pending_endOfFile h.call, splitLog_nil, List.map_nil,
      List.append_nil]
  · by_cases hmid : s.task.call.MidLine
    · refine .inr ⟨?_, ?_⟩
      · have hlen := LineState.length_pending_endOfFile h.call hmid hrest
        simp only [List.length_append, List.length_map] at hlen ⊢
        omega
      · intro hends
        have hnot : ¬ AtLineStart s.log.file := by
          rw [← hconsumed]
          exact (h.midLine hmid).resolve_right fun hdis => hdis.2.1 hbuf
        rcases hends hbuf rfl with hall | hline
        · exact hrest (by rw [hpos, hall, List.drop_length])
        · exact hnot hline
    · have hstart := LineState.eq_start_of_not_midLine hmid
      refine .inl ⟨?_, ?_⟩
      · rw [hstart, LineState.pending_start]
        simp [LineState.endOfFile, LineState.start, LineRead.frames]
      · intro hcuts
        have hline := (hcuts.resolve_left hrest) hstart
        exact ⟨.inr fun _ => hline, fun _ _ => .inr (hconsumed ▸ hline)⟩

/-- **The step dichotomy**: a step keeps the frames delivered and pending together, or it
meets a premature end in the middle of a line and makes one frame too many. -/
theorem outcome_transition {s s' : ConsumerSystem n} {a : ConsumerAction}
    (h : ConsumerInv limit bytes s) (hpart : s.log.file <+: bytes)
    (htr : s.Transition limit toFrame a s') (i : Fin n) :
    (s'.task.outcome limit toFrame bytes i = s.task.outcome limit toFrame bytes i ∧
        (s.CutsAtLines bytes → s'.CutsAtLines bytes ∧ s.EndsAtLine bytes a)) ∨
      (s.task.outcome limit toFrame bytes i).length <
          (s'.task.outcome limit toFrame bytes i).length ∧ ¬ s.EndsAtLine bytes a := by
  have hprocess : ∀ {task : ConsumerTask n}, task.buffer ≠ [] →
      ({ s with task := task.process limit toFrame } : ConsumerSystem n).CutsAtLines bytes := by
    intro task hbuf
    refine .inr ?_
    intro hstart
    rcases ConsumerTask.process_midLine limit toFrame hbuf with
      ⟨-, hline⟩ | ⟨hmid, -⟩
    · exact hline
    · simp only at hstart
      rw [hstart] at hmid
      exact absurd hmid (by simp [LineState.MidLine, LineState.start])
  cases htr with
  | logged | ticked | readFailed | sawStop | notStopped | graceOver | inGrace | notExited | woken =>
      exact .inl ⟨rfl, fun hcuts => ⟨hcuts, trivial⟩⟩
  | buffered count hpc hbuf =>
      exact .inl ⟨ConsumerTask.outcome_process hbuf h.call bytes i,
        fun _ => ⟨hprocess hbuf, fun hnil => absurd hnil hbuf⟩⟩
  | refilled hpc hbuf hcount hle =>
      obtain ⟨hne, -, -⟩ := ConsumerTask.refill_frame h.pos_le hcount hle
      refine .inl ⟨?_, fun _ => ⟨hprocess hne, fun _ hzero => absurd hzero hcount.ne'⟩⟩
      exact (ConsumerTask.outcome_process hne h.call bytes i).trans
        (ConsumerTask.outcome_refill hbuf h.pos_le hle hpart i)
  | metEnd hpc hbuf hend => exact outcome_metEnd h hpart hbuf hend i

/-- The file only grows: what is written is always a part of what is written in the end.
No step takes anything back. -/
theorem always_part {s t : ConsumerSystem n} {acts : List ConsumerAction}
    (hrun : Runs.run (step limit toFrame) s acts = some t) :
    Runs.Always (step limit toFrame) s acts fun u => u.log.file <+: t.log.file := by
  refine Runs.always_of_final ?_ hrun List.prefix_rfl
  intro u a u' hs hpart
  cases transition_of_step hs with
  | logged htr =>
      obtain ⟨⟨more, hfile⟩, -, -⟩ := htr.extends
      exact (List.prefix_append _ more).trans (hfile ▸ hpart)
  | ticked | buffered | refilled | metEnd | readFailed | sawStop | notStopped | graceOver | inGrace
  | notExited | woken => exact hpart

/-- A task that has drained the file has nothing pending. -/
theorem outcome_of_drained (toFrame : Bytes → LogFrame) {s : ConsumerSystem n}
    (h : ConsumerInv limit s.log.file s) (hdone : s.Drained) (i : Fin n) :
    s.task.outcome limit toFrame s.log.file i = s.task.delivered i := by
  have hidle : s.task.pc ≠ .reading ∧ s.task.pc ≠ .failed ∧
      s.task.pos = s.log.file.length := by
    rcases hdone with hfin | hdone
    · refine ⟨by simp [hfin], by simp [hfin], ?_⟩
      rcases h.finished hfin with hall | ⟨hall, -⟩ <;> exact hall
    · exact hdone
  obtain ⟨hcall, hbuf⟩ := h.waiting hidle.1 hidle.2.1
  rw [ConsumerTask.outcome, hcall, hbuf, hidle.2.2, List.drop_length, List.append_nil,
    LineState.pending_start, splitLog_nil, List.map_nil, List.append_nil]

/-- **Delivery follows the complete log exactly without premature ends.** In every run at
whose end the task has drained the file, and in which the stop flag is set only after the
complete log has been read, every consumer has accepted the frames of the complete log if
and only if, whenever the task met the end of the file, the log was complete or what was
written was empty or ended in a newline. -/
theorem delivery_eq_splitLog_iff (n limit : ℕ) (toFrame : Bytes → LogFrame)
    (acts : List ConsumerAction) (s : ConsumerSystem n)
    (hrun : Runs.run (step limit toFrame) (start n) acts = some s)
    (hstop : Runs.StepsMeet (step limit toFrame) (start n) acts (StopsAfterRead s.log.file))
    (hdone : s.Drained) (i : Fin n) :
    s.task.delivered i = (splitLog limit s.log.file).map toFrame ↔
      Runs.StepsMeet (step limit toFrame) (start n) acts (EndsAtLine s.log.file) := by
  have hpart := always_part hrun
  have hkeeps : ∀ (u : ConsumerSystem n) (a : ConsumerAction) (u' : ConsumerSystem n),
      u.log.file <+: s.log.file → ConsumerInv limit s.log.file u →
      u.step limit toFrame a = some u' → u.StopsAfterRead s.log.file a →
      ConsumerInv limit s.log.file u' :=
    fun _ _ _ hp h hs hst => h.of_transition hp hst (transition_of_step hs)
  have hconsumer := Runs.always_of_stepsMeet hkeeps hpart
    (consumerInv_start limit s.log.file) hrun hstop
  have hinv : Runs.Always (step limit toFrame) (start n) acts fun u =>
      ConsumerInv limit s.log.file u ∧ u.log.file <+: s.log.file :=
    fun pre post u hsplit hpre =>
      ⟨hconsumer pre post u hsplit hpre, hpart pre post u hsplit hpre⟩
  have hcuts : (start n).CutsAtLines s.log.file := .inr fun _ => .inl rfl
  have hstart : (start n).task.outcome limit toFrame s.log.file i =
      (splitLog limit s.log.file).map toFrame := rfl
  have hend := outcome_of_drained toFrame (hconsumer.final hrun) hdone i
  constructor
  · intro hdelivered
    refine Runs.stepsMeet_of_measure_eq (CutsAtLines s.log.file)
      (fun u => (u.task.outcome limit toFrame s.log.file i).length) ?_ ?_ ?_ hinv hcuts hrun ?_
    · intro u a u' hi hs
      rcases outcome_transition hi.1 hi.2 (transition_of_step hs) i with ⟨heq, -⟩ | ⟨hlt, -⟩
      · exact (congrArg List.length heq).ge
      · exact hlt.le
    · intro u a u' hi hcu hs hng
      rcases outcome_transition hi.1 hi.2 (transition_of_step hs) i with ⟨-, hg⟩ | ⟨hlt, -⟩
      · exact absurd (hg hcu).2 hng
      · exact hlt
    · intro u a u' hi hcu hs hg
      rcases outcome_transition hi.1 hi.2 (transition_of_step hs) i with ⟨-, hg'⟩ | ⟨-, hng⟩
      · exact (hg' hcu).1
      · exact absurd hg hng
    · rw [hend, hdelivered, hstart]
  · intro hmeet
    have hgood : ∀ (u : ConsumerSystem n) (a : ConsumerAction) (u' : ConsumerSystem n),
        ConsumerInv limit s.log.file u ∧ u.log.file <+: s.log.file →
        (u.CutsAtLines s.log.file ∧ u.task.outcome limit toFrame s.log.file i =
          (splitLog limit s.log.file).map toFrame) →
        u.step limit toFrame a = some u' → u.EndsAtLine s.log.file a →
        (u'.CutsAtLines s.log.file ∧ u'.task.outcome limit toFrame s.log.file i =
          (splitLog limit s.log.file).map toFrame) := by
      rintro u a u' hi ⟨hcu, hout⟩ hs hg
      rcases outcome_transition hi.1 hi.2 (transition_of_step hs) i with ⟨heq, hcu'⟩ | ⟨-, hng⟩
      · exact ⟨(hcu' hcu).1, heq.trans hout⟩
      · exact absurd hg hng
    have hfinal := (Runs.always_of_stepsMeet hgood hinv ⟨hcuts, hstart⟩ hrun hmeet).final hrun
    exact hend.symm.trans hfinal.2

/-- The task polls between the two halves of a line, and drains the rest after the exit. -/
def splitLineSchedule : List ConsumerAction :=
  [.log (.append [97]), .fillBuf 1, .fillBuf 0, .fillBuf 0, .checkStop, .checkExit, .wake,
    .log (.append [98, 10]), .log .exit, .log (.recordExit 0 0), .fillBuf 2, .fillBuf 0,
    .log .setStop, .checkStop]

/-- The consumer accepts two frames for the one line of the log. -/
theorem delivery_splits_line :
    ∃ s, Runs.run (step maxLineLength .stdOut) (start 1) splitLineSchedule = some s ∧
      Runs.StepsMeet (step maxLineLength .stdOut) (start 1) splitLineSchedule
        (StopsAfterRead s.log.file) ∧
      s.task.pc = .finished ∧ s.log.file = [97, 98, 10] ∧
      s.task.delivered 0 = [.stdOut [97], .stdOut [98]] ∧
      (splitLog maxLineLength s.log.file).map LogFrame.stdOut = [.stdOut [97, 98]] := by
  obtain ⟨s, hrun⟩ : ∃ s, Runs.run (step maxLineLength .stdOut) (start 1) splitLineSchedule =
    some s := ⟨_, rfl⟩
  obtain rfl := Option.some.inj hrun.symm
  exact ⟨_, hrun, by decide, rfl, rfl, rfl, rfl⟩

/-- The task polls within the log only between its two lines. -/
def wholeLineSchedule : List ConsumerAction :=
  [.log (.append [97, 10]), .fillBuf 2, .fillBuf 0, .checkStop, .checkExit, .wake,
    .log (.append [98]), .log .exit, .log (.recordExit 0 0), .fillBuf 1, .fillBuf 0, .fillBuf 0,
    .checkStop, .checkExit, .wake, .tick 2000, .fillBuf 0, .checkStop, .checkExit]

/-- The schedule of whole lines, drained by the grace period, meets an end of the file only at
the end of a line or of the log, and so the consumer accepts the frames of the log. -/
theorem delivery_eq_splitLog_iff_wholeLines :
    ∃ s : ConsumerSystem 1,
      Runs.run (step maxLineLength .stdOut) (start 1) wholeLineSchedule = some s ∧
      s.task.pc = .finished ∧ s.log.file = [97, 10, 98] ∧
      s.task.delivered 0 = (splitLog maxLineLength s.log.file).map .stdOut ∧
      Runs.StepsMeet (step maxLineLength .stdOut) (start 1) wholeLineSchedule
        (EndsAtLine s.log.file) := by
  obtain ⟨s, hrun⟩ : ∃ s, Runs.run (step maxLineLength .stdOut) (start 1) wholeLineSchedule =
    some s := ⟨_, rfl⟩
  obtain rfl := Option.some.inj hrun.symm
  have hmeets : Runs.StepsMeet (step maxLineLength .stdOut) (start 1) wholeLineSchedule
      (EndsAtLine [97, 10, 98]) := by decide
  have hiff := delivery_eq_splitLog_iff 1 maxLineLength .stdOut wholeLineSchedule _ hrun
    (by decide) (.inl rfl) 0
  exact ⟨_, hrun, rfl, rfl, hiff.mpr hmeets, hmeets⟩

end ConsumerSystem

end ContainerRs
