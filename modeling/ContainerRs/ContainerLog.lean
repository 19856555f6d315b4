import ContainerRs.Lib.Bytes
import ContainerRs.WaitState
import Mathlib.Data.List.TakeDrop

/-!
# The Log File of a Container

On macOS a container's log is a regular file that grows while its process runs. Its readers
use `pread` at positions of their own; whether following may end they learn from the exit
code cell and from a flag that stops log delivery. Here are the file and the container's
side of it: the process appends and exits, a waiter or an on-demand wait records the exit
code, the flag is set.

## Main results

* `ContainerLog.take_append_readAt`: the bytes of a `pread` are the file's next ones.
* `ContainerLog.transition_of_step`: what one step of the container's side does.
* `ContainerLog.StreamOk.file_of_exited`: once an exit code is recorded the file is final.
-/

namespace ContainerRs

/-- A container's log file, whether its init process still runs, the exit code cell and the
flag that stops log delivery. -/
structure ContainerLog where
  file : Bytes
  running : Bool
  waitState : WaitState
  stop : Bool
  deriving DecidableEq, Repr

/-- The steps of the container's side: the process appends and exits, a waiter or an
on-demand wait records the exit code, and log delivery is stopped. -/
inductive LogFileStep
  | append (bytes : Bytes)
  | exit
  | recordExit (generation : UInt64) (code : Int)
  | setStop
  deriving DecidableEq, Repr

namespace ContainerLog

/-- A running container that has not written yet. -/
def new : ContainerLog :=
  { file := [], running := true, waitState := WaitState.new, stop := false }

/-- One step of the container's side. A wait for the exit code returns only after the
exit. -/
def step (log : ContainerLog) : LogFileStep → Option ContainerLog
  | .append bytes => if log.running then some { log with file := log.file ++ bytes } else none
  | .exit => if log.running then some { log with running := false } else none
  | .recordExit generation code =>
      if log.running then none
      else some { log with waitState := (log.waitState.storeIfCurrent generation code).1 }
  | .setStop => some { log with stop := true }

/-- The file's bytes from a position on, at most as many as the destination holds. -/
def readAt (log : ContainerLog) (pos dst : ℕ) : Bytes := (log.file.drop pos).take dst

/-- A `pread` may be short, but it is empty only where the file ends. -/
def Delivers (log : ContainerLog) (pos dst n : ℕ) : Prop :=
  n ≤ (log.readAt pos dst).length ∧ (n = 0 → log.readAt pos dst = [])

instance (log : ContainerLog) (pos dst n : ℕ) : Decidable (log.Delivers pos dst n) :=
  inferInstanceAs (Decidable (_ ∧ _))

end ContainerLog

/-! ### Reading from a position -/

namespace ContainerLog

/-- The bytes that a `pread` delivers continue those in front of its position. -/
theorem take_append_readAt {log : ContainerLog} {pos dst n : ℕ} (hpos : pos ≤ log.file.length)
    (hn : n ≤ (log.readAt pos dst).length) :
    pos + n ≤ log.file.length ∧
      log.file.take pos ++ (log.readAt pos dst).take n = log.file.take (pos + n) := by
  have hlen : n ≤ dst ∧ n ≤ log.file.length - pos := by
    rw [readAt, List.length_take, List.length_drop] at hn
    omega
  refine ⟨by omega, ?_⟩
  rw [readAt, List.take_take, Nat.min_eq_left hlen.1, List.take_add]

/-- An empty `pread` into a nonempty destination stands at the end of the file. -/
theorem length_le_of_readAt_eq_nil {log : ContainerLog} {pos dst : ℕ} (hdst : 0 < dst)
    (hnil : log.readAt pos dst = []) : log.file.length ≤ pos := by
  have hlen := congrArg List.length hnil
  rw [readAt, List.length_take, List.length_drop, List.length_nil] at hlen
  omega

end ContainerLog

/-! ### What one step does -/

/-- The transitions of the container's side. -/
inductive ContainerLog.Transition (log : ContainerLog) : LogFileStep → ContainerLog → Prop
  | appended (bytes : Bytes) : log.running = true →
      Transition log (.append bytes) { log with file := log.file ++ bytes }
  | exited : log.running = true → Transition log .exit { log with running := false }
  | recorded (generation : UInt64) (code : Int) : log.running = false →
      Transition log (.recordExit generation code)
        { log with waitState := (log.waitState.storeIfCurrent generation code).1 }
  | stopped : Transition log .setStop { log with stop := true }

/-- **What one step of the container does**: it is one of the transitions, with the guards
of the step. -/
theorem ContainerLog.transition_of_step {log log' : ContainerLog} {a : LogFileStep}
    (h : log.step a = some log') : log.Transition a log' := by
  cases a with
  | append bytes =>
      rw [step] at h
      split at h
      · obtain rfl := Option.some.inj h
        exact .appended bytes ‹_›
      · exact absurd h (by simp)
  | exit =>
      rw [step] at h
      split at h
      · obtain rfl := Option.some.inj h
        exact .exited ‹_›
      · exact absurd h (by simp)
  | recordExit generation code =>
      rw [step] at h
      split at h
      · exact absurd h (by simp)
      · next hrun =>
          obtain rfl := Option.some.inj h
          exact .recorded generation code (by simpa using hrun)
  | setStop =>
      obtain rfl := Option.some.inj h
      exact .stopped

namespace ContainerLog

/-- An exit code is recorded only after the process has gone. -/
def StreamOk (log : ContainerLog) : Prop :=
  log.waitState.exitCode.isSome → log.running = false

/-- Every transition keeps the order: a code is recorded only for a process that has gone,
and no process comes back. -/
theorem StreamOk.of_transition {log log' : ContainerLog} {a : LogFileStep}
    (h : log.StreamOk) (htr : log.Transition a log') : log'.StreamOk := by
  cases htr with
  | appended | stopped => exact h
  | exited hrun => exact fun _ => rfl
  | recorded generation code hrun => exact fun _ => hrun

/-- A transition extends the file, keeps a recorded exit code recorded, and never takes the
stop flag back. -/
theorem Transition.extends {log log' : ContainerLog} {a : LogFileStep}
    (htr : log.Transition a log') :
    (∃ more, log'.file = log.file ++ more) ∧
      (log.waitState.exitCode.isSome → log'.waitState.exitCode.isSome) ∧
      (log.stop = true → log'.stop = true) := by
  cases htr with
  | appended bytes hrun => exact ⟨⟨bytes, rfl⟩, id, id⟩
  | exited hrun => exact ⟨⟨[], (List.append_nil _).symm⟩, id, id⟩
  | recorded generation code hrun =>
      exact ⟨⟨[], (List.append_nil _).symm⟩,
        WaitState.isSome_storeIfCurrent generation code, id⟩
  | stopped => exact ⟨⟨[], (List.append_nil _).symm⟩, id, fun _ => rfl⟩

/-- Once an exit code is recorded the file grows no more. -/
theorem StreamOk.file_of_exited {log log' : ContainerLog} {a : LogFileStep}
    (h : log.StreamOk) (htr : log.Transition a log') (hexit : log.waitState.exitCode.isSome) :
    log'.file = log.file := by
  cases htr with
  | appended bytes hrun => exact absurd hrun (by rw [h hexit]; decide)
  | exited | recorded | stopped => rfl

end ContainerLog

end ContainerRs
