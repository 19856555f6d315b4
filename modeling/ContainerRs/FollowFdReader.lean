import ContainerRs.ContainerLog
import ContainerRs.Lib.Runs
import Mathlib.Data.List.TakeDrop
import Mathlib.Logic.Function.Basic

/-!
# Following a Log File

On macOS a container's log is a regular file that grows while its process runs.
`FollowFdReader` (async_container.rs) reads it by `pread` at a position of its own and has
two separately written loops, the blocking `read` and the asynchronous `poll_read`; both
take a read of zero bytes for the end only when `should_stop_follow` says so, that is when
the `stop` flag is set or an exit code has been recorded.

The module models the process, the recording of its exit code and any number of readers as
interleaved atomic steps. The `pread` and the look at the cell are different steps.

## Main results

* `FollowFdReader.transition_of_step`: both loops make the same transitions.
* `FollowSystem.StreamInv.of_step`: what one step of any party preserves.
* `follow_eof_complete_iff_no_late_append`: the end-of-file reports of a run are complete
  exactly if no append falls between an empty `pread` and the look that finds the exit code.
-/

namespace ContainerRs

/-! ### The readers -/

/-- The two traits that a reader implements. -/
inductive ReadApi
  | read
  | pollRead
  deriving DecidableEq, Repr

/-- What a call returned: a number of bytes, `Poll::Pending`, or an error of `pread`. -/
inductive ReadResult
  | ok (n : ℕ)
  | pending
  | error
  deriving DecidableEq, Repr

/-- Where a reader stands: before its first call, in front of a step of one of its two
loops, or after a call whose destination had `dst` bytes. As history, `shouldStop` carries
the length of the file at the read that returned nothing. -/
inductive FollowPc
  | idle
  | readAt (api : ReadApi) (dst : ℕ)
  | shouldStop (api : ReadApi) (dst seen : ℕ)
  | waiting (api : ReadApi) (dst : ℕ)
  | returned (dst : ℕ) (result : ReadResult)
  deriving DecidableEq, Repr

/-- The follow reader; `delay` says whether the asynchronous sleep is armed. As history it
keeps the bytes it returned. -/
structure FollowFdReader where
  pos : ℕ
  follow : Bool
  delay : Bool
  pc : FollowPc
  returned : Bytes
  deriving DecidableEq, Repr

/-- The steps of a reader. The kernel chooses how many bytes a `pread` delivers and whether
it fails; the clock chooses whether the delay has elapsed. -/
inductive FollowStep
  | call (api : ReadApi) (dst : ℕ)
  | readAt (n : ℕ)
  | readFailed
  | shouldStop
  | wait (elapsed : Bool)
  deriving DecidableEq, Repr

namespace FollowFdReader

/-- A reader at the start of the file. -/
def new (follow : Bool) : FollowFdReader :=
  { pos := 0, follow, delay := false, pc := .idle, returned := [] }

/-- Whether following may end. -/
def shouldStopFollow (log : ContainerLog) : Bool :=
  log.stop || log.waitState.exitCode.isSome

/-- Take `n` bytes at the reader's own position and return them. -/
def deliver (r : FollowFdReader) (log : ContainerLog) (dst n : ℕ) : FollowFdReader :=
  { r with
    pos := r.pos + n
    pc := .returned dst (.ok n)
    returned := r.returned ++ (log.readAt r.pos dst).take n }

/-- The start of a call: an empty destination returns at once, also while following. -/
def enter (r : FollowFdReader) (api : ReadApi) (dst : ℕ) : Option FollowFdReader :=
  match r.pc with
  | .idle | .returned _ _ =>
      if dst = 0 then some { r with pc := .returned dst (.ok 0) }
      else some { r with pc := .readAt api dst }
  | _ => none

/-- One step of the blocking loop `read`, which waits by letting the thread sleep. -/
def stepRead (r : FollowFdReader) (log : ContainerLog) : FollowStep → Option FollowFdReader
  | .readAt n =>
      match r.pc with
      | .readAt .read dst =>
          if log.Delivers r.pos dst n then
            if n = 0 ∧ r.follow then
              some { r with pc := .shouldStop .read dst log.file.length }
            else some (r.deliver log dst n)
          else none
      | _ => none
  | .readFailed =>
      match r.pc with
      | .readAt .read dst => some { r with pc := .returned dst .error }
      | _ => none
  | .shouldStop =>
      match r.pc with
      | .shouldStop .read dst _ =>
          if shouldStopFollow log then some { r with pc := .returned dst (.ok 0) }
          else some { r with pc := .waiting .read dst }
      | _ => none
  | .wait _ =>
      match r.pc with
      | .waiting .read dst => some { r with pc := .readAt .read dst }
      | _ => none
  | .call _ _ => none

/-- One step of the asynchronous loop `poll_read`. A delay that has not elapsed survives to the
next call. -/
def stepPollRead (r : FollowFdReader) (log : ContainerLog) :
    FollowStep → Option FollowFdReader
  | .readAt n =>
      match r.pc with
      | .readAt .pollRead dst =>
          if log.Delivers r.pos dst n then
            if n = 0 ∧ r.follow then
              some { r with pc := .shouldStop .pollRead dst log.file.length }
            else some { r.deliver log dst n with delay := false }
          else none
      | _ => none
  | .readFailed =>
      match r.pc with
      | .readAt .pollRead dst => some { r with delay := false, pc := .returned dst .error }
      | _ => none
  | .shouldStop =>
      match r.pc with
      | .shouldStop .pollRead dst _ =>
          if shouldStopFollow log then
            some { r with delay := false, pc := .returned dst (.ok 0) }
          else some { r with delay := true, pc := .waiting .pollRead dst }
      | _ => none
  | .wait elapsed =>
      match r.pc with
      | .waiting .pollRead dst =>
          if elapsed then some { r with delay := false, pc := .readAt .pollRead dst }
          else some { r with pc := .returned dst .pending }
      | _ => none
  | .call _ _ => none

/-- One step of a reader: the start of a call, or a step of the loop it is in. -/
def step (r : FollowFdReader) (log : ContainerLog) : FollowStep → Option FollowFdReader
  | .call api dst => r.enter api dst
  | a => (r.stepRead log a).orElse fun _ => r.stepPollRead log a

end FollowFdReader

/-! ### The system -/

/-- A container's log with a family of readers. -/
structure FollowSystem where
  log : ContainerLog
  readers : ℕ → FollowFdReader

/-- A step of one party. -/
inductive FollowAction
  | log (a : LogFileStep)
  | reader (i : ℕ) (a : FollowStep)
  deriving DecidableEq, Repr

namespace FollowSystem

/-- A running container in front of readers that follow its log. -/
def start : FollowSystem :=
  { log := ContainerLog.new, readers := fun _ => FollowFdReader.new true }

/-- One step of the system. -/
def step (s : FollowSystem) : FollowAction → Option FollowSystem
  | .log a => (s.log.step a).map fun log => { s with log }
  | .reader i a =>
      ((s.readers i).step s.log a).map fun r =>
        { s with readers := Function.update s.readers i r }

end FollowSystem

/-! ### What one step does -/

/-- The transitions of a reader, in either of its loops; only what becomes of the delay
differs between them. -/
inductive FollowFdReader.Transition (log : ContainerLog) (r : FollowFdReader) :
    FollowStep → FollowFdReader → Prop
  | calledEmpty (api : ReadApi) :
      Transition log r (.call api 0) { r with pc := .returned 0 (.ok 0) }
  | called (api : ReadApi) (dst : ℕ) : 0 < dst →
      Transition log r (.call api dst) { r with pc := .readAt api dst }
  | readSome {api : ReadApi} {dst n : ℕ} (delay : Bool) : r.pc = .readAt api dst → 0 < n →
      n ≤ (log.readAt r.pos dst).length →
      Transition log r (.readAt n) { r.deliver log dst n with delay }
  | readNothing {api : ReadApi} {dst : ℕ} : r.pc = .readAt api dst → r.follow = true →
      log.readAt r.pos dst = [] →
      Transition log r (.readAt 0) { r with pc := .shouldStop api dst log.file.length }
  | notFollowing {api : ReadApi} {dst : ℕ} (delay : Bool) : r.pc = .readAt api dst →
      r.follow = false →
      Transition log r (.readAt 0) { r.deliver log dst 0 with delay }
  | failed {api : ReadApi} {dst : ℕ} (delay : Bool) : r.pc = .readAt api dst →
      Transition log r .readFailed { r with delay, pc := .returned dst .error }
  | sawStop {api : ReadApi} {dst seen : ℕ} (delay : Bool) : r.pc = .shouldStop api dst seen →
      FollowFdReader.shouldStopFollow log = true →
      Transition log r .shouldStop { r with delay, pc := .returned dst (.ok 0) }
  | mustWait {api : ReadApi} {dst seen : ℕ} (delay : Bool) : r.pc = .shouldStop api dst seen →
      FollowFdReader.shouldStopFollow log = false →
      Transition log r .shouldStop { r with delay, pc := .waiting api dst }
  | woken {api : ReadApi} {dst : ℕ} (elapsed delay : Bool) : r.pc = .waiting api dst →
      Transition log r (.wait elapsed) { r with delay, pc := .readAt api dst }
  | parked {api : ReadApi} {dst : ℕ} : r.pc = .waiting api dst →
      Transition log r (.wait false) { r with pc := .returned dst .pending }

namespace FollowFdReader

/-- A delivery of the `pread` in either loop, with the delay it leaves. An empty read of a
following reader leads on to its check, any other one is delivered. -/
theorem transition_of_delivers {log : ContainerLog} {r r' : FollowFdReader} {api : ReadApi}
    {dst n : ℕ} (delay : Bool) (hpc : r.pc = .readAt api dst)
    (h : (if log.Delivers r.pos dst n then
        if n = 0 ∧ r.follow then some { r with pc := .shouldStop api dst log.file.length }
        else some { r.deliver log dst n with delay }
      else none) = some r') : r.Transition log (.readAt n) r' := by
  split at h
  · next hd =>
      split at h
      · next hz =>
          obtain rfl := Option.some.inj h
          obtain ⟨rfl, hfollow⟩ := hz
          exact .readNothing hpc hfollow (hd.2 rfl)
      · next hz =>
          obtain rfl := Option.some.inj h
          rcases Nat.eq_zero_or_pos n with rfl | hn
          · exact .notFollowing delay hpc (by simpa using hz)
          · exact .readSome delay hpc hn hd.1
  · exact absurd h (by simp)

/-- **What one step of the blocking loop does**: it is one of the transitions, at its own
loop. -/
theorem transition_of_stepRead {log : ContainerLog} {r r' : FollowFdReader} {a : FollowStep}
    (h : r.stepRead log a = some r') : r.Transition log a r' := by
  cases a with
  | call api dst => exact absurd h (by simp [stepRead])
  | readAt n =>
      rw [stepRead] at h
      split at h
      · next dst hpc => exact transition_of_delivers r.delay hpc h
      · exact absurd h (by simp)
  | readFailed =>
      rw [stepRead] at h
      split at h
      · next dst hpc =>
          obtain rfl := Option.some.inj h
          exact .failed r.delay hpc
      · exact absurd h (by simp)
  | shouldStop =>
      rw [stepRead] at h
      split at h
      · next dst seen hpc =>
          split at h <;> obtain rfl := Option.some.inj h
          · exact .sawStop r.delay hpc ‹_›
          · next hstop => exact .mustWait r.delay hpc (by simpa using hstop)
      · exact absurd h (by simp)
  | wait elapsed =>
      rw [stepRead] at h
      split at h
      · next dst hpc =>
          obtain rfl := Option.some.inj h
          exact .woken elapsed r.delay hpc
      · exact absurd h (by simp)

/-- **What one step of the asynchronous loop does**: the same transitions, with the delay
besides. -/
theorem transition_of_stepPollRead {log : ContainerLog} {r r' : FollowFdReader}
    {a : FollowStep} (h : r.stepPollRead log a = some r') : r.Transition log a r' := by
  cases a with
  | call api dst => exact absurd h (by simp [stepPollRead])
  | readAt n =>
      rw [stepPollRead] at h
      split at h
      · next dst hpc => exact transition_of_delivers false hpc h
      · exact absurd h (by simp)
  | readFailed =>
      rw [stepPollRead] at h
      split at h
      · next dst hpc =>
          obtain rfl := Option.some.inj h
          exact .failed false hpc
      · exact absurd h (by simp)
  | shouldStop =>
      rw [stepPollRead] at h
      split at h
      · next dst seen hpc =>
          split at h <;> obtain rfl := Option.some.inj h
          · exact .sawStop false hpc ‹_›
          · next hstop => exact .mustWait true hpc (by simpa using hstop)
      · exact absurd h (by simp)
  | wait elapsed =>
      rw [stepPollRead] at h
      split at h
      · next dst hpc =>
          cases elapsed with
          | true =>
              obtain rfl := Option.some.inj h
              exact .woken true false hpc
          | false =>
              obtain rfl := Option.some.inj h
              exact .parked hpc
      · exact absurd h (by simp)

/-- **What one step of a reader does**, whichever loop it is in, the start of a call
included. -/
theorem transition_of_step {log : ContainerLog} {r r' : FollowFdReader} {a : FollowStep}
    (h : r.step log a = some r') : r.Transition log a r' := by
  have hloops : ∀ b, ((r.stepRead log b).orElse fun _ => r.stepPollRead log b) = some r' →
      r.Transition log b r' := by
    intro b hb
    cases hread : r.stepRead log b with
    | some r'' =>
        rw [hread] at hb
        obtain rfl := Option.some.inj hb
        exact transition_of_stepRead hread
    | none =>
        rw [hread] at hb
        exact transition_of_stepPollRead hb
  cases a with
  | call api dst =>
      rw [step, enter] at h
      split at h
      all_goals try exact absurd h (by simp)
      all_goals
        split at h <;> obtain rfl := Option.some.inj h
        · next hdst =>
            subst hdst
            exact .calledEmpty api
        · exact .called api dst (Nat.pos_of_ne_zero ‹_›)
  | readAt n => exact hloops _ h
  | readFailed => exact hloops _ h
  | shouldStop => exact hloops _ h
  | wait elapsed => exact hloops _ h

end FollowFdReader

/-! ### Reading the file to its end -/

namespace FollowFdReader

/-- A following reader has returned the file up to its position. -/
structure StreamOk (log : ContainerLog) (r : FollowFdReader) : Prop where
  follow : r.follow = true
  pos_le : r.pos ≤ log.file.length
  returned_eq : r.returned = log.file.take r.pos
  dst_pos : ∀ api dst, r.pc = .readAt api dst ∨ r.pc = .waiting api dst → 0 < dst
  seen : ∀ api dst seen, r.pc = .shouldStop api dst seen → 0 < dst ∧ r.pos = seen
  exited : ∀ dst, 0 < dst → r.pc = .returned dst (.ok 0) → log.waitState.exitCode.isSome

/-- A new reader has consumed nothing and stands at the start of the file. -/
theorem streamOk_new (log : ContainerLog) : (new true).StreamOk log where
  follow := rfl
  pos_le := Nat.zero_le _
  returned_eq := List.take_zero.symm
  dst_pos := by simp [new]
  seen := by simp [new]
  exited := by simp [new]

/-- Only the container's growth happens to a reader behind its back. -/
theorem StreamOk.of_log {log log' : ContainerLog} {a : LogFileStep} {r : FollowFdReader}
    (h : r.StreamOk log) (htr : log.Transition a log') : r.StreamOk log' := by
  obtain ⟨⟨more, hfile⟩, hexit, -⟩ := htr.extends
  refine ⟨h.follow, ?_, ?_, h.dst_pos, h.seen, fun dst hdst hpc => hexit (h.exited dst hdst hpc)⟩
  · rw [hfile, List.length_append]
    exact h.pos_le.trans (Nat.le_add_right _ _)
  · rw [hfile, List.take_append_of_le_length h.pos_le]
    exact h.returned_eq

/-- **The step lemma of the reader**: a transition consumes the next bytes of the file,
and the end is reported only for what has been read before. -/
theorem StreamOk.of_transition {log : ContainerLog} {r r' : FollowFdReader} {a : FollowStep}
    (h : r.StreamOk log) (hstop : log.stop = false) (htr : r.Transition log a r') :
    r'.StreamOk log := by
  cases htr with
  | calledEmpty api =>
      refine ⟨h.follow, h.pos_le, h.returned_eq, by simp, by simp, ?_⟩
      intro dst hdst hpc
      obtain ⟨rfl, -⟩ := FollowPc.returned.inj hpc
      exact absurd hdst (lt_irrefl 0)
  | called api dst hdst =>
      refine ⟨h.follow, h.pos_le, h.returned_eq, ?_, by simp, by simp⟩
      intro api' dst' hpc
      rcases hpc with hpc | hpc
      · obtain ⟨-, rfl⟩ := FollowPc.readAt.inj hpc
        exact hdst
      · exact absurd hpc (by simp)
  | @readSome api dst n delay hpc hn hle =>
      obtain ⟨hpos, hret⟩ := ContainerLog.take_append_readAt h.pos_le hle
      rw [← h.returned_eq] at hret
      refine ⟨h.follow, hpos, hret, by simp [FollowFdReader.deliver],
        by simp [FollowFdReader.deliver], ?_⟩
      intro dst' _ hpc'
      have hzero := ReadResult.ok.inj (FollowPc.returned.inj hpc').2
      omega
  | @readNothing api dst hpc hfollow hnil =>
      have hdst := h.dst_pos api dst (.inl hpc)
      refine ⟨h.follow, h.pos_le, h.returned_eq, by simp, ?_, by simp⟩
      intro api' dst' seen hpc'
      obtain ⟨-, rfl, rfl⟩ := FollowPc.shouldStop.inj hpc'
      exact ⟨hdst, h.pos_le.antisymm (ContainerLog.length_le_of_readAt_eq_nil hdst hnil)⟩
  | notFollowing delay hpc hfollow =>
      rw [h.follow] at hfollow
      exact absurd hfollow (by decide)
  | failed delay hpc => exact ⟨h.follow, h.pos_le, h.returned_eq, by simp, by simp, by simp⟩
  | sawStop delay hpc hsaw =>
      refine ⟨h.follow, h.pos_le, h.returned_eq, by simp, by simp, ?_⟩
      intro _ _ _
      simpa [shouldStopFollow, hstop] using hsaw
  | @mustWait api dst seen delay hpc hsaw =>
      refine ⟨h.follow, h.pos_le, h.returned_eq, ?_, by simp, by simp⟩
      intro api' dst' hpc'
      rcases hpc' with hpc' | hpc'
      · exact absurd hpc' (by simp)
      · obtain ⟨-, rfl⟩ := FollowPc.waiting.inj hpc'
        exact (h.seen api dst seen hpc).1
  | @woken api dst elapsed delay hpc =>
      refine ⟨h.follow, h.pos_le, h.returned_eq, ?_, by simp, by simp⟩
      intro api' dst' hpc'
      rcases hpc' with hpc' | hpc'
      · obtain ⟨-, rfl⟩ := FollowPc.readAt.inj hpc'
        exact h.dst_pos api dst (.inr hpc)
      · exact absurd hpc' (by simp)
  | parked hpc => exact ⟨h.follow, h.pos_le, h.returned_eq, by simp, by simp, by simp⟩

/-- When the reader reports the end of the file for a nonempty destination, it has returned
every byte. -/
def EofComplete (log : ContainerLog) (r : FollowFdReader) : Prop :=
  ∀ dst, 0 < dst → r.pc = .returned dst (.ok 0) → r.returned = log.file

/-- The reader's next look at the cell, if it finds an exit code, has had no append since
the `pread` that returned nothing. -/
def NoLateAppend (log : ContainerLog) (r : FollowFdReader) : Prop :=
  ∀ api dst seen, r.pc = .shouldStop api dst seen → log.waitState.exitCode.isSome →
    log.file.length = seen

/-- A step of a reader keeps its reports complete exactly if it is no look that comes too
late. -/
theorem eofComplete_iff {log : ContainerLog} {r r' : FollowFdReader} {a : FollowStep}
    (h : r.StreamOk log) (hstop : log.stop = false) (htr : r.Transition log a r') :
    r'.EofComplete log ↔ (a = .shouldStop → r.NoLateAppend log) := by
  cases htr with
  | calledEmpty api =>
      refine ⟨fun _ heq => absurd heq (by simp), ?_⟩
      intro _ dst hdst hpc
      obtain ⟨rfl, -⟩ := FollowPc.returned.inj hpc
      exact absurd hdst (lt_irrefl 0)
  | called | readNothing | failed | woken | parked =>
      exact ⟨fun _ heq => absurd heq (by simp), fun _ _ _ heq => absurd heq (by simp)⟩
  | readSome delay hpc hn hle =>
      refine ⟨fun _ heq => absurd heq (by simp), ?_⟩
      intro _ _ _ heq
      have hzero := ReadResult.ok.inj (FollowPc.returned.inj heq).2
      omega
  | notFollowing delay hpc hfollow =>
      rw [h.follow] at hfollow
      exact absurd hfollow (by decide)
  | @sawStop api dst seen delay hpc hsaw =>
      obtain ⟨hdst, hseen⟩ := h.seen api dst seen hpc
      have hexit : log.waitState.exitCode.isSome := by
        simpa [shouldStopFollow, hstop] using hsaw
      have hle := h.pos_le
      constructor
      · intro hc _ api' dst' seen' hpc' _
        obtain ⟨-, -, rfl⟩ := FollowPc.shouldStop.inj (hpc.symm.trans hpc')
        have hall : log.file.take r.pos = log.file := h.returned_eq ▸ hc dst hdst rfl
        have := List.take_eq_self_iff _ |>.mp hall
        omega
      · intro hlate _ _ _
        have hlen := hlate rfl api dst seen hpc hexit
        simp only [h.returned_eq, hseen, ← hlen, List.take_length]
  | mustWait delay hpc hsaw =>
      refine ⟨?_, fun _ _ _ heq => absurd heq (by simp)⟩
      intro _ _ _ _ _ _ hexit
      rw [shouldStopFollow, hexit, Bool.or_true] at hsaw
      exact absurd hsaw (by decide)

end FollowFdReader

namespace FollowSystem

/-- The stream invariant of the whole system. -/
def StreamInv (s : FollowSystem) : Prop :=
  s.log.StreamOk ∧ ∀ i, (s.readers i).StreamOk s.log

/-- In the beginning the file is empty and no code is recorded. -/
theorem streamInv_start : start.StreamInv :=
  ⟨fun h => absurd h (by decide), fun _ => FollowFdReader.streamOk_new _⟩

/-- **The step lemma of the system**: a step of the container extends the file, and a step
of the reader reads on in it. -/
theorem StreamInv.of_step {s s' : FollowSystem} {a : FollowAction} (h : s.StreamInv)
    (hstop : s.log.stop = false) (hs : s.step a = some s') : s'.StreamInv := by
  obtain ⟨hL, hR⟩ := h
  cases a with
  | log a =>
      obtain ⟨log', hlog, rfl⟩ := Option.map_eq_some_iff.mp hs
      have htr := ContainerLog.transition_of_step hlog
      exact ⟨hL.of_transition htr, fun i => (hR i).of_log htr⟩
  | reader i a =>
      obtain ⟨r', hr, rfl⟩ := Option.map_eq_some_iff.mp hs
      refine ⟨hL, ?_⟩
      intro j
      by_cases hj : j = i
      · subst hj
        simp only [Function.update_self]
        exact (hR j).of_transition hstop (FollowFdReader.transition_of_step hr)
      · simp only [Function.update_of_ne hj]
        exact hR j

/-- A run at whose end the stop flag is not set has it unset in every state. -/
theorem always_not_stopped {s t : FollowSystem} {acts : List FollowAction}
    (hrun : Runs.run step s acts = some t) (h : t.log.stop = false) :
    Runs.Always step s acts fun u => u.log.stop = false := by
  refine Runs.always_of_final ?_ hrun h
  intro u a u' hs hstop
  cases a with
  | log a =>
      obtain ⟨log', hlog, rfl⟩ := Option.map_eq_some_iff.mp hs
      have hkeep := (ContainerLog.transition_of_step hlog).extends.2.2
      exact Bool.eq_false_iff.mpr fun hset => Bool.eq_false_iff.mp hstop (hkeep hset)
  | reader i a =>
      obtain ⟨r', hr, rfl⟩ := Option.map_eq_some_iff.mp hs
      exact hstop

/-- Every reader that reports the end of the file has returned all of it. -/
def EofComplete (s : FollowSystem) : Prop := ∀ i, (s.readers i).EofComplete s.log

/-- The step is no look at the cell that finds an exit code although bytes were appended
since the same reader's `pread` returned nothing. -/
def NoLateAppend (s : FollowSystem) : FollowAction → Prop
  | .reader i .shouldStop => (s.readers i).NoLateAppend s.log
  | _ => True

/-- **The step lemma**: a step from a complete state stays complete exactly if no append
came too late for it. -/
theorem eofComplete_step_iff {s s' : FollowSystem} {a : FollowAction} (hinv : s.StreamInv)
    (hstop : s.log.stop = false) (hc : s.EofComplete) (hs : s.step a = some s') :
    s'.EofComplete ↔ s.NoLateAppend a := by
  obtain ⟨hL, hR⟩ := hinv
  cases a with
  | log a =>
      obtain ⟨log', hlog, rfl⟩ := Option.map_eq_some_iff.mp hs
      refine iff_of_true ?_ trivial
      intro i dst hdst hpc
      rw [hL.file_of_exited (ContainerLog.transition_of_step hlog)
        ((hR i).exited dst hdst hpc)]
      exact hc i dst hdst hpc
  | reader i a =>
      obtain ⟨r', hr, rfl⟩ := Option.map_eq_some_iff.mp hs
      have hiff := FollowFdReader.eofComplete_iff (hR i) hstop
        (FollowFdReader.transition_of_step hr)
      have hlate : s.NoLateAppend (.reader i a) ↔
          (a = .shouldStop → (s.readers i).NoLateAppend s.log) := by
        cases a <;> simp [NoLateAppend]
      rw [hlate, ← hiff]
      refine ⟨fun h => by simpa using h i, ?_⟩
      intro h j
      by_cases hj : j = i
      · subst hj
        simpa using h
      · simpa only [Function.update_of_ne hj] using hc j

/-- **End-of-file reports are complete exactly without a late append.** In a run in which
the stop flag is never set, every reader that reports the end of the file, through either
of its loops, has returned all of it, in every state of the run, if and only if no look at
the exit code cell finds a code after bytes were appended behind the same reader's empty
`pread`. -/
theorem follow_eof_complete_iff_no_late_append (acts : List FollowAction) (s : FollowSystem)
    (hrun : Runs.run step start acts = some s) (hstop : s.log.stop = false) :
    Runs.Always step start acts EofComplete ↔ Runs.StepsMeet step start acts NoLateAppend := by
  have hnever := always_not_stopped hrun hstop
  have hkeeps : ∀ (t : FollowSystem) (a : FollowAction) (t' : FollowSystem),
      t.log.stop = false → t.StreamInv → t.step a = some t' → t.log.stop = false →
      t'.StreamInv := fun _ _ _ hu h hs _ => h.of_step hu hs
  have hstream := Runs.always_of_stepsMeet hkeeps hnever streamInv_start hrun hnever.stepsMeet
  have hinv : Runs.Always step start acts fun t => t.StreamInv ∧ t.log.stop = false :=
    fun pre post t hsplit hpre =>
      ⟨hstream pre post t hsplit hpre, hnever pre post t hsplit hpre⟩
  have hstart : start.EofComplete :=
    fun _ _ _ h => absurd h (by simp [start, FollowFdReader.new])
  have hgood : ∀ (t : FollowSystem) (a : FollowAction) (t' : FollowSystem),
      t.StreamInv ∧ t.log.stop = false → t.EofComplete → t.step a = some t' →
      (t'.EofComplete ↔ t.NoLateAppend a) :=
    fun _ _ _ hi hp hs => eofComplete_step_iff hi.1 hi.2 hp hs
  exact Runs.always_iff_stepsMeet hgood hinv hstart hrun

/-- The process writes its last byte and exits, and its code is recorded, while a reader in
each of the two loops stands between its empty `pread` and its look at the cell. -/
def lateExitSchedule : List FollowAction :=
  [.reader 0 (.call .read 16), .reader 0 (.readAt 0), .reader 1 (.call .pollRead 16),
    .reader 1 (.readAt 0), .log (.append [97]), .log .exit, .log (.recordExit 0 0),
    .reader 0 .shouldStop, .reader 1 .shouldStop]

/-- Both readers then report the end of the file without ever having returned the byte. -/
theorem follow_eof_incomplete_after_late_exit :
    ∃ s, Runs.run step start lateExitSchedule = some s ∧ s.log.stop = false ∧
      s.log.file = [97] ∧
      (s.readers 0).pc = .returned 16 (.ok 0) ∧ (s.readers 0).returned = [] ∧
      (s.readers 1).pc = .returned 16 (.ok 0) ∧ (s.readers 1).returned = [] ∧
      ¬ s.EofComplete := by
  obtain ⟨s, hrun⟩ : ∃ s, Runs.run step start lateExitSchedule = some s := ⟨_, rfl⟩
  obtain rfl := Option.some.inj hrun.symm
  refine ⟨_, hrun, rfl, rfl, rfl, rfl, rfl, rfl, ?_⟩
  intro h
  exact absurd (h 0 16 (by omega) rfl) (by decide)

/-- A reader that sleeps over the last append reads it on its next round. -/
def timelyExitSchedule : List FollowAction :=
  [.reader 1 (.call .pollRead 16), .reader 1 (.readAt 0), .reader 1 .shouldStop,
    .log (.append [97]), .log .exit, .log (.recordExit 0 0), .reader 1 (.wait true),
    .reader 1 (.readAt 1), .reader 1 (.call .pollRead 16), .reader 1 (.readAt 0),
    .reader 1 .shouldStop]

/-- No look of the timely schedule comes after a late append, and so its one report of the end
of the file is complete. -/
theorem follow_eof_complete_iff_no_late_append_timely :
    Runs.Always step start timelyExitSchedule EofComplete ∧
      Runs.StepsMeet step start timelyExitSchedule NoLateAppend := by
  obtain ⟨s, hrun⟩ : ∃ s, Runs.run step start timelyExitSchedule = some s := ⟨_, rfl⟩
  obtain rfl := Option.some.inj hrun.symm
  have hmeets : Runs.StepsMeet step start timelyExitSchedule NoLateAppend := by
    iterate 2 refine (Runs.stepsMeet_cons rfl).mpr ⟨trivial, ?_⟩
    refine (Runs.stepsMeet_cons rfl).mpr ⟨?_, ?_⟩
    · intro api dst seen hpc hexit
      exact absurd hexit (by decide)
    iterate 7 refine (Runs.stepsMeet_cons rfl).mpr ⟨trivial, ?_⟩
    refine (Runs.stepsMeet_cons rfl).mpr ⟨?_, Runs.stepsMeet_nil⟩
    intro api dst seen hpc hexit
    cases hpc
    rfl
  have hiff := follow_eof_complete_iff_no_late_append timelyExitSchedule _ hrun rfl
  exact ⟨hiff.mpr hmeets, hmeets⟩

end FollowSystem

end ContainerRs
