import ContainerRs.Lib.Runs
import ContainerRs.WaitState
import Mathlib.Data.List.Basic
import Mathlib.Logic.Function.Basic

/-!
# Restarting a Container

A stopped container on Linux is restarted by `ContainerAsync::start` (async_container.rs):
it asks for the state, lets `refresh_log_streams` stop the old log handle, start the
container and spawn a new log session, and only then bumps the `WaitState` and spawns a
waiter for the new generation. If the log session fails, the container is stopped again and
`start` returns the error.

The module models the daemon's successive runs of one container, any number of concurrent
`start` calls and all waiters ever spawned as interleaved atomic steps. A step is one
request to the daemon or one access to the shared cell.

## Main results

* `RestartInv.of_step`: the cell holds the exit code of the run recorded for it.
* `noEarlierCode_step_iff`: which steps leave an earlier run's code to be reported.
* `no_earlier_code_iff`: in a run of the system no earlier code is ever reported exactly if
  no container is started over a full cell and no outdated code is stored under the current
  generation.
-/

namespace ContainerRs

/-! ### The parties -/

/-- The daemon's view of the container: its runs are numbered from 1, `exits` keeps the exit
code of every run that has ended. -/
structure DaemonContainer where
  run : ℕ
  running : Bool
  exits : ℕ → Option Int

/-- A thread of `spawn_exit_code_waiter`: in front of its request, waiting for the end of a
run, holding the answer, or finished. -/
inductive WaiterPhase
  | requesting
  | waiting (run : ℕ)
  | answered (run : ℕ) (code : Int)
  | finished
  deriving DecidableEq, Repr

/-- A waiter with the generation it captured when it was spawned. -/
structure Waiter where
  generation : UInt64
  phase : WaiterPhase
  deriving DecidableEq, Repr

/-- Where a call of `start` stands: not called, in front of one of its steps, or returned
(`started`: whether with `Ok`). `hadHandle` is whether there was an old log handle. -/
inductive StartPc
  | idle
  | containerState
  | stopOldHandle
  | startContainer (hadHandle : Bool)
  | spawnLogSession
  | stopAgain
  | resetWaitState
  | returned (started : Bool)
  deriving DecidableEq, Repr

/-- The container, the shared cell, whether there is a log handle, the calls of `start` and
the waiters. As history, `recordedFrom` is the run whose exit code was stored last. -/
structure RestartSystem where
  container : DaemonContainer
  waitState : WaitState
  recordedFrom : ℕ
  logSource : Bool
  starts : ℕ → StartPc
  waiters : List Waiter

/-- The steps of a call of `start`; the daemon decides whether a request succeeds. -/
inductive StartStep
  | call
  | containerState (ok : Bool)
  | stopOldHandle
  | startContainer (ok : Bool)
  | spawnLogSession (ok : Bool)
  | stopAgain (ok : Bool)
  | resetWaitState
  deriving DecidableEq, Repr

/-- The steps of a waiter. -/
inductive WaiterStep
  | request
  | answer
  | fail
  | store
  deriving DecidableEq, Repr

/-- A step of one party; the container exits on its own or because it is stopped. -/
inductive RestartAction
  | exit (code : Int)
  | start (i : ℕ) (a : StartStep)
  | waiter (i : ℕ) (a : WaiterStep)
  deriving DecidableEq, Repr

namespace DaemonContainer

/-- The container in its first run. -/
def new : DaemonContainer := { run := 1, running := true, exits := fun _ => none }

/-- The current run ends. -/
def exit (c : DaemonContainer) (code : Int) : DaemonContainer :=
  { c with running := false, exits := Function.update c.exits c.run (some code) }

/-- A successful start request: a running container just keeps running. -/
def start (c : DaemonContainer) : DaemonContainer :=
  if c.running then c else { c with run := c.run + 1, running := true }

end DaemonContainer

namespace RestartSystem

/-- A container whose runner has started it and spawned the first waiter. -/
def init (logSource : Bool) : RestartSystem :=
  { container := DaemonContainer.new
    waitState := WaitState.new
    recordedFrom := 0
    logSource
    starts := fun _ => .idle
    waiters := [{ generation := WaitState.new.generation, phase := .requesting }] }

/-- Move call `i` of `start` on. -/
def goto (s : RestartSystem) (i : ℕ) (pc : StartPc) : RestartSystem :=
  { s with starts := Function.update s.starts i pc }

/-- One step of call `i` of `start`. A running container is not restarted, and a `stop` that
succeeds leaves the container stopped. -/
def stepStart (s : RestartSystem) (i : ℕ) : StartStep → Option RestartSystem
  | .call =>
      match s.starts i with
      | .idle | .returned _ => some (s.goto i .containerState)
      | _ => none
  | .containerState ok =>
      match s.starts i with
      | .containerState =>
          if !ok then some (s.goto i (.returned false))
          else if s.container.running then some (s.goto i (.returned true))
          else some (s.goto i .stopOldHandle)
      | _ => none
  | .stopOldHandle =>
      match s.starts i with
      | .stopOldHandle => some (s.goto i (.startContainer s.logSource))
      | _ => none
  | .startContainer ok =>
      match s.starts i with
      | .startContainer hadHandle =>
          if ok then
            let s : RestartSystem := { s with container := s.container.start }
            some (s.goto i (if hadHandle then .spawnLogSession else .resetWaitState))
          else some (s.goto i (.returned false))
      | _ => none
  | .spawnLogSession ok =>
      match s.starts i with
      | .spawnLogSession =>
          if ok then
            let s : RestartSystem := { s with logSource := true }
            some (s.goto i .resetWaitState)
          else some (s.goto i .stopAgain)
      | _ => none
  | .stopAgain ok =>
      match s.starts i with
      | .stopAgain =>
          if ok && s.container.running then none else some (s.goto i (.returned false))
      | _ => none
  | .resetWaitState =>
      match s.starts i with
      | .resetWaitState =>
          let waitState := s.waitState.bump
          let waiter : Waiter := { generation := waitState.generation, phase := .requesting }
          let s : RestartSystem := { s with waitState, waiters := s.waiters ++ [waiter] }
          some (s.goto i (.returned true))
      | _ => none

/-- Move waiter `i` on. -/
def advance (s : RestartSystem) (i : ℕ) (w : Waiter) (phase : WaiterPhase) : RestartSystem :=
  { s with waiters := s.waiters.set i { w with phase } }

/-- One step of a waiter. The daemon answers at once for a container that is not running,
and with the exit code of the awaited run else. -/
def stepWaiter (s : RestartSystem) (i : ℕ) (w : Waiter) : WaiterStep → Option RestartSystem
  | .request =>
      match w.phase with
      | .requesting =>
          if s.container.running then some (s.advance i w (.waiting s.container.run))
          else (s.container.exits s.container.run).map fun code =>
            s.advance i w (.answered s.container.run code)
      | _ => none
  | .answer =>
      match w.phase with
      | .waiting run =>
          (s.container.exits run).map fun code => s.advance i w (.answered run code)
      | _ => none
  | .fail =>
      match w.phase with
      | .requesting | .waiting _ => some (s.advance i w .finished)
      | _ => none
  | .store =>
      match w.phase with
      | .answered run code =>
          let stored := s.waitState.storeIfCurrent w.generation code
          let s : RestartSystem := { s with
            waitState := stored.1
            recordedFrom := if stored.2 then run else s.recordedFrom }
          some (s.advance i w .finished)
      | _ => none

/-- One step of the system. -/
def step (s : RestartSystem) : RestartAction → Option RestartSystem
  | .exit code =>
      if s.container.running then some { s with container := s.container.exit code } else none
  | .start i a => s.stepStart i a
  | .waiter i a => s.waiters[i]?.bind fun w => s.stepWaiter i w a

/-- What `exit_code_hint` returns in a state. -/
def exitCodeHint (s : RestartSystem) : Option Int := s.waitState.exitCode

/-- What `exit_code` returns in a state: the recorded code, else nothing once the state
request has succeeded. -/
def exitCode (s : RestartSystem) (stateOk : Bool) : Except Unit (Option Int) :=
  match s.waitState.exitCode with
  | some code => .ok (some code)
  | none => if stateOk then .ok none else .error ()

end RestartSystem

/-! ### What one step does -/

namespace RestartSystem

/-- The transitions of the system, as far as the runs and the cell are concerned: the steps
of `start` other than the daemon's start and the bump only move program counters and the
log handle. -/
inductive Transition (s : RestartSystem) : RestartAction → RestartSystem → Prop
  | exited (code : Int) : s.container.running = true →
      Transition s (.exit code) { s with container := s.container.exit code }
  | moved {i : ℕ} {a : StartStep} (logSource : Bool) (pc : StartPc) :
      a ≠ .startContainer true → a ≠ .resetWaitState →
      Transition s (.start i a) (RestartSystem.goto { s with logSource } i pc)
  | started {i : ℕ} (pc : StartPc) :
      Transition s (.start i (.startContainer true))
        (RestartSystem.goto { s with container := s.container.start } i pc)
  | bumped {i : ℕ} (pc : StartPc) :
      Transition s (.start i .resetWaitState)
        (RestartSystem.goto { s with
          waitState := s.waitState.bump
          waiters := s.waiters ++
            [{ generation := s.waitState.bump.generation, phase := .requesting }] } i pc)
  | requested {i : ℕ} {w : Waiter} : s.waiters[i]? = some w → s.container.running = true →
      Transition s (.waiter i .request) (s.advance i w (.waiting s.container.run))
  | answered {i : ℕ} {w : Waiter} {a : WaiterStep} {run : ℕ} {code : Int} :
      s.waiters[i]? = some w → a ≠ .store → s.container.exits run = some code →
      (run = s.container.run ∨ w.phase = .waiting run) →
      Transition s (.waiter i a) (s.advance i w (.answered run code))
  | failed {i : ℕ} {w : Waiter} : s.waiters[i]? = some w →
      Transition s (.waiter i .fail) (s.advance i w .finished)
  | stored {i : ℕ} {w : Waiter} {run : ℕ} {code : Int} : s.waiters[i]? = some w →
      w.phase = .answered run code →
      Transition s (.waiter i .store)
        (RestartSystem.advance { s with
          waitState := (s.waitState.storeIfCurrent w.generation code).1
          recordedFrom :=
            if (s.waitState.storeIfCurrent w.generation code).2 then run
            else s.recordedFrom } i w .finished)

/-- **What one step of `start` does**: it starts the container, makes the bump, or only
moves on. -/
theorem transition_of_stepStart {s s' : RestartSystem} {i : ℕ} {a : StartStep}
    (h : s.stepStart i a = some s') : s.Transition (.start i a) s' := by
  cases a with
  | call =>
      rw [stepStart] at h
      split at h
      · obtain rfl := Option.some.inj h
        exact .moved s.logSource _ (by simp) (by simp)
      · obtain rfl := Option.some.inj h
        exact .moved s.logSource _ (by simp) (by simp)
      · exact absurd h (by simp)
  | containerState ok =>
      rw [stepStart] at h
      split at h
      · split at h
        · obtain rfl := Option.some.inj h
          exact .moved s.logSource _ (by simp) (by simp)
        · split at h <;> obtain rfl := Option.some.inj h <;>
            exact .moved s.logSource _ (by simp) (by simp)
      · exact absurd h (by simp)
  | stopOldHandle =>
      rw [stepStart] at h
      split at h
      · obtain rfl := Option.some.inj h
        exact .moved s.logSource _ (by simp) (by simp)
      · exact absurd h (by simp)
  | startContainer ok =>
      rw [stepStart] at h
      split at h
      · cases ok with
        | true =>
            obtain rfl := Option.some.inj h
            exact .started _
        | false =>
            obtain rfl := Option.some.inj h
            exact .moved s.logSource _ (by simp) (by simp)
      · exact absurd h (by simp)
  | spawnLogSession ok =>
      rw [stepStart] at h
      split at h
      · cases ok with
        | true =>
            obtain rfl := Option.some.inj h
            exact .moved true _ (by simp) (by simp)
        | false =>
            obtain rfl := Option.some.inj h
            exact .moved s.logSource _ (by simp) (by simp)
      · exact absurd h (by simp)
  | stopAgain ok =>
      rw [stepStart] at h
      split at h
      · split at h
        · exact absurd h (by simp)
        · obtain rfl := Option.some.inj h
          exact .moved s.logSource _ (by simp) (by simp)
      · exact absurd h (by simp)
  | resetWaitState =>
      rw [stepStart] at h
      split at h
      · obtain rfl := Option.some.inj h
        exact .bumped _
      · exact absurd h (by simp)

/-- **What one step of a waiter does**: it goes on with its request or stores its
answer. -/
theorem transition_of_stepWaiter {s s' : RestartSystem} {i : ℕ} {w : Waiter}
    {a : WaiterStep} (hw : s.waiters[i]? = some w) (h : s.stepWaiter i w a = some s') :
    s.Transition (.waiter i a) s' := by
  cases a with
  | request =>
      rw [stepWaiter] at h
      split at h
      · split at h
        · obtain rfl := Option.some.inj h
          exact .requested hw ‹_›
        · obtain ⟨code, hcode, rfl⟩ := Option.map_eq_some_iff.mp h
          exact .answered hw (by simp) hcode (.inl rfl)
      · exact absurd h (by simp)
  | answer =>
      rw [stepWaiter] at h
      split at h
      · next run hphase =>
          obtain ⟨code, hcode, rfl⟩ := Option.map_eq_some_iff.mp h
          exact .answered hw (by simp) hcode (.inr hphase)
      · exact absurd h (by simp)
  | fail =>
      rw [stepWaiter] at h
      split at h
      · obtain rfl := Option.some.inj h
        exact .failed hw
      · obtain rfl := Option.some.inj h
        exact .failed hw
      · exact absurd h (by simp)
  | store =>
      rw [stepWaiter] at h
      split at h
      · next run code hphase =>
          obtain rfl := Option.some.inj h
          exact .stored hw hphase
      · exact absurd h (by simp)

/-- **What one step of the system does**: it is one of the transitions. One case for each
action. -/
theorem transition_of_step {s s' : RestartSystem} {a : RestartAction}
    (h : s.step a = some s') : s.Transition a s' := by
  cases a with
  | exit code =>
      rw [step] at h
      split at h
      · obtain rfl := Option.some.inj h
        exact .exited code ‹_›
      · exact absurd h (by simp)
  | start i a => exact transition_of_stepStart h
  | waiter i a =>
      obtain ⟨w, hw, h⟩ := Option.bind_eq_some_iff.mp h
      exact transition_of_stepWaiter hw h

end RestartSystem

/-! ### The recorded exit code -/

namespace DaemonContainer

/-- Exit codes are those of ended runs: not of later runs, nor of the one still running. -/
structure Ok (c : DaemonContainer) : Prop where
  later : ∀ run, c.run < run → c.exits run = none
  current : c.running = true → c.exits c.run = none

/-- A new container has no exit code. -/
theorem ok_new : new.Ok := ⟨fun _ _ => rfl, fun _ => rfl⟩

/-- A run that has ended is no later one. -/
theorem Ok.le_run {c : DaemonContainer} (h : c.Ok) {run : ℕ} {code : Int}
    (hrun : c.exits run = some code) : run ≤ c.run := by
  by_contra hlt
  rw [h.later run (Nat.not_le.mp hlt)] at hrun
  exact absurd hrun (by simp)

/-- A run that ends gets a code, and the container stops. -/
theorem Ok.exit {c : DaemonContainer} (h : c.Ok) (code : Int) : (c.exit code).Ok := by
  refine ⟨?_, fun hrunning => absurd hrunning (by simp [DaemonContainer.exit])⟩
  intro run hlt
  have hne : run ≠ c.run := Nat.ne_of_gt hlt
  simp only [DaemonContainer.exit, Function.update_of_ne hne]
  exact h.later run hlt

/-- A run that begins has no code yet. -/
theorem Ok.start {c : DaemonContainer} (h : c.Ok) : c.start.Ok := by
  rw [DaemonContainer.start]
  split
  · exact h
  · exact ⟨fun run hlt => h.later run (Nat.lt_of_succ_lt hlt),
      fun _ => h.later (c.run + 1) (Nat.lt_succ_self _)⟩

/-- A start leaves the codes of earlier runs. -/
@[simp] theorem exits_start (c : DaemonContainer) : c.start.exits = c.exits := by
  rw [DaemonContainer.start]
  split <;> rfl

/-- Ending the current run leaves the codes of the earlier ones. -/
theorem Ok.exits_exit {c : DaemonContainer} (h : c.Ok) (hrunning : c.running = true)
    {run : ℕ} {code : Int} (code' : Int) (hrun : c.exits run = some code) :
    (c.exit code').exits run = some code := by
  have hne : run ≠ c.run := by
    rintro rfl
    rw [h.current hrunning] at hrun
    exact absurd hrun (by simp)
  simpa only [DaemonContainer.exit, Function.update_of_ne hne] using hrun

end DaemonContainer

namespace RestartSystem

/-- Every answer that a waiter holds, and the code in the cell, is the exit code of its
run. -/
structure RestartInv (s : RestartSystem) : Prop where
  container : s.container.Ok
  answered : ∀ w ∈ s.waiters, ∀ run code, w.phase = .answered run code →
    s.container.exits run = some code
  recorded : ∀ code, s.waitState.exitCode = some code →
    s.container.exits s.recordedFrom = some code

/-- In the beginning there is no code, no waiter and no call. -/
theorem restartInv_init (logSource : Bool) : (init logSource).RestartInv := by
  refine ⟨DaemonContainer.ok_new, ?_, ?_⟩
  · intro w hw run code hphase
    rw [init, List.mem_singleton] at hw
    subst hw
    exact absurd hphase (by simp)
  · intro code h
    exact absurd h (by simp [init, WaitState.new])

/-- Moving a waiter on keeps the answers of all waiters if its own new one is right. -/
theorem answered_advance {s : RestartSystem} (h : s.RestartInv) (i : ℕ) (w : Waiter)
    (phase : WaiterPhase)
    (hphase : ∀ run code, phase = .answered run code → s.container.exits run = some code) :
    ∀ w' ∈ s.waiters.set i { w with phase }, ∀ run code, w'.phase = .answered run code →
      s.container.exits run = some code := by
  intro w' hw' run code hw'phase
  rcases List.mem_or_eq_of_mem_set hw' with hmem | rfl
  · exact h.answered w' hmem run code hw'phase
  · exact hphase run code hw'phase

/-- **The step lemma**: every transition keeps the invariant; a code is stored only by a
waiter of the current generation. -/
theorem RestartInv.of_step {s s' : RestartSystem} {a : RestartAction} (h : s.RestartInv)
    (hs : s.step a = some s') : s'.RestartInv := by
  cases transition_of_step hs with
  | exited code hrunning =>
      exact ⟨h.container.exit code,
        fun w hw run code' hphase =>
          h.container.exits_exit hrunning code (h.answered w hw run code' hphase),
        fun code' hcell => h.container.exits_exit hrunning code (h.recorded code' hcell)⟩
  | moved => exact ⟨h.container, h.answered, h.recorded⟩
  | started pc =>
      refine ⟨h.container.start, ?_, ?_⟩
      · intro w hw run code hphase
        exact (congrFun (DaemonContainer.exits_start _) run).trans
          (h.answered w hw run code hphase)
      · intro code hcell
        exact (congrFun (DaemonContainer.exits_start _) _).trans (h.recorded code hcell)
  | bumped pc =>
      refine ⟨h.container, ?_, ?_⟩
      · intro w hw run code hphase
        rcases List.mem_append.mp hw with hw | hw
        · exact h.answered w hw run code hphase
        · obtain rfl := List.mem_singleton.mp hw
          exact absurd hphase (by simp)
      · intro code hcell
        exact absurd hcell (by simp [goto])
  | requested hw hrunning =>
      exact ⟨h.container, answered_advance h _ _ _ (by simp), h.recorded⟩
  | answered hw hne hcode hrun =>
      refine ⟨h.container, answered_advance h _ _ _ ?_, h.recorded⟩
      intro run code heq
      obtain ⟨rfl, rfl⟩ := WaiterPhase.answered.inj heq
      exact hcode
  | failed hw => exact ⟨h.container, answered_advance h _ _ _ (by simp), h.recorded⟩
  | @stored i w run code hw hphase =>
      refine ⟨h.container, answered_advance h _ _ _ (by simp), ?_⟩
      intro code' hcell
      simp only [advance, WaitState.storeIfCurrent_exitCode, WaitState.storeIfCurrent_stored,
        decide_eq_true_eq] at hcell ⊢
      split at hcell
      · obtain rfl := Option.some.inj hcell
        rw [if_pos ‹_›]
        exact h.answered w (List.mem_of_getElem? hw) run code hphase
      · rw [if_neg ‹_›]
        exact h.recorded code' hcell

/-- A call of `exit_code_hint` or of `exit_code` in this state returns the code. -/
def Reports (s : RestartSystem) (code : Int) : Prop :=
  s.exitCodeHint = some code ∨ ∃ stateOk, s.exitCode stateOk = .ok (some code)

/-- Both functions report exactly what is in the cell. -/
theorem reports_iff {s : RestartSystem} {code : Int} :
    s.Reports code ↔ s.waitState.exitCode = some code := by
  refine ⟨?_, .inl⟩
  intro h
  rcases h with h | ⟨stateOk, h⟩
  · exact h
  · rw [exitCode] at h
    split at h
    · next code' hcell =>
        obtain rfl := Option.some.inj (Except.ok.inj h)
        exact hcell
    · split at h
      · exact absurd (Except.ok.inj h) (by simp)
      · exact absurd h (by simp)

/-- What is reported is the exit code of the run that it was recorded for. -/
def ReportsRecordedRun (s : RestartSystem) : Prop :=
  ∀ code, s.Reports code → s.container.exits s.recordedFrom = some code

/-- No code of a run before the current one is reported. -/
def NoEarlierCode (s : RestartSystem) : Prop :=
  ∀ code, s.Reports code → ¬ s.recordedFrom < s.container.run

/-- The step starts no new run over a full cell, and stores under the current generation no
code but the current run's. -/
def Timely (s : RestartSystem) : RestartAction → Prop
  | .start _ (.startContainer true) =>
      s.container.running = false → s.waitState.exitCode = none
  | .waiter i .store => ∀ w run code, s.waiters[i]? = some w → w.phase = .answered run code →
      s.waitState.generation = w.generation → run = s.container.run
  | _ => True

/-- A step that leaves the run and the cell alone leaves what is reported. -/
theorem noEarlierCode_congr {s s' : RestartSystem} (hrun : s'.container.run = s.container.run)
    (hcell : s'.waitState.exitCode = s.waitState.exitCode)
    (hfrom : s'.recordedFrom = s.recordedFrom) : s'.NoEarlierCode ↔ s.NoEarlierCode := by
  simp only [NoEarlierCode, reports_iff, hrun, hcell, hfrom]

/-- **The step lemma**: a step from a state in which no earlier code is reported leads to another
one exactly if it is timely. A code that is in the cell when the container is started is one of a
run that is then an earlier one. -/
theorem noEarlierCode_step_iff {s s' : RestartSystem} {a : RestartAction}
    (hinv : s.RestartInv) (hp : s.NoEarlierCode) (hs : s.step a = some s') :
    s'.NoEarlierCode ↔ s.Timely a := by
  cases transition_of_step hs with
  | exited => exact iff_of_true ((noEarlierCode_congr rfl rfl rfl).mpr hp) trivial
  | @moved i a logSource pc hne hne' =>
      have hp' : NoEarlierCode (goto { s with logSource } i pc) :=
        (noEarlierCode_congr rfl rfl rfl).mpr hp
      refine iff_of_true hp' ?_
      cases a with
      | startContainer ok =>
          cases ok with
          | true => exact absurd rfl hne
          | false => trivial
      | call | containerState | stopOldHandle | spawnLogSession | stopAgain | resetWaitState =>
          trivial
  | @started i pc =>
      simp only [Timely, NoEarlierCode, reports_iff, goto, DaemonContainer.start]
      by_cases hrunning : s.container.running = true
      · simp only [hrunning, if_true]
        exact iff_of_true (fun code hcell => hp code (reports_iff.mpr hcell)) (by simp)
      · simp only [hrunning, Bool.false_eq_true, if_false] at hrunning ⊢
        constructor
        · intro h _
          by_contra hne
          obtain ⟨code, hcell⟩ := Option.ne_none_iff_exists'.mp hne
          exact h code hcell (Nat.lt_succ_of_le (hinv.container.le_run (hinv.recorded code hcell)))
        · intro h code hcell
          rw [h trivial] at hcell
          exact absurd hcell (by simp)
  | bumped pc =>
      refine iff_of_true ?_ trivial
      intro code hcell
      exact absurd (reports_iff.mp hcell) (by simp [goto])
  | requested | failed => exact iff_of_true ((noEarlierCode_congr rfl rfl rfl).mpr hp) trivial
  | @answered i w a run code hw hne hcode hrun =>
      refine iff_of_true ((noEarlierCode_congr rfl rfl rfl).mpr hp) ?_
      cases a with
      | store => exact absurd rfl hne
      | request | answer | fail => trivial
  | @stored i w run code hw hphase =>
      have hle : run ≤ s.container.run :=
        hinv.container.le_run (hinv.answered w (List.mem_of_getElem? hw) run code hphase)
      simp only [Timely, NoEarlierCode, reports_iff, advance, WaitState.storeIfCurrent_exitCode,
        WaitState.storeIfCurrent_stored, decide_eq_true_eq]
      by_cases hgen : s.waitState.generation = w.generation
      · simp only [hgen, if_true]
        constructor
        · intro h w' run' code' hw' hphase' _
          obtain rfl := Option.some.inj (hw.symm.trans hw')
          obtain ⟨rfl, -⟩ := WaiterPhase.answered.inj (hphase.symm.trans hphase')
          have := h code rfl
          omega
        · intro h _ _
          have := h w run code hw hphase rfl
          omega
      · simp only [hgen, if_false]
        refine iff_of_true (fun code hcell => hp code (reports_iff.mpr hcell)) ?_
        intro w' run' code' hw' _ hgen'
        obtain rfl := Option.some.inj (hw.symm.trans hw')
        exact absurd hgen' hgen

/-- **No earlier run's code is reported exactly in timely runs.** In every run of the
system, whatever `exit_code` and `exit_code_hint` return is the exit code of the run it was
recorded for; and that is never a run before the current one if and only if no step starts
a new run over a full cell or stores an earlier run's code under the current generation. -/
theorem no_earlier_code_iff (logSource : Bool) (acts : List RestartAction)
    (s : RestartSystem) (hrun : Runs.run step (init logSource) acts = some s) :
    Runs.Always step (init logSource) acts ReportsRecordedRun ∧
      (Runs.Always step (init logSource) acts NoEarlierCode ↔
        Runs.StepsMeet step (init logSource) acts Timely) := by
  have hinv : Runs.Always step (init logSource) acts RestartInv :=
    Runs.always_of_invariant (fun _ _ _ h hs => RestartInv.of_step h hs)
      (restartInv_init logSource) acts
  have hstart : (init logSource).NoEarlierCode := fun code hcell =>
    absurd (reports_iff.mp hcell) (by simp [init, WaitState.new])
  have hgood : ∀ (t : RestartSystem) (a : RestartAction) (t' : RestartSystem),
      t.RestartInv → t.NoEarlierCode → t.step a = some t' → (t'.NoEarlierCode ↔ t.Timely a) :=
    fun _ _ _ hi hp hs => noEarlierCode_step_iff hi hp hs
  constructor
  · intro pre post t hsplit hpre code hcell
    exact (hinv pre post t hsplit hpre).recorded code (reports_iff.mp hcell)
  · exact Runs.always_iff_stepsMeet hgood hinv hstart hrun

/-- Run 1 exits with code 3 and is recorded; a restart starts run 2, fails to spawn its log
session, stops the container again and returns the error. -/
def failedRestartSchedule : List RestartAction :=
  [.waiter 0 .request, .exit 3, .waiter 0 .answer, .waiter 0 .store, .start 0 .call,
    .start 0 (.containerState true), .start 0 .stopOldHandle, .start 0 (.startContainer true),
    .start 0 (.spawnLogSession false), .exit 137, .start 0 (.stopAgain true)]

/-- After the failed restart run 2 has ended with code 137, and both functions still return
run 1's code. -/
theorem earlier_code_after_failed_restart :
    ∃ s, Runs.run step (init true) failedRestartSchedule = some s ∧
      s.starts 0 = .returned false ∧ s.container.run = 2 ∧
      s.container.exits 1 = some 3 ∧ s.container.exits 2 = some 137 ∧ s.recordedFrom = 1 ∧
      s.exitCodeHint = some 3 ∧ s.exitCode true = .ok (some 3) ∧ ¬ s.NoEarlierCode := by
  obtain ⟨s, hrun⟩ : ∃ s, Runs.run step (init true) failedRestartSchedule = some s := ⟨_, rfl⟩
  obtain rfl := Option.some.inj hrun.symm
  refine ⟨_, hrun, rfl, rfl, rfl, rfl, rfl, rfl, rfl, ?_⟩
  intro h
  exact h 3 (.inl rfl) (by decide)

/-- A restart after the first waiter has failed starts run 2 over an empty cell. -/
def timelyRestartSchedule : List RestartAction :=
  [.waiter 0 .request, .waiter 0 .fail, .exit 3, .start 0 .call,
    .start 0 (.containerState true), .start 0 .stopOldHandle, .start 0 (.startContainer true),
    .start 0 (.spawnLogSession true), .start 0 .resetWaitState, .waiter 1 .request, .exit 0,
    .waiter 1 .answer, .waiter 1 .store]

/-- The restart and the store of its waiter are timely, and so no earlier run's code is ever
reported; in the end it is run 2's code. -/
theorem no_earlier_code_iff_timely :
    Runs.Always step (init true) timelyRestartSchedule ReportsRecordedRun ∧
      Runs.Always step (init true) timelyRestartSchedule NoEarlierCode ∧
        Runs.StepsMeet step (init true) timelyRestartSchedule Timely := by
  obtain ⟨s, hrun⟩ : ∃ s, Runs.run step (init true) timelyRestartSchedule = some s := ⟨_, rfl⟩
  have hmeets : Runs.StepsMeet step (init true) timelyRestartSchedule Timely := by
    iterate 6 refine (Runs.stepsMeet_cons rfl).mpr ⟨trivial, ?_⟩
    refine (Runs.stepsMeet_cons rfl).mpr ⟨fun _ => rfl, ?_⟩
    iterate 5 refine (Runs.stepsMeet_cons rfl).mpr ⟨trivial, ?_⟩
    refine (Runs.stepsMeet_cons rfl).mpr ⟨?_, Runs.stepsMeet_nil⟩
    intro w run code hw hphase _
    cases hw
    cases hphase
    rfl
  obtain ⟨hrecorded, hiff⟩ := no_earlier_code_iff true timelyRestartSchedule s hrun
  exact ⟨hrecorded, hiff.mpr hmeets, hmeets⟩

end RestartSystem

end ContainerRs
