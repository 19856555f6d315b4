import ContainerRs.Restart
import Mathlib.Algebra.Ring.Nat

/-!
# Exit Codes on macOS

On macOS `ContainerAsync::exit_code` (async_container.rs) returns the recorded exit code, or
asks for it: it captures the generation of the `WaitState`, waits for a short time, and
records and returns the code if the generation is still the current one. `start` on a
stopped container bootstraps it and starts its process, and only then bumps the `WaitState`
and spawns a waiter for the new generation.

The module models the successive runs of one container, any number of concurrent calls of
`start` and of `exit_code` and all waiters ever spawned as interleaved atomic steps. A wait
may answer with the exit code of any run that was the latest one at some moment since the
wait began.

The period of a run begins with a bump behind its start and ends with the start of the next
run.

## Main results

* `WaitOk`: which run a wait can report, by the generation it has captured.
* `MacInv.of_step`: in the period of a run the cell holds no code but this run's.
* `exit_code_of_current_run`: nor does a call within the period return another one.
-/

namespace ContainerRs

/-! ### The parties -/

/-- A wait for the exit code: not begun, begun when run `since` was the latest one, answered
with the code of a run, or finished. -/
inductive WaitPhase
  | requesting
  | waiting (since : ℕ)
  | answered (run : ℕ) (code : Int)
  | finished
  deriving DecidableEq, Repr

/-- A wait with the generation captured for it. As history, `epoch` is the number of bumps
before the capture. -/
structure Wait where
  generation : UInt64
  epoch : ℕ
  phase : WaitPhase
  deriving DecidableEq, Repr

/-- Where a call of `exit_code` stands: not called, in front of one of its steps, or
returned. As history, `began` and `ended` are the periods of its beginning and its end. -/
inductive ExitCodePc
  | idle
  | readCache (began : Option ℕ)
  | containerState (began : Option ℕ)
  | generation (began : Option ℕ)
  | wait (began : Option ℕ) (w : Wait)
  | returned (value : Except Unit (Option Int)) (began ended : Option ℕ)

/-- The period in which a call of `exit_code` has begun. -/
def ExitCodePc.began : ExitCodePc → Option ℕ
  | .idle => none
  | .readCache began | .containerState began | .generation began | .wait began _
  | .returned _ began _ => began

/-- Where a call of `start` stands: not called, in front of one of its steps, or returned
(`started`: whether with `Ok`). -/
inductive MacStartPc
  | idle
  | containerState
  | bootstrapContainer
  | startProcess
  | resetWaitState
  | refreshLogStreams
  | stopAgain
  | returned (started : Bool)
  deriving DecidableEq, Repr

/-- The container, the shared cell, the calls and the background waiters. As history,
`bumps` counts the bumps, and `bumped` is whether one has been made since the latest run was
started. -/
structure MacSystem where
  container : DaemonContainer
  waitState : WaitState
  bumps : ℕ
  bumped : Bool
  starts : ℕ → MacStartPc
  waiters : List Wait
  calls : ℕ → ExitCodePc

/-- The steps of a call of `start`; the daemon decides whether a request succeeds. -/
inductive MacStartStep
  | call
  | containerState (ok : Bool)
  | bootstrapContainer (ok : Bool)
  | startProcess (ok : Bool)
  | resetWaitState
  | refreshLogStreams (ok : Bool)
  | stopAgain (ok : Bool)
  deriving DecidableEq, Repr

/-- The steps of a wait: it begins, is answered with the code of a run or fails, and the
code is stored. -/
inductive WaitStep
  | request
  | answer (run : ℕ)
  | fail
  | store
  deriving DecidableEq, Repr

/-- The steps of a call of `exit_code`. -/
inductive ExitCodeStep
  | call
  | readCache
  | containerState (ok : Bool)
  | generation
  | wait (a : WaitStep)
  deriving DecidableEq, Repr

/-- A step of one party; the container exits on its own or because it is stopped. -/
inductive MacAction
  | exit (code : Int)
  | start (i : ℕ) (a : MacStartStep)
  | waiter (i : ℕ) (a : WaitStep)
  | exitCode (i : ℕ) (a : ExitCodeStep)
  deriving DecidableEq, Repr

namespace MacSystem

/-- A container whose runner has started it and spawned the first waiter. -/
def init : MacSystem :=
  { container := DaemonContainer.new
    waitState := WaitState.new
    bumps := 0
    bumped := true
    starts := fun _ => .idle
    waiters := [{ generation := WaitState.new.generation, epoch := 0, phase := .requesting }]
    calls := fun _ => .idle }

/-- The run whose period it is. -/
def period (s : MacSystem) : Option ℕ := if s.bumped then some s.container.run else none

/-- Move call `i` of `start` on. -/
def goto (s : MacSystem) (i : ℕ) (pc : MacStartPc) : MacSystem :=
  { s with starts := Function.update s.starts i pc }

/-- Move call `i` of `exit_code` on. -/
def gotoCall (s : MacSystem) (i : ℕ) (pc : ExitCodePc) : MacSystem :=
  { s with calls := Function.update s.calls i pc }

/-- Move background waiter `i` on. -/
def advance (s : MacSystem) (i : ℕ) (w : Wait) (phase : WaitPhase) : MacSystem :=
  { s with waiters := s.waiters.set i { w with phase } }

/-- One step of call `i` of `start`. A running container is not restarted, and a `stop` that
succeeds leaves the container stopped. -/
def stepStart (s : MacSystem) (i : ℕ) : MacStartStep → Option MacSystem
  | .call =>
      match s.starts i with
      | .idle | .returned _ => some (s.goto i .containerState)
      | _ => none
  | .containerState ok =>
      match s.starts i with
      | .containerState =>
          if !ok then some (s.goto i (.returned false))
          else if s.container.running then some (s.goto i (.returned true))
          else some (s.goto i .bootstrapContainer)
      | _ => none
  | .bootstrapContainer ok =>
      match s.starts i with
      | .bootstrapContainer => some (s.goto i (if ok then .startProcess else .returned false))
      | _ => none
  | .startProcess ok =>
      match s.starts i with
      | .startProcess =>
          if ok then
            let s : MacSystem := { s with
              container := s.container.start
              bumped := s.bumped && s.container.running }
            some (s.goto i .resetWaitState)
          else some (s.goto i (.returned false))
      | _ => none
  | .resetWaitState =>
      match s.starts i with
      | .resetWaitState =>
          let waitState := s.waitState.bump
          let waiter : Wait :=
            { generation := waitState.generation, epoch := s.bumps + 1, phase := .requesting }
          let s : MacSystem := { s with
            waitState
            bumps := s.bumps + 1
            bumped := true
            waiters := s.waiters ++ [waiter] }
          some (s.goto i .refreshLogStreams)
      | _ => none
  | .refreshLogStreams ok =>
      match s.starts i with
      | .refreshLogStreams => some (s.goto i (if ok then .returned true else .stopAgain))
      | _ => none
  | .stopAgain ok =>
      match s.starts i with
      | .stopAgain =>
          if ok && s.container.running then none else some (s.goto i (.returned false))
      | _ => none

/-- The request of a wait and its answer. -/
def stepWait (s : MacSystem) (w : Wait) : WaitStep → Option WaitPhase
  | .request =>
      match w.phase with
      | .requesting => some (.waiting s.container.run)
      | _ => none
  | .answer run =>
      match w.phase with
      | .waiting since =>
          if since ≤ run then
            (s.container.exits run).map fun code => .answered run code
          else none
      | _ => none
  | .fail =>
      match w.phase with
      | .requesting | .waiting _ => some .finished
      | _ => none
  | .store => none

/-- One step of background waiter `i`. -/
def stepWaiter (s : MacSystem) (i : ℕ) (w : Wait) : WaitStep → Option MacSystem
  | .store =>
      match w.phase with
      | .answered _ code =>
          let s : MacSystem := { s with
            waitState := (s.waitState.storeIfCurrent w.generation code).1 }
          some (s.advance i w .finished)
      | _ => none
  | a => (s.stepWait w a).map fun phase => s.advance i w phase

/-- One step of call `i` of `exit_code`. A running container has no exit code, and one that belongs
to an earlier generation is not returned. -/
def stepCall (s : MacSystem) (i : ℕ) : ExitCodeStep → Option MacSystem
  | .call =>
      match s.calls i with
      | .idle | .returned _ _ _ => some (s.gotoCall i (.readCache s.period))
      | _ => none
  | .readCache =>
      match s.calls i with
      | .readCache began =>
          match s.waitState.exitCode with
          | some code => some (s.gotoCall i (.returned (.ok (some code)) began s.period))
          | none => some (s.gotoCall i (.containerState began))
      | _ => none
  | .containerState ok =>
      match s.calls i with
      | .containerState began =>
          if !ok then some (s.gotoCall i (.returned (.error ()) began s.period))
          else if s.container.running then
            some (s.gotoCall i (.returned (.ok none) began s.period))
          else some (s.gotoCall i (.generation began))
      | _ => none
  | .generation =>
      match s.calls i with
      | .generation began =>
          let w : Wait :=
            { generation := s.waitState.generation, epoch := s.bumps, phase := .requesting }
          some (s.gotoCall i (.wait began w))
      | _ => none
  | .wait a =>
      match s.calls i with
      | .wait began w =>
          match w.phase, a with
          | .answered _ code, .store =>
              let stored := s.waitState.storeIfCurrent w.generation code
              let s : MacSystem := { s with waitState := stored.1 }
              some (s.gotoCall i
                (.returned (.ok (if stored.2 then some code else none)) began s.period))
          | _, a =>
              (s.stepWait w a).map fun phase =>
                if phase = .finished then
                  s.gotoCall i (.returned (.ok none) began s.period)
                else s.gotoCall i (.wait began { w with phase })
      | _ => none

/-- One step of the system. -/
def step (s : MacSystem) : MacAction → Option MacSystem
  | .exit code =>
      if s.container.running then some { s with container := s.container.exit code } else none
  | .start i a => s.stepStart i a
  | .waiter i a => s.waiters[i]?.bind fun w => s.stepWaiter i w a
  | .exitCode i a => s.stepCall i a

/-! ### What one step does -/

/-- The transitions of the system. The steps of `start` other than the start of the process
and the bump only move program counters, and so do those steps of `exit_code` that neither
wait nor return a code. -/
inductive Transition (s : MacSystem) : MacSystem → Prop
  | exited (code : Int) : s.container.running = true →
      Transition s { s with container := s.container.exit code }
  | moved (i : ℕ) (pc : MacStartPc) : Transition s (s.goto i pc)
  | started (i : ℕ) (pc : MacStartPc) :
      Transition s (goto { s with
        container := s.container.start
        bumped := s.bumped && s.container.running } i pc)
  | bumped (i : ℕ) (pc : MacStartPc) :
      Transition s (goto { s with
        waitState := s.waitState.bump
        bumps := s.bumps + 1
        bumped := true
        waiters := s.waiters ++
          [Wait.mk s.waitState.bump.generation (s.bumps + 1) .requesting] } i pc)
  | waited {i : ℕ} {w : Wait} {a : WaitStep} {phase : WaitPhase} : s.waiters[i]? = some w →
      s.stepWait w a = some phase → Transition s (s.advance i w phase)
  | stored {i : ℕ} {w : Wait} {run : ℕ} {code : Int} : s.waiters[i]? = some w →
      w.phase = .answered run code →
      Transition s (advance { s with
        waitState := (s.waitState.storeIfCurrent w.generation code).1 } i w .finished)
  | movedCall (i : ℕ) (pc : ExitCodePc) : (∀ began w, pc ≠ .wait began w) →
      (∀ code began ended, pc ≠ .returned (.ok (some code)) began ended) →
      (pc.began = s.period ∨ pc.began = (s.calls i).began) → Transition s (s.gotoCall i pc)
  | returnedCached {i : ℕ} {began : Option ℕ} {code : Int} : (s.calls i).began = began →
      s.waitState.exitCode = some code →
      Transition s (s.gotoCall i (.returned (.ok (some code)) began s.period))
  | captured {i : ℕ} {began : Option ℕ} : (s.calls i).began = began →
      Transition s (s.gotoCall i (.wait began
        { generation := s.waitState.generation, epoch := s.bumps, phase := .requesting }))
  | waitedCall {i : ℕ} {began : Option ℕ} {w : Wait} {a : WaitStep} {phase : WaitPhase} :
      s.calls i = .wait began w → s.stepWait w a = some phase →
      Transition s (s.gotoCall i (.wait began { w with phase }))
  | storedCall {i : ℕ} {began : Option ℕ} {w : Wait} {run : ℕ} {code : Int} :
      s.calls i = .wait began w → w.phase = .answered run code →
      Transition s (gotoCall { s with
        waitState := (s.waitState.storeIfCurrent w.generation code).1 } i
        (.returned (.ok (if (s.waitState.storeIfCurrent w.generation code).2 then some code
          else none)) began s.period))

/-- **What one step of `start` does**: it starts the process, makes the bump, or only
moves on. -/
theorem transition_of_stepStart {s s' : MacSystem} {i : ℕ} {a : MacStartStep}
    (h : s.stepStart i a = some s') : s.Transition s' := by
  cases a with
  | call =>
      rw [stepStart] at h
      split at h
      · obtain rfl := Option.some.inj h
        exact .moved i _
      · obtain rfl := Option.some.inj h
        exact .moved i _
      · exact absurd h (by simp)
  | containerState ok =>
      rw [stepStart] at h
      split at h
      · split at h
        · obtain rfl := Option.some.inj h
          exact .moved i _
        · split at h <;> obtain rfl := Option.some.inj h <;> exact .moved i _
      · exact absurd h (by simp)
  | bootstrapContainer ok | refreshLogStreams ok =>
      rw [stepStart] at h
      split at h
      · obtain rfl := Option.some.inj h
        exact .moved i _
      · exact absurd h (by simp)
  | startProcess ok =>
      rw [stepStart] at h
      split at h
      · split at h
        · obtain rfl := Option.some.inj h
          exact .started i _
        · obtain rfl := Option.some.inj h
          exact .moved i _
      · exact absurd h (by simp)
  | resetWaitState =>
      rw [stepStart] at h
      split at h
      · obtain rfl := Option.some.inj h
        exact .bumped i _
      · exact absurd h (by simp)
  | stopAgain ok =>
      rw [stepStart] at h
      split at h
      · split at h
        · exact absurd h (by simp)
        · obtain rfl := Option.some.inj h
          exact .moved i _
      · exact absurd h (by simp)

/-- **What one step of a background waiter does**: it goes on with its wait or stores its
answer. -/
theorem transition_of_stepWaiter {s s' : MacSystem} {i : ℕ} {w : Wait} {a : WaitStep}
    (hw : s.waiters[i]? = some w) (h : s.stepWaiter i w a = some s') : s.Transition s' := by
  cases a with
  | store =>
      rw [stepWaiter] at h
      split at h
      · next run code hphase =>
          obtain rfl := Option.some.inj h
          exact .stored hw hphase
      · exact absurd h (by simp)
  | request | fail | answer =>
      obtain ⟨phase, hphase, rfl⟩ := Option.map_eq_some_iff.mp h
      exact .waited hw hphase

/-- **What one step of `exit_code` does**: it goes on with its wait, returns, or only
moves on. -/
theorem transition_of_stepCall {s s' : MacSystem} {i : ℕ} {a : ExitCodeStep}
    (h : s.stepCall i a = some s') : s.Transition s' := by
  cases a with
  | call =>
      rw [stepCall] at h
      split at h
      · obtain rfl := Option.some.inj h
        exact .movedCall i _ (by simp) (by simp) (.inl rfl)
      · obtain rfl := Option.some.inj h
        exact .movedCall i _ (by simp) (by simp) (.inl rfl)
      · exact absurd h (by simp)
  | readCache =>
      rw [stepCall] at h
      split at h
      · next began hcall =>
          have hbegan : (s.calls i).began = began := by rw [hcall, ExitCodePc.began]
          split at h
          · next code hcell =>
              obtain rfl := Option.some.inj h
              exact .returnedCached hbegan hcell
          · obtain rfl := Option.some.inj h
            exact .movedCall i _ (by simp) (by simp) (.inr hbegan.symm)
      · exact absurd h (by simp)
  | containerState ok =>
      rw [stepCall] at h
      split at h
      · next began hcall =>
          have hbegan : (s.calls i).began = began := by rw [hcall, ExitCodePc.began]
          split at h
          · obtain rfl := Option.some.inj h
            exact .movedCall i _ (by simp) (by simp) (.inr hbegan.symm)
          · split at h <;> obtain rfl := Option.some.inj h <;>
              exact .movedCall i _ (by simp) (by simp) (.inr hbegan.symm)
      · exact absurd h (by simp)
  | generation =>
      rw [stepCall] at h
      split at h
      · next began hcall =>
          obtain rfl := Option.some.inj h
          exact .captured (by rw [hcall, ExitCodePc.began])
      · exact absurd h (by simp)
  | wait a =>
      rw [stepCall] at h
      split at h
      · next began w hcall =>
          split at h
          · next run code hphase =>
              obtain rfl := Option.some.inj h
              exact .storedCall hcall hphase
          · obtain ⟨phase, hphase, rfl⟩ := Option.map_eq_some_iff.mp h
            split
            · exact .movedCall i _ (by simp) (by simp)
                (.inr (by rw [hcall, ExitCodePc.began, ExitCodePc.began]))
            · exact .waitedCall hcall hphase
      · exact absurd h (by simp)

/-- **What one step of the system does**: it is one of the transitions. One case for each
action. -/
theorem transition_of_step {s s' : MacSystem} {a : MacAction} (h : s.step a = some s') :
    s.Transition s' := by
  cases a with
  | exit code =>
      rw [step] at h
      split at h
      · obtain rfl := Option.some.inj h
        exact .exited code ‹_›
      · exact absurd h (by simp)
  | start i a => exact transition_of_stepStart h
  | waiter i a =>
      obtain ⟨w, hw, h⟩ := Option.bind_eq_some_iff.mp h
      exact transition_of_stepWaiter hw h
  | exitCode i a => exact transition_of_stepCall h

end MacSystem

/-! ### Which run a wait can report -/

/-- No run before the `n`-th is reported: the wait is not begun, was begun when run `n` or a
later one was the latest, or holds the answer of such a run. -/
def WaitPhase.AtLeast (n : ℕ) : WaitPhase → Prop
  | .requesting | .finished => True
  | .waiting since => n ≤ since
  | .answered run _ => n ≤ run

namespace MacSystem

/-- A wait holds the generation of its epoch. If no bump has been made since its capture but
one since the start of the latest run, then it reports no earlier run. -/
structure WaitOk (s : MacSystem) (w : Wait) : Prop where
  generation : w.generation = UInt64.ofNat w.epoch
  epoch_le : w.epoch ≤ s.bumps
  current : w.epoch = s.bumps → s.bumped = true → w.phase.AtLeast s.container.run
  answered : ∀ run code, w.phase = .answered run code → s.container.exits run = some code

/-- What an answered wait of the current epoch holds is the exit code of the latest run. -/
theorem WaitOk.exits_run {s : MacSystem} {w : Wait} {run : ℕ} {code : Int} (h : s.WaitOk w)
    (hc : s.container.Ok) (hphase : w.phase = .answered run code) (hepoch : w.epoch = s.bumps)
    (hbumped : s.bumped = true) : s.container.exits s.container.run = some code := by
  have hexits := h.answered run code hphase
  have hge := h.current hepoch hbumped
  rw [hphase, WaitPhase.AtLeast] at hge
  obtain rfl : run = s.container.run := Nat.le_antisymm (hc.le_run hexits) hge
  exact hexits

/-- A step of a wait reports no run before the `n`-th if the wait did not and the latest run
is no earlier one. -/
theorem atLeast_of_stepWait {s : MacSystem} {w : Wait} {a : WaitStep} {phase : WaitPhase}
    {n : ℕ} (hn : n ≤ s.container.run) (hw : w.phase.AtLeast n)
    (h : s.stepWait w a = some phase) : phase.AtLeast n := by
  cases a with
  | request =>
      rw [stepWait] at h
      split at h
      · obtain rfl := Option.some.inj h
        exact hn
      · exact absurd h (by simp)
  | answer run =>
      rw [stepWait] at h
      split at h
      · next since hphase =>
          split at h
          · next hle =>
              obtain ⟨code, -, rfl⟩ := Option.map_eq_some_iff.mp h
              rw [hphase, WaitPhase.AtLeast] at hw
              exact Nat.le_trans hw hle
          · exact absurd h (by simp)
      · exact absurd h (by simp)
  | fail =>
      rw [stepWait] at h
      split at h
      · obtain rfl := Option.some.inj h
        exact trivial
      · obtain rfl := Option.some.inj h
        exact trivial
      · exact absurd h (by simp)
  | store => exact absurd h (by simp [stepWait])

/-- An answer is the exit code of its run. Only the answer makes one, and it is read from
the exits of the container. -/
theorem exits_of_stepWait {s : MacSystem} {w : Wait} {a : WaitStep} {run : ℕ} {code : Int}
    (h : s.stepWait w a = some (.answered run code)) : s.container.exits run = some code := by
  cases a with
  | request =>
      rw [stepWait] at h
      split at h
      · exact absurd h (by simp)
      · exact absurd h (by simp)
  | answer run' =>
      rw [stepWait] at h
      split at h
      · split at h
        · obtain ⟨code', hexits, heq⟩ := Option.map_eq_some_iff.mp h
          obtain ⟨rfl, rfl⟩ := WaitPhase.answered.inj heq
          exact hexits
        · exact absurd h (by simp)
      · exact absurd h (by simp)
  | fail =>
      rw [stepWait] at h
      split at h <;> exact absurd h (by simp)
  | store => exact absurd h (by simp [stepWait])

/-- A wait keeps its bounds: it is answered with a run that was not over when it asked,
and with the code of that run. -/
theorem WaitOk.of_stepWait {s : MacSystem} {w : Wait} {a : WaitStep} {phase : WaitPhase}
    (hw : s.WaitOk w) (h : s.stepWait w a = some phase) : s.WaitOk { w with phase } := by
  refine ⟨hw.generation, hw.epoch_le, ?_, ?_⟩
  · intro hepoch hbumped
    exact atLeast_of_stepWait (Nat.le_refl _) (hw.current hepoch hbumped) h
  · intro run code hphase
    obtain rfl : phase = .answered run code := hphase
    exact exits_of_stepWait h

/-- A wait that has finished keeps its bounds. -/
theorem WaitOk.finished {s : MacSystem} {w : Wait} (hw : s.WaitOk w) :
    s.WaitOk { w with phase := .finished } :=
  ⟨hw.generation, hw.epoch_le, fun _ _ => trivial, fun _ _ h => absurd h (by simp)⟩

/-- A wait that is not begun has nothing to report. -/
theorem waitOk_requesting {s : MacSystem} {epoch : ℕ} {generation : UInt64}
    (hgeneration : generation = UInt64.ofNat epoch) (hepoch : epoch ≤ s.bumps) :
    s.WaitOk { generation, epoch, phase := .requesting } :=
  ⟨hgeneration, hepoch, fun _ _ => trivial, fun _ _ h => absurd h (by simp)⟩

/-- `s'` comes after `s`: bumps and runs are only ever added, exit codes stay, and without a
bump only the latest run at `s` can be one that a bump follows. -/
structure Later (s s' : MacSystem) : Prop where
  bumps : s.bumps ≤ s'.bumps
  run : s.container.run ≤ s'.container.run
  exits : ∀ run code, s.container.exits run = some code → s'.container.exits run = some code
  current : s'.bumps = s.bumps → s'.bumped = true →
    s.bumped = true ∧ s'.container.run = s.container.run

/-- A state after which the same runs are known and no further bump has been made. -/
theorem later_of_eq {s s' : MacSystem} (hcontainer : s'.container = s.container)
    (hbumps : s'.bumps = s.bumps) (hbumped : s'.bumped = s.bumped) : s.Later s' := by
  refine ⟨Nat.le_of_eq hbumps.symm, Nat.le_of_eq ?_, ?_, fun _ h => ⟨hbumped ▸ h, ?_⟩⟩
  · rw [hcontainer]
  · intro run code h
    rw [hcontainer]
    exact h
  · rw [hcontainer]

/-- Wherever the system goes, what a wait can report stays within its bounds. -/
theorem WaitOk.later {s s' : MacSystem} {w : Wait} (hw : s.WaitOk w) (h : s.Later s') :
    s'.WaitOk w := by
  refine ⟨hw.generation, Nat.le_trans hw.epoch_le h.bumps, ?_,
    fun run code hphase => h.exits run code (hw.answered run code hphase)⟩
  intro hepoch hbumped
  have hle := hw.epoch_le
  have hge := h.bumps
  obtain ⟨hbumped', hrun⟩ := h.current (by omega) hbumped
  rw [hrun]
  exact hw.current (by omega) hbumped'

/-- The exit of the process comes after: only the running run gets a code. -/
theorem later_exit {s : MacSystem} (h : s.container.Ok) (hrunning : s.container.running = true)
    (code : Int) : s.Later { s with container := s.container.exit code } :=
  ⟨Nat.le_refl _, Nat.le_refl _, fun _ _ hexits => h.exits_exit hrunning code hexits,
    fun _ hbumped => ⟨hbumped, rfl⟩⟩

/-- The start of the process comes after: its run has no code yet, and no bump follows
it. -/
theorem later_start (s : MacSystem) (i : ℕ) (pc : MacStartPc) :
    s.Later (goto { s with
      container := s.container.start
      bumped := s.bumped && s.container.running } i pc) := by
  refine ⟨Nat.le_refl _, ?_, ?_, ?_⟩
  · change s.container.run ≤ s.container.start.run
    rw [DaemonContainer.start]
    split
    · exact Nat.le_refl _
    · exact Nat.le_succ _
  · intro run code h
    exact (congrFun (DaemonContainer.exits_start _) run).trans h
  · intro _ h
    obtain ⟨hbumped, hrunning⟩ := Bool.and_eq_true_iff.mp h
    refine ⟨hbumped, ?_⟩
    change s.container.start.run = s.container.run
    rw [DaemonContainer.start, if_pos hrunning]

/-- The bump comes after: it follows the latest run. -/
theorem later_bump (s : MacSystem) (waitState : WaitState) (waiters : List Wait) (i : ℕ)
    (pc : MacStartPc) :
    s.Later (goto { s with waitState, bumps := s.bumps + 1, bumped := true, waiters } i pc) :=
  ⟨Nat.le_succ _, Nat.le_refl _, fun _ _ h => h,
    fun h => absurd h (Nat.succ_ne_self s.bumps)⟩

/-! ### The cell and the calls -/

/-- The cell counts the bumps, and in the period of a run it holds no code but this run's.
Every wait keeps its bounds; one made by a call reports no run before the period in which
the call began, and a call within one period has returned no code but this run's. -/
structure MacInv (s : MacSystem) : Prop where
  container : s.container.Ok
  generation : s.waitState.generation = UInt64.ofNat s.bumps
  cell : s.bumped = true → ∀ code, s.waitState.exitCode = some code →
    s.container.exits s.container.run = some code
  waiters : ∀ w ∈ s.waiters, s.WaitOk w
  began : ∀ i run, (s.calls i).began = some run → run ≤ s.container.run
  waits : ∀ i began w, s.calls i = .wait began w →
    s.WaitOk w ∧ ∀ run, began = some run → w.phase.AtLeast run
  returned : ∀ i run code, s.calls i = .returned (.ok (some code)) (some run) (some run) →
    s.container.exits run = some code

/-- In the beginning there is no code, no waiter and no call. -/
theorem macInv_init : init.MacInv := by
  refine ⟨DaemonContainer.ok_new, rfl, ?_, ?_, ?_, ?_, ?_⟩
  · intro _ code h
    exact absurd h (by simp [init, WaitState.new])
  · intro w hw
    rw [init, List.mem_singleton] at hw
    subst hw
    exact waitOk_requesting rfl (Nat.le_refl _)
  · intro i run h
    exact absurd h (by simp [init, ExitCodePc.began])
  · intro i began w h
    exact absurd h (by simp [init])
  · intro i run code h
    exact absurd h (by simp [init])

/-- A step after which cell and parties are as before keeps what is known of them. Exit
codes stay, so what has been stored, answered or returned is still true. -/
theorem MacInv.later {s s' : MacSystem} (h : s.MacInv) (hlater : s.Later s')
    (hcontainer : s'.container.Ok) (hwaitState : s'.waitState = s.waitState)
    (hbumps : s'.bumps = s.bumps) (hwaiters : s'.waiters = s.waiters)
    (hcalls : s'.calls = s.calls) : s'.MacInv := by
  refine ⟨hcontainer, ?_, ?_, ?_, ?_, ?_, ?_⟩
  · rw [hwaitState, hbumps, h.generation]
  · intro hbumped code hcell
    obtain ⟨hbumped', hrun⟩ := hlater.current hbumps hbumped
    rw [hwaitState] at hcell
    rw [hrun]
    exact hlater.exits _ _ (h.cell hbumped' code hcell)
  · intro w hw
    rw [hwaiters] at hw
    exact (h.waiters w hw).later hlater
  · intro i run hbegan
    rw [hcalls] at hbegan
    exact Nat.le_trans (h.began i run hbegan) hlater.run
  · intro i began w hcall
    rw [hcalls] at hcall
    obtain ⟨hok, hge⟩ := h.waits i began w hcall
    exact ⟨hok.later hlater, hge⟩
  · intro i run code hcall
    rw [hcalls] at hcall
    exact hlater.exits _ _ (h.returned i run code hcall)

/-- A background waiter that is moved on within its bounds. -/
theorem MacInv.advance {s : MacSystem} (h : s.MacInv) {w : Wait} {phase : WaitPhase}
    (hw : s.WaitOk { w with phase }) (i : ℕ) : (s.advance i w phase).MacInv := by
  have hlater : s.Later (s.advance i w phase) := later_of_eq rfl rfl rfl
  refine ⟨h.container, h.generation, h.cell, ?_, h.began, ?_, h.returned⟩
  · intro w' hw'
    rcases List.mem_or_eq_of_mem_set hw' with hmem | rfl
    · exact (h.waiters w' hmem).later hlater
    · exact hw.later hlater
  · intro j began w' hcall
    obtain ⟨hok, hge⟩ := h.waits j began w' hcall
    exact ⟨hok.later hlater, hge⟩

/-- A call of `exit_code` that is moved on: its beginning is no later run's, its wait stays
within its bounds, and the code it returns within a period is the run's. -/
theorem MacInv.gotoCall {s : MacSystem} (h : s.MacInv) {i : ℕ} {pc : ExitCodePc}
    (hbegan : ∀ run, pc.began = some run → run ≤ s.container.run)
    (hwait : ∀ began w, pc = .wait began w →
      s.WaitOk w ∧ ∀ run, began = some run → w.phase.AtLeast run)
    (hreturned : ∀ run code, pc = .returned (.ok (some code)) (some run) (some run) →
      s.container.exits run = some code) : (s.gotoCall i pc).MacInv := by
  have hlater : s.Later (s.gotoCall i pc) := later_of_eq rfl rfl rfl
  have hcalls : ∀ j, (s.gotoCall i pc).calls j = if j = i then pc else s.calls j := by
    intro j
    exact Function.update_apply s.calls i pc j
  refine ⟨h.container, h.generation, h.cell, fun w hw => (h.waiters w hw).later hlater, ?_, ?_, ?_⟩
  · intro j run
    rw [hcalls]
    split
    · exact hbegan run
    · exact h.began j run
  · intro j began w
    rw [hcalls]
    intro hcall
    obtain ⟨hok, hge⟩ : s.WaitOk w ∧ ∀ run, began = some run → w.phase.AtLeast run := by
      split at hcall
      · exact hwait began w hcall
      · exact h.waits j began w hcall
    exact ⟨hok.later hlater, hge⟩
  · intro j run code
    rw [hcalls]
    split
    · exact hreturned run code
    · exact h.returned j run code

/-- A period is the latest run's. -/
theorem period_eq_some {s : MacSystem} {run : ℕ} :
    s.period = some run ↔ s.bumped = true ∧ s.container.run = run := by
  rw [period]
  cases s.bumped <;> simp

/-- Equal generations are equal epochs as long as the counter has not wrapped. -/
theorem MacInv.epoch_eq {s : MacSystem} (h : s.MacInv) {w : Wait} (hw : s.WaitOk w)
    (hbumps : s.bumps < 2 ^ 64) (hgeneration : s.waitState.generation = w.generation) :
    w.epoch = s.bumps := by
  have hle := hw.epoch_le
  rw [h.generation, hw.generation] at hgeneration
  have heq := congrArg UInt64.toNat hgeneration
  rw [UInt64.toNat_ofNat_of_lt' hbumps,
    UInt64.toNat_ofNat_of_lt' (Nat.lt_of_le_of_lt hle hbumps)] at heq
  exact heq.symm

/-- Storing the answer of a wait: in the period of a run the wait that still holds the
current generation has waited for this run. -/
theorem MacInv.store {s : MacSystem} (h : s.MacInv) {w : Wait} {run : ℕ} {code : Int}
    (hw : s.WaitOk w) (hphase : w.phase = .answered run code) (hbumps : s.bumps < 2 ^ 64) :
    MacInv { s with waitState := (s.waitState.storeIfCurrent w.generation code).1 } := by
  have hlater : s.Later { s with
      waitState := (s.waitState.storeIfCurrent w.generation code).1 } := later_of_eq rfl rfl rfl
  refine ⟨h.container, ?_, ?_, fun w' hw' => (h.waiters w' hw').later hlater, h.began, ?_,
    h.returned⟩
  · rw [WaitState.storeIfCurrent_generation, h.generation]
  · intro hbumped code' hcell
    rw [WaitState.storeIfCurrent_exitCode] at hcell
    split at hcell
    · next hgeneration =>
        obtain rfl := Option.some.inj hcell
        exact hw.exits_run h.container hphase (h.epoch_eq hw hbumps hgeneration) hbumped
    · exact h.cell hbumped code' hcell
  · intro j began w' hcall
    obtain ⟨hok, hge⟩ := h.waits j began w' hcall
    exact ⟨hok.later hlater, hge⟩

/-- The bump empties the cell and leaves every wait captured before behind. The new waiter
has the new generation; the older ones keep their bounds. -/
theorem MacInv.bump {s : MacSystem} (h : s.MacInv) (i : ℕ) (pc : MacStartPc) :
    (goto { s with
      waitState := s.waitState.bump
      bumps := s.bumps + 1
      bumped := true
      waiters := s.waiters ++
        [Wait.mk s.waitState.bump.generation (s.bumps + 1) .requesting] } i pc).MacInv := by
  have hgeneration : s.waitState.bump.generation = UInt64.ofNat (s.bumps + 1) := by
    rw [WaitState.generation_bump, h.generation, UInt64.ofNat_add]
    rfl
  refine ⟨h.container, hgeneration, fun _ code hcell => absurd hcell (by simp [goto]), ?_, h.began,
    ?_, h.returned⟩
  · intro w hw
    rcases List.mem_append.mp hw with hmem | hmem
    · exact (h.waiters w hmem).later (later_bump ..)
    · obtain rfl := List.mem_singleton.mp hmem
      exact waitOk_requesting hgeneration (Nat.le_refl _)
  · intro j began w hcall
    obtain ⟨hok, hge⟩ := h.waits j began w hcall
    exact ⟨hok.later (later_bump ..), hge⟩

/-- **The step lemma**, as long as the counter has not wrapped. One case for each
transition. The bound is needed where a wait compares its generation with that of the
cell: without it, an old one could be equal again. -/
theorem MacInv.of_step {s s' : MacSystem} {a : MacAction} (h : s.MacInv)
    (hbumps : s.bumps < 2 ^ 64) (hs : s.step a = some s') : s'.MacInv := by
  have hperiod : ∀ run, s.period = some run → run ≤ s.container.run := by
    intro run hrun
    exact Nat.le_of_eq (period_eq_some.mp hrun).2.symm
  cases transition_of_step hs with
  | exited code hrunning =>
      exact h.later (later_exit h.container hrunning code) (h.container.exit code) rfl rfl rfl rfl
  | moved i pc => exact h.later (later_of_eq rfl rfl rfl) h.container rfl rfl rfl rfl
  | started i pc => exact h.later (later_start s i pc) h.container.start rfl rfl rfl rfl
  | bumped i pc => exact h.bump i pc
  | waited hw hphase =>
      exact h.advance ((h.waiters _ (List.mem_of_getElem? hw)).of_stepWait hphase) _
  | stored hw hphase =>
      have hok := h.waiters _ (List.mem_of_getElem? hw)
      exact (h.store hok hphase hbumps).advance (hok.finished.later (later_of_eq rfl rfl rfl)) _
  | movedCall i pc hwait hreturned hbegan =>
      refine h.gotoCall ?_ (fun began w hpc => absurd hpc (hwait began w))
        (fun run code hpc => absurd hpc (hreturned code _ _))
      intro run hrun
      rcases hbegan with heq | heq
      · exact hperiod run (heq ▸ hrun)
      · exact h.began i run (heq ▸ hrun)
  | @returnedCached i began code hbegan hcell =>
      refine h.gotoCall (fun run hrun => h.began i run (hbegan.trans hrun))
        (fun _ _ hpc => absurd hpc (by simp)) ?_
      intro run code' hpc
      obtain ⟨hcode, -, hended⟩ := ExitCodePc.returned.inj hpc
      obtain rfl : code = code' := by simpa using hcode
      obtain ⟨hbumped, rfl⟩ := period_eq_some.mp hended
      exact h.cell hbumped code hcell
  | @captured i began hbegan =>
      refine h.gotoCall (fun run hrun => h.began i run (hbegan.trans hrun)) ?_
        (fun _ _ hpc => absurd hpc (by simp))
      intro began' w hpc
      obtain ⟨-, rfl⟩ := ExitCodePc.wait.inj hpc
      exact ⟨waitOk_requesting h.generation (Nat.le_refl _), fun _ _ => trivial⟩
  | @waitedCall i began w a phase hcall hphase =>
      have hbegan : (s.calls i).began = began := by rw [hcall, ExitCodePc.began]
      obtain ⟨hok, hge⟩ := h.waits i began w hcall
      refine h.gotoCall (fun run hrun => h.began i run (hbegan.trans hrun)) ?_
        (fun _ _ hpc => absurd hpc (by simp))
      intro began' w' hpc
      obtain ⟨rfl, rfl⟩ := ExitCodePc.wait.inj hpc
      refine ⟨hok.of_stepWait hphase, ?_⟩
      intro run hrun
      exact atLeast_of_stepWait (h.began i run (hbegan.trans hrun)) (hge run hrun) hphase
  | @storedCall i began w run code hcall hphase =>
      have hbegan : (s.calls i).began = began := by rw [hcall, ExitCodePc.began]
      obtain ⟨hok, hge⟩ := h.waits i began w hcall
      refine (h.store hok hphase hbumps).gotoCall
        (fun run hrun => h.began i run (hbegan.trans hrun)) (fun _ _ hpc => absurd hpc (by simp)) ?_
      intro run' code' hpc
      obtain ⟨hvalue, hrun', hended⟩ := ExitCodePc.returned.inj hpc
      obtain rfl : code = code' := by
        rw [WaitState.storeIfCurrent_stored] at hvalue
        split at hvalue
        · simpa using hvalue
        · simp at hvalue
      have hexits := hok.answered run code hphase
      have hle := h.container.le_run hexits
      have hfrom := hge run' hrun'
      rw [hphase, WaitPhase.AtLeast] at hfrom
      obtain ⟨-, hlatest⟩ := period_eq_some.mp hended
      obtain rfl : run = run' := by omega
      exact hexits

/-- The number of bumps never falls. -/
theorem bumps_le_of_step {s s' : MacSystem} {a : MacAction} (hs : s.step a = some s') :
    s.bumps ≤ s'.bumps := by
  cases transition_of_step hs with
  | bumped => exact Nat.le_succ _
  | _ => exact Nat.le_refl _

/-- What is known of cell and parties holds throughout a run with fewer than `2 ^ 64`
bumps. -/
theorem always_macInv {acts : List MacAction} {s : MacSystem}
    (hrun : Runs.run step init acts = some s) (hbumps : s.bumps < 2 ^ 64) :
    Runs.Always step init acts MacInv := by
  have hfew : Runs.Always step init acts fun t => t.bumps < 2 ^ 64 :=
    Runs.always_of_final (fun _ _ _ hs ht => Nat.lt_of_le_of_lt (bumps_le_of_step hs) ht)
      hrun hbumps
  exact Runs.always_of_stepsMeet (fun _ _ _ hlt hinv hs _ => hinv.of_step hlt hs)
    hfew macInv_init hrun hfew.stepsMeet

/-- In every run of the system with fewer than `2 ^ 64` bumps: in the period of a run the
cell is empty or holds this run's exit code, and a call of `exit_code` that has begun and
ended within the period has returned the error of its state request, `None`, or this run's
exit code. -/
theorem exit_code_of_current_run {acts : List MacAction} {s : MacSystem}
    (hrun : Runs.run step init acts = some s) (hbumps : s.bumps < 2 ^ 64) :
    Runs.Always step init acts fun t =>
      (∀ run, t.period = some run →
        t.waitState.exitCode = none ∨
          ∃ code, t.container.exits run = some code ∧ t.waitState.exitCode = some code) ∧
      ∀ i run value, t.calls i = .returned value (some run) (some run) →
        value = .error () ∨ value = .ok none ∨
          ∃ code, t.container.exits run = some code ∧ value = .ok (some code) := by
  intro pre post t hsplit hpre
  have hinv := always_macInv hrun hbumps pre post t hsplit hpre
  constructor
  · intro run hperiod
    obtain ⟨hbumped, rfl⟩ := period_eq_some.mp hperiod
    cases hcell : t.waitState.exitCode with
    | none => exact .inl rfl
    | some code => exact .inr ⟨code, hinv.cell hbumped code hcell, rfl⟩
  · intro i run value hcall
    cases value with
    | error => exact .inl rfl
    | ok found =>
        cases found with
        | none => exact .inr (.inl rfl)
        | some code => exact .inr (.inr ⟨code, hinv.returned i run code hcall, rfl⟩)

/-- Run 1 ends with 1 and the container is restarted; run 2 ends with 2, and only then the
waiter of run 1 stores its code, in vain. The call of `exit_code` made meanwhile returns 2. -/
def staleWaiter : List MacAction :=
  [.waiter 0 .request, .exit 1,
    .start 0 .call, .start 0 (.containerState true), .start 0 (.bootstrapContainer true),
    .start 0 (.startProcess true), .start 0 .resetWaitState,
    .start 0 (.refreshLogStreams true), .exit 2,
    .exitCode 0 .call, .exitCode 0 .readCache, .exitCode 0 (.containerState true),
    .exitCode 0 .generation, .exitCode 0 (.wait .request),
    .waiter 0 (.answer 1), .waiter 0 .store,
    .exitCode 0 (.wait (.answer 2)), .exitCode 0 (.wait .store)]

/-- The code of run 1 is neither stored nor returned once run 2 has begun. -/
theorem exit_code_of_current_run_staleWaiter :
    ∃ s, Runs.run step init staleWaiter = some s ∧ s.period = some 2 ∧
      s.waitState.exitCode = some 2 ∧ s.container.exits 2 = some 2 ∧
      s.calls 0 = .returned (.ok (some 2)) (some 2) (some 2) ∧
      ((∀ run, s.period = some run →
        s.waitState.exitCode = none ∨
          ∃ code, s.container.exits run = some code ∧ s.waitState.exitCode = some code) ∧
      ∀ i run value, s.calls i = .returned value (some run) (some run) →
        value = .error () ∨ value = .ok none ∨
          ∃ code, s.container.exits run = some code ∧ value = .ok (some code)) := by
  obtain ⟨s, hrun⟩ : ∃ s, Runs.run step init staleWaiter = some s := ⟨_, rfl⟩
  have hend := hrun
  obtain rfl : _ = s := Option.some.inj hend
  exact ⟨_, hrun, rfl, rfl, rfl, rfl,
    (exit_code_of_current_run hrun (by decide)).final hrun⟩

end MacSystem

end ContainerRs
