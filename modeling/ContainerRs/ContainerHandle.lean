import ContainerRs.ExecEnv
import ContainerRs.WaitObservations

/-!
# The Handle of a Container

What `ContainerAsync` (async_container.rs) does with a running container: running commands in it
(`exec`), removing it (`rm`, `rm_blocking` and the removal in `Drop`), and the steps of
`run_ready_sequence` (async_runner.rs), which both runners end with.

A handle is dropped where its owner ends. `rm` consumes the handle, so it is dropped at the end of
`rm` whether or not the removal has worked.

## Main results

* `exec_runs`: what a command has been given and what is known of its output.
* `runs_readySequence`: what is known of a container that has got ready.
-/

namespace ContainerRs

open Programs Program Occurrences

/-! ### Commands -/

/-- The condition on a command that has ended. -/
inductive CmdWaitFor
  | nothing
  | stdOutMessage (message : Bytes)
  | stdErrMessage (message : Bytes)
  | duration (length : Duration)
  | exit (code : Option Int)
  deriving DecidableEq, Repr

/-- A command to be run in a container. -/
structure ExecCommand where
  cmd : List Text
  cmdReadyCondition : CmdWaitFor
  containerReadyConditions : List WaitFor
  envVars : SortedMap Text Text

/-- What is shown to the hooks of an image. -/
structure ContainerState where
  id : Text
  host : Text
  ports : Ports

/-- The hooks of an image: the commands to be run before and after a container is ready. -/
structure ImageHooks where
  execBeforeReady : ContainerState → Except Error (List ExecCommand)
  execAfterStart : ContainerState → Except Error (List ExecCommand)

/-- The handle of a container. -/
structure ContainerAsync where
  platform : Platform
  id : Text
  /-- The variables of the image and of the request. -/
  envVars : List (Text × Text)
  startupTimeout : Option Duration
  hasLogSource : Bool
  hooks : ImageHooks

/-- What the code around a handle depends on: the HTTP library, how bytes are shown as text, what
is to happen to containers in the end, and whether there is a runtime. -/
structure Surroundings where
  library : HttpLibrary
  fromUtf8Lossy : Bytes → Text
  command : Command
  inRuntime : Bool

/-- How long a container is given to get ready, unless the request says. -/
def defaultStartupTimeout : Duration := .fromSecs 60

/-- Does a byte string occur in another? -/
def containsBytes (haystack needle : Bytes) : Bool :=
  needle.isEmpty || (windows needle.length haystack).any fun w => w = needle

namespace CmdWaitFor

/-- What the output and the exit code of a command mean. -/
def check (surroundings : Surroundings) (raw : RawExec) : CmdWaitFor → Except Error Unit
  | stdOutMessage message =>
      if containsBytes raw.stdout message then .ok ()
      else .error (.other ("expected message not found in stdout: ".toList ++
        surroundings.fromUtf8Lossy message))
  | stdErrMessage message =>
      if containsBytes raw.stderr message then .ok ()
      else .error (.other ("expected message not found in stderr: ".toList ++
        surroundings.fromUtf8Lossy message))
  | exit none => .ok ()
  | exit (some code) =>
      match raw.exitCode with
      | some actual => if actual ≠ code then .error (.exec code actual) else .ok ()
      | none =>
          .error (.other "exec exit code is unavailable, cannot verify expected exit code".toList)
  | duration _ => .ok ()
  | nothing => .ok ()

/-- How long is waited behind a command. -/
def pause : CmdWaitFor → Task Unit
  | duration length => ask (.sleep length)
  | _ => pure ()

end CmdWaitFor

section Handle

variable (surroundings : Surroundings) (c : ContainerAsync)

/-- Run the command itself, in the environment that it has on the platform. -/
def runCommand (cmd : ExecCommand) : Fallible RawExec :=
  match c.platform with
  | .macos => attempt (ask (.exec c.id cmd.cmd (macExecEnv c.envVars cmd.envVars.entries)))
  | .linux =>
      if cmd.envVars.entries.isEmpty then attempt (ask (.exec c.id cmd.cmd []))
      else do
        let containerEnv ← attempt (ask (.containerEnv c.id))
        attempt (ask (.exec c.id cmd.cmd (linuxExecEnv containerEnv cmd.envVars.entries)))

/-- Run a command and wait for its conditions. A wait for a message is refused where there is no
log, for it would never end. -/
def exec (cmd : ExecCommand) : Fallible RawExec :=
  if !c.hasLogSource && readyConditionsRequireLog cmd.containerReadyConditions then
    throw (.other "log wait requires a log source, but none is available".toList)
  else do
    let raw ← runCommand c cmd
    attempt (timeout c.platform surroundings.library c.id
      (c.startupTimeout.getD defaultStartupTimeout) cmd.containerReadyConditions)
    liftExcept (cmd.cmdReadyCondition.check surroundings raw)
    ExceptT.lift cmd.cmdReadyCondition.pause
    return raw

/-- Run commands one after the other. -/
def execAll : List ExecCommand → Fallible Unit
  | [] => pure ()
  | cmd :: cmds => do
      let _ ← exec surroundings c cmd
      execAll cmds

/-- The state of a container. -/
def containerState : Fallible ContainerState := do
  let state ← attempt (ask (.containerState c.id))
  return { id := c.id, host := containerHost, ports := state.ports }

/-! ### Removal -/

/-- Outside of a runtime, the log tasks are given a second. -/
def awaitLogTasks (id : Text) : Task Unit := do
  let _ ← iterate (fun _ : Unit => do
    if ← ask (.logTasksDone id) then return .inr ()
    else
      ask (.sleep (.fromMillis 50))
      return .inl ()) 20 ()

/-- What happens to the log of a handle that is dropped. -/
def dropLogs : Task Unit := do
  ask (.stopLogDelivery c.id)
  match c.platform with
  | .macos => if c.hasLogSource then ask (.closeLogs c.id) else pure ()
  | .linux =>
      if c.hasLogSource && !surroundings.inRuntime then awaitLogTasks c.id else pure ()

/-- A handle is dropped; `dropped` says that its container has been removed. That the removal has
failed is only logged. -/
def dropContainer (dropped : Bool) : Task Unit := do
  dropLogs surroundings c
  if dropped then pure ()
  else
    match surroundings.command with
    | .keep => pure ()
    | .remove =>
        let _ ← ask (.removeBlocking c.id true)

/-- Remove a container; the handle is dropped behind that. -/
def rm : Task (Except Error Unit) := do
  ask (.stopLogDelivery c.id)
  let result ← ask (.remove c.id true)
  dropContainer surroundings c (result matches .ok ())
  return result

/-- Removal of a container that has no handle yet. That it has failed is only logged. -/
def rollbackRemove (id : Text) : Task Unit :=
  match surroundings.command with
  | .keep => pure ()
  | .remove => do
      let _ ← ask (.remove id true)

/-! ### Getting ready -/

/-- Remove a container that has not become ready, unless containers are to be kept. -/
def cleanupOnReadyFailure (error : Error) : Task (Except Error ContainerAsync) := do
  match surroundings.command with
  | .remove =>
      let _ ← rm surroundings c
  | .keep => dropContainer surroundings c false
  return .error error

/-- The commands before readiness, the conditions under the timer, the commands behind it. -/
def readySequence (readyConditions : List WaitFor) : Fallible Unit := do
  let state ← containerState c
  let before ← liftExcept (c.hooks.execBeforeReady state)
  execAll surroundings c before
  attempt (timeout c.platform surroundings.library c.id
    (c.startupTimeout.getD defaultStartupTimeout) readyConditions)
  let state ← containerState c
  let after ← liftExcept (c.hooks.execAfterStart state)
  execAll surroundings c after

/-- The ready sequence; if it fails the container is removed. -/
def runReadySequence (readyConditions : List WaitFor) : Task (Except Error ContainerAsync) := do
  match ← (readySequence surroundings c readyConditions).run with
  | .ok () => return .ok c
  | .error e => cleanupOnReadyFailure surroundings c e

end Handle

/-! ### The runs of a command -/

/-- The calls that run a command, with its result: on macOS the environment is that of the
container and of the command, on Linux it is left out unless the command has variables. -/
inductive CommandRuns (c : ContainerAsync) (cmd : ExecCommand) :
    Trace → Except Error RawExec → Prop
  | macos (h : c.platform = .macos) (reply : Except Error RawExec) :
      CommandRuns c cmd [⟨.exec c.id cmd.cmd (foldEnv c.envVars cmd.envVars.entries), reply⟩] reply
  | inherited (h : c.platform = .linux) (hvars : cmd.envVars.entries = [])
      (reply : Except Error RawExec) :
      CommandRuns c cmd [⟨.exec c.id cmd.cmd [], reply⟩] reply
  | merged (h : c.platform = .linux) (hvars : cmd.envVars.entries ≠ []) (env : List Text)
      (reply : Except Error RawExec) :
      CommandRuns c cmd [⟨.containerEnv c.id, .ok env⟩,
        ⟨.exec c.id cmd.cmd (foldEnv (env.filterMap (splitOnce '=')) cmd.envVars.entries), reply⟩]
        reply
  | unknown (h : c.platform = .linux) (hvars : cmd.envVars.entries ≠ []) (e : Error) :
      CommandRuns c cmd [⟨.containerEnv c.id, .error e⟩] (.error e)

/-- **Every run of the command** is one of these: the environment is asked for on Linux
alone, and a failure to get it ends the run. -/
theorem commandRuns_of_runs {c : ContainerAsync} {cmd : ExecCommand} {tr : Trace}
    {r : Except Error RawExec} (h : Runs (runCommand c cmd).run tr r) : CommandRuns c cmd tr r := by
  rw [runCommand] at h
  cases hplatform : c.platform with
  | macos =>
      rw [hplatform] at h
      obtain rfl := runs_request.mp h
      exact .macos hplatform r
  | linux =>
      rw [hplatform] at h
      by_cases hvars : cmd.envVars.entries = []
      · rw [hvars] at h
        obtain rfl := runs_request.mp h
        exact .inherited hplatform hvars r
      · have hempty : cmd.envVars.entries.isEmpty = false := by simpa using hvars
        simp only [hempty, Bool.false_eq_true, if_false] at h
        obtain ⟨env, rest, rfl, hrest⟩ := runs_request_bind.mp h
        cases env with
        | error e =>
            obtain ⟨rfl, rfl⟩ := runs_pure.mp hrest
            exact .unknown hplatform hvars e
        | ok env =>
            obtain rfl := runs_request.mp hrest
            rw [linuxExecEnv, if_neg hvars]
            exact .merged hplatform hvars env r

/-- A command that has not failed was run, and has passed its check. -/
theorem runs_exec_ok {surroundings : Surroundings} {c : ContainerAsync} {cmd : ExecCommand}
    {tr : Trace} {raw : RawExec} (h : Runs (exec surroundings c cmd).run tr (.ok raw)) :
    ∃ front rest, tr = front ++ rest ∧ CommandRuns c cmd front (.ok raw) ∧
      cmd.cmdReadyCondition.check surroundings raw = .ok () := by
  rw [exec] at h
  split at h
  · exact nomatch (runs_pure.mp h).2
  · obtain ⟨output, front, rest, rfl, hcmd, h₁⟩ := runs_ok_bind.mp h
    obtain ⟨⟨⟩, waits, rest₁, rfl, -, h₂⟩ := runs_ok_bind.mp h₁
    obtain ⟨⟨⟩, tr₂, rest₂, rfl, hcheck, h₃⟩ := runs_ok_bind.mp h₂
    obtain ⟨⟨⟩, pause, rest₃, rfl, -, h₄⟩ := runs_ok_bind.mp h₃
    obtain rfl := Except.ok.inj (runs_pure.mp h₄).2
    exact ⟨front, _, rfl, commandRuns_of_runs hcmd, (runs_pure.mp hcheck).2⟩

/-- How a command ends that is not refused. -/
inductive ExecRuns (surroundings : Surroundings) (c : ContainerAsync) (cmd : ExecCommand) :
    Trace → Except Error RawExec → Prop
  | failed {front : Trace} {e : Error} (hcmd : CommandRuns c cmd front (.error e)) :
      ExecRuns surroundings c cmd front (.error e)
  /-- The command has run, but the container is not ready behind it. -/
  | notReady {front waits : Trace} {raw : RawExec} {awaits : ℕ} {e : Error}
      (hcmd : CommandRuns c cmd front (.ok raw)) (htime : waits.length ≤ awaits)
      (hwaits : ObservedAll c.platform surroundings.library c.id cmd.containerReadyConditions waits
          (.error e) ∨
        waits.length = awaits ∧ e = .waitContainer
          (.startupTimeout c.id (c.startupTimeout.getD defaultStartupTimeout))) :
      ExecRuns surroundings c cmd
        (front ++ ⟨.timer (c.startupTimeout.getD defaultStartupTimeout), awaits⟩ :: waits)
        (.error e)
  /-- The output or the exit code is not as expected. -/
  | unmet {front waits : Trace} {raw : RawExec} {awaits : ℕ} {e : Error}
      (hcmd : CommandRuns c cmd front (.ok raw)) (htime : waits.length ≤ awaits)
      (hwaits : ObservedAll c.platform surroundings.library c.id cmd.containerReadyConditions waits
        (.ok ()))
      (hcheck : cmd.cmdReadyCondition.check surroundings raw = .error e) :
      ExecRuns surroundings c cmd
        (front ++ ⟨.timer (c.startupTimeout.getD defaultStartupTimeout), awaits⟩ :: waits)
        (.error e)
  | done {front waits pause : Trace} {raw : RawExec} {awaits : ℕ}
      (hcmd : CommandRuns c cmd front (.ok raw)) (htime : waits.length ≤ awaits)
      (hwaits : ObservedAll c.platform surroundings.library c.id cmd.containerReadyConditions waits
        (.ok ()))
      (hcheck : cmd.cmdReadyCondition.check surroundings raw = .ok ())
      (hpause : Runs cmd.cmdReadyCondition.pause pause ()) :
      ExecRuns surroundings c cmd
        (front ++ ⟨.timer (c.startupTimeout.getD defaultStartupTimeout), awaits⟩ :: waits ++ pause)
        (.ok raw)

/-- **The runs of a command.** A command that waits for the log is refused without a call if
there is none. Any other is run in the environment of its platform, its conditions are waited for
under the timer, and only then is it looked at what it has printed and how it has ended. -/
theorem exec_runs (surroundings : Surroundings) (c : ContainerAsync) (cmd : ExecCommand)
    (tr : Trace) (r : Except Error RawExec) (h : Runs (exec surroundings c cmd).run tr r) :
    (c.hasLogSource = false ∧ readyConditionsRequireLog cmd.containerReadyConditions = true ∧
        tr = [] ∧ ∃ e, r = .error e) ∨
      (c.hasLogSource = true ∨
        readyConditionsRequireLog cmd.containerReadyConditions = false) ∧
        ExecRuns surroundings c cmd tr r := by
  rw [exec] at h
  split at h
  · next hrefused =>
      rw [Bool.and_eq_true, Bool.not_eq_true'] at hrefused
      obtain ⟨rfl, rfl⟩ := runs_pure.mp h
      exact .inl ⟨hrefused.1, hrefused.2, rfl, _, rfl⟩
  · next haccepted =>
      have hlog : c.hasLogSource = true ∨
          readyConditionsRequireLog cmd.containerReadyConditions = false := by
        cases hsource : c.hasLogSource with
        | true => exact .inl rfl
        | false => exact .inr (by simpa [hsource] using haccepted)
      refine .inr ⟨hlog, ?_⟩
      rcases runs_ebind.mp h with ⟨e, rfl, hcmd⟩ | ⟨raw, front, rest, rfl, hcmd, hwait⟩
      · exact .failed (commandRuns_of_runs hcmd)
      have hfront := commandRuns_of_runs hcmd
      rcases runs_ebind.mp hwait with ⟨e, rfl, htimeout⟩ | ⟨⟨⟩, tr₁, tr₂, rfl, htimeout, hcheck⟩
      · obtain ⟨awaits, waits, rfl, htime, hwaits⟩ := timeout_runs htimeout
        refine .notReady hfront htime (hwaits.imp id ?_)
        rintro ⟨hfired, he⟩
        exact ⟨hfired, Except.error.inj he⟩
      · obtain ⟨awaits, waits, rfl, htime, hwaits⟩ := timeout_runs htimeout
        have hready := hwaits.resolve_right fun hfired => nomatch hfired.2
        rcases runs_ebind.mp hcheck with ⟨e, rfl, hunmet⟩ | ⟨⟨⟩, tr₃, tr₄, rfl, hmet, hpause⟩
        · obtain ⟨rfl, herror⟩ := runs_pure.mp hunmet
          rw [List.append_nil]
          exact .unmet hfront htime hready herror
        · obtain ⟨rfl, hok⟩ := runs_pure.mp hmet
          rcases runs_ebind.mp hpause with ⟨e, rfl, hlift⟩ | ⟨⟨⟩, tr₅, tr₆, rfl, hlift, hdone⟩
          · obtain ⟨_, he, -⟩ := runs_lift.mp hlift
            exact nomatch he
          · obtain ⟨⟨⟩, -, hsleep⟩ := runs_lift.mp hlift
            obtain ⟨rfl, rfl⟩ := runs_pure.mp hdone
            rw [List.append_nil, List.nil_append, ← List.append_assoc]
            exact .done hfront htime hready hok hsleep

/-- A world in which every call does what it is for, and containers are called "c". -/
def obligingReply : (op : Call) → Reply op
  | .resolveImageDescriptor _ => .ok "sha256:0".toList
  | .pullImage _ _ => .ok ()
  | .containerState _ => .ok ⟨true, .empty⟩
  | .exec _ _ _ => .ok ⟨some 0, [111, 107], []⟩
  | .stop _ _ => .ok ()
  | .remove _ _ => .ok ()
  | .removeBlocking _ _ => .ok ()
  | .createContainer _ _ _ => .ok "c".toList
  | .copyTo _ _ _ => .ok ()
  | .startContainer _ => .ok ()
  | .spawnLogSession _ => .ok ()
  | .containerEnv _ => .ok ["PATH=/bin".toList]
  | .containerHealth _ => .ok ⟨true, some .healthy⟩
  | .contentGet _ => .ok []
  | .getDefaultKernel => .ok []
  | .resolveVolume _ => .ok ⟨"/v".toList, "ext4".toList⟩
  | .xpcCreate _ _ => .ok ()
  | .bootstrapContainer _ => .ok ()
  | .startProcess _ => .ok ()
  | .copyIn _ _ _ _ => .ok ()
  | .logs _ => .ok ()
  | .gatewayIpAddress _ => .ok "192.168.64.1".toList
  | .registerWatchdog _ => ()
  | .createCopyDataTemp => .ok [116]
  | .writeCopyDataTemp _ _ => .ok ()
  | .removeCopyDataTemp _ => ()
  | .spawnExitCodeWaiter _ => ()
  | .spawnLogConsumerTasks _ => ()
  | .stopLogDelivery _ => ()
  | .logTasksDone _ => true
  | .closeLogs _ => ()
  | .exitCodeHint _ => none
  | .exitCode _ => .ok (some 0)
  | .pollLogs _ source => ⟨.replicate source.readers .elapsed, List.length_replicate, false, 0⟩
  | .sendRequest _ _ _ => none
  | .sleep _ => ()
  | .timer _ => 10

/-- What surrounds the runner in it. -/
def surroundingsSample : Surroundings where
  library := lenientHttp
  fromUtf8Lossy := fun bytes => bytes.map fun b => Char.ofNat b.toNat
  command := .remove
  inRuntime := true

/-- A container on Linux. -/
def containerSample : ContainerAsync where
  platform := .linux
  id := "c".toList
  envVars := []
  startupTimeout := none
  hasLogSource := false
  hooks := ⟨fun _ => .ok [], fun _ => .ok []⟩

/-- A command that is to print "ok" in a container that is healthy. -/
def commandSample : ExecCommand where
  cmd := ["probe".toList]
  cmdReadyCondition := .stdOutMessage [111, 107]
  containerReadyConditions := [.healthcheck ⟨.fromSecs 1⟩]
  envVars := SortedMap.empty.insert "LEVEL".toList "1".toList

/-- The command is run in the environment of the container, and its condition is observed. -/
theorem exec_runs_sample :
    ∃ tr raw, ExecRuns surroundingsSample containerSample commandSample tr (.ok raw) ∧
      tr.length = 4 := by
  have hrun := runs_answerWith (fun _ => obligingReply)
    (exec surroundingsSample containerSample commandSample).run []
  rcases exec_runs surroundingsSample containerSample commandSample _ _ hrun with
    ⟨-, hlog, -⟩ | ⟨-, hruns⟩
  · exact nomatch hlog
  · exact ⟨_, _, hruns, rfl⟩

/-- **A ready sequence that has not failed** has waited for the conditions, between the commands. -/
theorem runs_readySequence {surroundings : Surroundings} {c : ContainerAsync}
    {readyConditions : List WaitFor} {tr : Trace}
    (h : Runs (readySequence surroundings c readyConditions).run tr (.ok ())) :
    ∃ before awaits waits behind,
      tr = before ++ ⟨.timer (c.startupTimeout.getD defaultStartupTimeout), awaits⟩ :: waits ++
        behind ∧
      waits.length ≤ awaits ∧
      ObservedAll c.platform surroundings.library c.id readyConditions waits (.ok ()) := by
  obtain ⟨state, tr₁, rest₁, rfl, -, hrest₁⟩ := runs_ok_bind.mp h
  obtain ⟨cmds, tr₂, rest₂, rfl, -, hrest₂⟩ := runs_ok_bind.mp hrest₁
  obtain ⟨⟨⟩, tr₃, rest₃, rfl, -, hrest₃⟩ := runs_ok_bind.mp hrest₂
  obtain ⟨⟨⟩, tr₄, behind, rfl, htimeout, -⟩ := runs_ok_bind.mp hrest₃
  obtain ⟨awaits, waits, rfl, htime, hwaits⟩ := timeout_runs htimeout
  refine ⟨tr₁ ++ tr₂ ++ tr₃, awaits, waits, behind, by simp, htime, ?_⟩
  exact hwaits.resolve_right fun hfired => nomatch hfired.2

/-- The error of the ready sequence is not lost. What the clean-up asks for has no say in
it. -/
theorem runs_cleanupOnReadyFailure {surroundings : Surroundings} {c : ContainerAsync} {e : Error}
    {tr : Trace} {r : Except Error ContainerAsync}
    (h : Runs (cleanupOnReadyFailure surroundings c e) tr r) : r = .error e := by
  rw [cleanupOnReadyFailure] at h
  cases hcommand : surroundings.command with
  | remove =>
      rw [hcommand] at h
      obtain ⟨_, tr₁, tr₂, rfl, -, herror⟩ := runs_bind.mp h
      exact (runs_pure.mp herror).2.symm
  | keep =>
      rw [hcommand] at h
      obtain ⟨_, tr₁, tr₂, rfl, -, herror⟩ := runs_bind.mp h
      exact (runs_pure.mp herror).2.symm

/-- The container is handed out only if the ready sequence has not failed. -/
theorem runs_runReadySequence {surroundings : Surroundings} {c c' : ContainerAsync}
    {readyConditions : List WaitFor} {tr : Trace}
    (h : Runs (runReadySequence surroundings c readyConditions) tr (.ok c')) :
    c' = c ∧ Runs (readySequence surroundings c readyConditions).run tr (.ok ()) := by
  obtain ⟨r, tr₁, tr₂, rfl, hready, hend⟩ := runs_bind.mp h
  rcases r with e | ⟨⟨⟩⟩
  · exact nomatch runs_cleanupOnReadyFailure hend
  · obtain ⟨rfl, hc⟩ := runs_pure.mp hend
    rw [List.append_nil]
    exact ⟨(Except.ok.inj hc).symm, hready⟩

end ContainerRs
