import ContainerRs.ContainerHandle

/-!
# What a Start May Do

The calls of a start, seen from outside: which image is there, which container has been created,
what has been copied to it, whether it has been started, and what has been tried to remove it. The
ledger keeps these; a protocol says in terms of the ledger what may be asked next. This module
has the part of the protocol that is the same on both platforms: a running container may be
looked at, and it may be removed if containers are to be removed, by force, once, and once more
if that has failed.

## Main results

* `ewp_orRollback`, `wp_cleanupOnReadyFailure`: removals keep to the protocol.
* `wp_runReadySequence`: so does the ready sequence, which removes the container if it fails.
-/

namespace ContainerRs

open Programs Program

/-! ### Requests -/

/-- A request with what is not part of the configuration of the container. -/
structure StartRequest where
  request : ContainerRequest
  containerName : Option Text
  platform : Option Text
  copyToSources : List CopyToContainer
  readyConditions : List WaitFor
  startupTimeout : Option Duration
  hasLogConsumers : Bool
  ssh : Bool
  maskedPaths : Option (List Text)
  readonlyPaths : Option (List Text)
  kernel : Option Bytes
  hooks : ImageHooks

/-- The mapped ports of a request are checked. -/
def checkMappedPorts (req : StartRequest) : Except Text Unit :=
  req.request.ports.elim (.ok ()) rejectDuplicateMappedPorts

/-! ### The ledger -/

/-- What is known of an image. -/
inductive ImageLookup
  | unknown
  | found
  | missing
  | failed
  deriving DecidableEq, Repr

/-- What a look for an image says. -/
def ImageLookup.ofReply : Except Error Text → ImageLookup
  | .ok _ => found
  | .error (.client (.imageNotFound _)) => missing
  | .error _ => failed

/-- The ledger of a start. -/
structure Ledger where
  image : ImageLookup
  pulls : ℕ
  /-- The container that there is, or may be. -/
  container : Option Text
  /-- Is the container known to the watchdog? -/
  watched : Bool
  booted : Bool
  started : Bool
  copied : ℕ
  /-- The file for the data of a source, with the data that has been written to it. -/
  temp : Option (Bytes × Option Bytes)
  /-- Are there descriptors of its log to be closed? -/
  logsOpen : Bool
  /-- The removals that were tried, with their success. -/
  removals : List Bool
  deriving DecidableEq, Repr

/-- The ledger before a start. -/
def Ledger.initial : Ledger :=
  { image := .unknown, pulls := 0, container := none, watched := false, booted := false,
    started := false, copied := 0, temp := none, logsOpen := false, removals := [] }

/-- The container runs and nothing has been tried to remove it. -/
def Ledger.Running (s : Ledger) (id : Text) : Prop :=
  s.container = some id ∧ s.started = true ∧ s.removals = []

/-- Nothing of the start is left open on the host. -/
def Ledger.Closed (s : Ledger) : Prop := s.logsOpen = false ∧ s.temp = none

/-- How a start ends: with a running container, or without one, or with one whose removal has
been tried unless containers are to be kept. -/
def StartEnds (command : Command) (r : Except Error ContainerAsync) (s : Ledger) : Prop :=
  match r with
  | .ok c => s.Running c.id
  | .error _ => s.Closed ∧
      (s.container = none ∨ command = .keep ∧ s.removals = [] ∨ command = .remove ∧ s.removals ≠ [])

/-- Calls that look at a running container, or run a command in it. -/
def HandleCall (id : Text) : Call → Prop
  | .containerEnv i | .exec i _ _ | .gatewayIpAddress i => i = id
  | op => WaitCall id op

/-- What may be asked on both platforms. -/
def commonAllowed (command : Command) (s : Ledger) : Call → Prop
  | .remove id force =>
      s.container = some id ∧ force = true ∧ command = .remove ∧ s.removals = []
  | .removeBlocking id force =>
      s.container = some id ∧ force = true ∧ command = .remove ∧ s.removals = [false]
  | .stopLogDelivery id | .logTasksDone id => s.container = some id
  | .closeLogs id => s.container = some id ∧ s.logsOpen = true
  | .spawnExitCodeWaiter id | .spawnLogConsumerTasks id => s.Running id
  | .sleep _ => True
  | op => ∃ id, s.Running id ∧ HandleCall id op

/-- How the ledger is kept on both platforms. -/
def commonAfter (s : Ledger) : (op : Call) → Reply op → Ledger
  | .remove _ _, reply => { s with removals := s.removals ++ [reply matches .ok ()] }
  | .removeBlocking _ _, reply => { s with removals := s.removals ++ [reply matches .ok ()] }
  | .closeLogs _, _ => { s with logsOpen := false }
  | _, _ => s

/-- The calls that are the same on both platforms. -/
def CommonCall : Call → Prop
  | .remove _ _ | .removeBlocking _ _ | .stopLogDelivery _ | .logTasksDone _ | .closeLogs _ => True
  | .spawnExitCodeWaiter _ | .spawnLogConsumerTasks _ => True
  | op => ∃ id, HandleCall id op

/-- A protocol that says of these calls what is said here. -/
structure Extends (command : Command) (c : Contract Call Reply Ledger) : Prop where
  allowed : ∀ s op, CommonCall op → (c.allowed s op ↔ commonAllowed command s op)
  after : ∀ s op r, CommonCall op → c.after s op r = commonAfter s op r

/-- The ledger behind the end of a handle: the descriptors are closed, and the container has been
removed unless containers are to be kept, or this has been tried twice. -/
structure Cleaned (command : Command) (s s' : Ledger) : Prop where
  eq : s' = { s with logsOpen := false, removals := s'.removals }
  keep : command = .keep → s'.removals = []
  remove : command = .remove → s'.removals = [true] ∨ ∃ again, s'.removals = [false, again]

/-- A start that has cleaned up ends as it is to, with whatever error. -/
theorem Cleaned.ends {command : Command} {s s' : Ledger} (h : Cleaned command s s')
    (htemp : s.temp = none) (e : Error) : StartEnds command (.error e) s' := by
  refine ⟨⟨by rw [h.eq], by rw [h.eq]; exact htemp⟩, ?_⟩
  cases command with
  | keep => exact .inr (.inl ⟨rfl, h.keep rfl⟩)
  | remove =>
      refine .inr (.inr ⟨rfl, ?_⟩)
      rcases h.remove rfl with hdone | ⟨again, hdone⟩ <;> simp [hdone]

/-- The ledger while there is a handle. -/
structure Ledger.Holds (s : Ledger) (c : ContainerAsync) : Prop where
  running : s.Running c.id
  logsOpen : s.logsOpen = (decide (c.platform = .macos) && c.hasLogSource)

/-- A step that removes the container if it fails. -/
def orRollback {α : Type} (surroundings : Surroundings) (id : Text) (step : Fallible α) :
    Fallible α :=
  ExceptT.mk do
    match ← step.run with
    | .ok a => return .ok a
    | .error e =>
        rollbackRemove surroundings id
        return .error e

/-- A step that has not failed has asked what it asks alone. A step that has failed is an
error of the whole. -/
theorem runs_orRollback {α : Type} {surroundings : Surroundings} {id : Text} {step : Fallible α}
    {tr : Trace} {a : α} (h : Runs (orRollback surroundings id step).run tr (.ok a)) :
    Runs step.run tr (.ok a) := by
  obtain ⟨r, tr₁, tr₂, rfl, hstep, hend⟩ := runs_bind.mp h
  cases r with
  | error e =>
      obtain ⟨_, tr₃, tr₄, rfl, -, herror⟩ := runs_bind.mp hend
      exact nomatch (runs_pure.mp herror).2
  | ok a' =>
      obtain ⟨rfl, ha⟩ := runs_pure.mp hend
      rw [List.append_nil]
      exact Except.ok.inj ha ▸ hstep

/-! ### What a handle asks -/

/-- A command that is run makes calls of the handle alone, whose container they name. One
case for each condition that may be waited for behind it. -/
theorem calls_exec (surroundings : Surroundings) (c : ContainerAsync) (cmd : ExecCommand) :
    (exec surroundings c cmd).run.Calls (HandleCall c.id) := by
  have hwait : ∀ op, WaitCall c.id op → HandleCall c.id op := by
    intro op h
    cases op <;> first | exact h | exact h.elim
  rw [exec]
  split
  · exact calls_pure _
  · refine Calls.ebind ?_ fun raw => Calls.ebind ((calls_timeout _ _).mono hwait) fun _ =>
      Calls.ebind (calls_pure _) fun _ => Calls.ebind ?_ fun _ => calls_pure _
    · rw [runCommand]
      split
      · exact calls_request rfl
      · split
        · exact calls_request rfl
        · exact Calls.ebind (calls_request rfl) fun _ => calls_request rfl
    · refine Calls.bind ?_ fun _ => calls_pure _
      cases cmd.cmdReadyCondition with
      | duration length => exact calls_request trivial
      | nothing => exact calls_pure _
      | stdOutMessage message => exact calls_pure _
      | stdErrMessage message => exact calls_pure _
      | exit code => exact calls_pure _

/-- So do several commands. -/
theorem calls_execAll (surroundings : Surroundings) (c : ContainerAsync) (cmds : List ExecCommand) :
    (execAll surroundings c cmds).run.Calls (HandleCall c.id) := by
  induction cmds with
  | nil => exact calls_pure _
  | cons cmd cmds ih => exact Calls.ebind (calls_exec surroundings c cmd) fun _ => ih

/-- The state is asked for by a call of the handle. -/
theorem calls_containerState (c : ContainerAsync) :
    (containerState c).run.Calls (HandleCall c.id) :=
  Calls.ebind (calls_request rfl) fun _ => calls_pure _

/-- While a container gets ready, it is looked at and commands are run in it. -/
theorem calls_readySequence (surroundings : Surroundings) (c : ContainerAsync)
    (readyConditions : List WaitFor) :
    (readySequence surroundings c readyConditions).run.Calls (HandleCall c.id) := by
  have hwait : ∀ op, WaitCall c.id op → HandleCall c.id op := by
    intro op h
    cases op <;> first | exact h | exact h.elim
  exact Calls.ebind (calls_containerState c) fun _ => Calls.ebind (calls_pure _) fun _ =>
    Calls.ebind (calls_execAll surroundings c _) fun _ =>
    Calls.ebind ((calls_timeout _ _).mono hwait) fun _ =>
    Calls.ebind (calls_containerState c) fun _ => Calls.ebind (calls_pure _) fun _ =>
    calls_execAll surroundings c _

/-! ### Removals keep to the protocol -/

section Removal

variable {surroundings : Surroundings} {P : Contract Call Reply Ledger}
  (hP : Extends surroundings.command P) {s : Ledger}

include hP

/-- Looking at a running container is allowed and changes nothing. -/
theorem Extends.neutral {id : Text} (hs : s.Running id) :
    ∀ op, HandleCall id op → P.allowed s op ∧ ∀ r, P.after s op r = s := by
  intro op hop
  have hcommon : CommonCall op := by
    cases op <;> first | exact ⟨id, hop⟩ | exact hop.elim
  refine ⟨(hP.allowed s op hcommon).mpr ?_, fun r => ?_⟩
  · cases op <;> first | exact ⟨id, hs, hop⟩ | exact trivial | exact hop.elim
  · rw [hP.after s op r hcommon]
    cases op <;> first | rfl | exact hop.elim

/-- The rule for calls that are the same on both platforms. -/
theorem Extends.wp_ask (op : Call) (hop : CommonCall op)
    (hallowed : commonAllowed surroundings.command s op) {Q : Reply op → Ledger → Prop}
    (hQ : ∀ r, Q r (commonAfter s op r)) : (ask op).wp P Q s := by
  rw [wp_request]
  refine ⟨(hP.allowed s op hop).mpr hallowed, fun r => ?_⟩
  rw [hP.after s op r hop]
  exact hQ r

/-- A container without a handle is removed, unless containers are to be kept. -/
theorem wp_rollbackRemove {id : Text} (hcontainer : s.container = some id)
    (hremovals : s.removals = []) (hclosed : s.Closed) (e : Error) :
    (rollbackRemove surroundings id).wp P
      (fun _ s' => StartEnds surroundings.command (.error e) s') s := by
  rw [rollbackRemove]
  cases hcommand : surroundings.command with
  | keep => exact ⟨hclosed, .inr (.inl ⟨rfl, hremovals⟩)⟩
  | remove =>
      rw [wp_bind]
      refine hP.wp_ask (.remove id true) trivial ⟨hcontainer, rfl, hcommand, hremovals⟩ fun r => ?_
      exact ⟨hclosed, .inr (.inr ⟨rfl, by simp [commonAfter]⟩)⟩

/-- **A failed step** has the container removed, unless containers are to be kept. -/
theorem ewp_orRollback {α : Type} {id : Text} {step : Fallible α} {Q : α → Ledger → Prop}
    (h : ewp P step Q (fun _ s' => s'.container = some id ∧ s'.removals = [] ∧ s'.Closed) s) :
    ewp P (orRollback surroundings id step) Q
      (fun e s' => StartEnds surroundings.command (.error e) s') s := by
  rw [orRollback, ewp_mk, wp_bind]
  refine wp_mono h ?_
  rintro (e | a) s' hs
  · rw [wp_bind]
    exact wp_rollbackRemove hP hs.1 hs.2.1 hs.2.2 e
  · exact hs

/-- Waiting for the log tasks changes nothing. -/
theorem wp_awaitLogTasks {id : Text} (hs : s.container = some id) :
    (awaitLogTasks id).wp P (fun _ s' => s' = s) s := by
  rw [awaitLogTasks, wp_bind]
  refine wp_iterate (fun _ s' => s' = s) ?_ (fun _ _ h => h) rfl 20
  rintro ⟨⟩ s' rfl
  rw [wp_bind]
  refine hP.wp_ask (.logTasksDone id) trivial hs fun done => ?_
  cases done with
  | true => exact rfl
  | false =>
      simp only [Bool.false_eq_true, if_false, wp_bind]
      exact hP.wp_ask (.sleep _) ⟨id, trivial⟩ trivial fun _ => rfl

/-- Behind the end of a handle, the descriptors of its log are closed. One case for each
platform, since on Linux there are none. -/
theorem wp_dropLogs {c : ContainerAsync} (hs : s.container = some c.id)
    (hlogs : s.logsOpen = (decide (c.platform = .macos) && c.hasLogSource)) :
    (dropLogs surroundings c).wp P (fun _ s' => s' = { s with logsOpen := false }) s := by
  have hclosed (h : s.logsOpen = false) : s = { s with logsOpen := false } := by rw [← h]
  rw [dropLogs, wp_bind]
  refine hP.wp_ask (.stopLogDelivery c.id) trivial hs fun _ => ?_
  change Program.wp P _ _ s
  cases hplatform : c.platform with
  | macos =>
      rw [hplatform] at hlogs
      cases hsource : c.hasLogSource with
      | true =>
          rw [hsource] at hlogs
          exact hP.wp_ask (.closeLogs c.id) trivial ⟨hs, hlogs⟩ fun _ => rfl
      | false =>
          rw [hsource] at hlogs
          exact hclosed hlogs
  | linux =>
      rw [hplatform] at hlogs
      have hnone : s.logsOpen = false := hlogs
      dsimp only
      split
      · refine wp_mono (wp_awaitLogTasks hP hs) ?_
        rintro ⟨⟩ s' rfl
        exact hclosed hnone
      · exact hclosed hnone

/-- The end of a handle: the container is removed unless this has been done or containers are to
be kept. -/
theorem wp_dropContainer {c : ContainerAsync} {dropped : Bool} (hs : s.container = some c.id)
    (hlogs : s.logsOpen = (decide (c.platform = .macos) && c.hasLogSource))
    (hremovals : dropped = false → surroundings.command = .remove → s.removals = [false]) :
    (dropContainer surroundings c dropped).wp P (fun _ s' =>
      s' = { s with logsOpen := false, removals := s'.removals } ∧
        if dropped = false ∧ surroundings.command = .remove then
          ∃ again, s'.removals = [false, again]
        else s'.removals = s.removals) s := by
  rw [dropContainer, wp_bind]
  refine wp_mono (wp_dropLogs hP hs hlogs) ?_
  rintro ⟨⟩ s' rfl
  cases hdropped : dropped with
  | true => exact ⟨rfl, by simp⟩
  | false =>
      cases hcommand : surroundings.command with
      | keep => exact ⟨rfl, by simp⟩
      | remove =>
          simp only [Bool.false_eq_true, if_false, wp_bind]
          refine hP.wp_ask (.removeBlocking c.id true) trivial ?_ fun r => ⟨rfl, ?_⟩
          · exact ⟨hs, rfl, hcommand, hremovals hdropped hcommand⟩
          · simp only [and_self, if_true, commonAfter, hremovals hdropped hcommand]
            exact ⟨_, rfl⟩

/-- **A handle is cleaned up** when its container does not get ready. One case for
each setting: the container is kept, or it is removed, once more by `Drop` if that has
failed. -/
theorem wp_cleanupOnReadyFailure {c : ContainerAsync} {error : Error} (h : s.Holds c) :
    (cleanupOnReadyFailure surroundings c error).wp P (fun r s' =>
      r = .error error ∧ Cleaned surroundings.command s s') s := by
  obtain ⟨⟨hcontainer, hstarted, hremovals⟩, hlogs⟩ := h
  rw [cleanupOnReadyFailure]
  cases hcommand : surroundings.command with
  | keep =>
      rw [wp_bind]
      refine wp_mono (wp_dropContainer hP hcontainer hlogs ?_) ?_
      · intro _ hremove
        rw [hcommand] at hremove
        exact absurd hremove (by decide)
      · rintro ⟨⟩ s' ⟨heq, hkept⟩
        simp only [hcommand, reduceCtorEq, and_false, if_false] at hkept
        exact ⟨rfl, heq, fun _ => hkept.trans hremovals, fun hremove => absurd hremove (by decide)⟩
  | remove =>
      rw [wp_bind, rm, wp_bind]
      refine hP.wp_ask (.stopLogDelivery c.id) trivial hcontainer fun _ => ?_
      rw [wp_bind]
      refine hP.wp_ask (.remove c.id true) trivial ⟨hcontainer, rfl, hcommand, hremovals⟩
        fun r => ?_
      rw [wp_bind]
      refine wp_mono (wp_dropContainer hP hcontainer hlogs ?_) ?_
      · intro hfailed _
        cases r with
        | ok u => exact absurd hfailed Bool.noConfusion
        | error e => simp [commonAfter, hremovals]
      · rintro ⟨⟩ s' ⟨heq, hdone⟩
        refine ⟨rfl, ?_, fun hkeep => absurd hkeep (by decide), fun _ => ?_⟩
        · rw [heq]
          rfl
        · cases r with
          | ok u =>
              simp only [Bool.true_eq_false, false_and, if_false] at hdone
              exact .inl (hdone.trans (by simp [commonAfter, hremovals]))
          | error e =>
              simp only [hcommand, and_self, if_true] at hdone
              exact .inr hdone

/-- **The ready sequence** leaves the container running, or cleans up. -/
theorem wp_runReadySequence {c : ContainerAsync} (h : s.Holds c) (readyConditions : List WaitFor) :
    (runReadySequence surroundings c readyConditions).wp P (fun r s' =>
      match r with
      | .ok c' => c' = c ∧ s' = s
      | .error _ => Cleaned surroundings.command s s') s := by
  rw [runReadySequence, wp_bind]
  refine wp_mono ((calls_readySequence surroundings c readyConditions).wp (hP.neutral h.running)) ?_
  rintro (e | ⟨⟨⟩⟩) s' rfl
  · refine wp_mono (wp_cleanupOnReadyFailure hP h) ?_
    rintro r s' ⟨rfl, hcleaned⟩
    exact hcleaned
  · exact ⟨rfl, rfl⟩

end Removal

end ContainerRs
