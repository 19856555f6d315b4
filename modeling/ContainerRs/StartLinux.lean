import ContainerRs.StartLedger

/-!
# Starting a Container on Linux

`AsyncRunner::start` (runners/async_runner.rs) on Linux: the request is checked, the image is
looked for and pulled if it is not there, the container is created, the files are copied to it,
it is started, its log is opened, and it is waited for. What fails once there is a container has
it removed.

A start that is abandoned, its future being dropped, is a front of the calls of a start. What
`Drop` of a handle asks for at that moment is left out: `remove_blocking` for a container whose
removal has not failed, or a second removal while that of `rm` is being awaited.

The file system of the host and what surrounds the runner are parameters. That the files of the
host do not change during a start is not checked by the code; here the host is one function.

## Main results

* `startLinux_obeys`: the calls of a start, and every front of them, keep to the protocol.
* `startLinux_ends`: a start ends with a running container, or with none unless it is kept.
* `startLinux_ready`: a container is handed out when its conditions have been observed.
-/

namespace ContainerRs

open Programs Program

/-! ### The start -/

/-- What of the request cannot be had on Linux. -/
def linuxUnsupportedRequestReason (req : StartRequest) : Option Text :=
  if req.ssh then some "with_ssh() is not implemented on Linux".toList
  else if req.maskedPaths.isSome then
    some "with_masked_paths() is not implemented on Linux".toList
  else if req.readonlyPaths.isSome then
    some "with_readonly_paths() is not implemented on Linux".toList
  else if req.kernel.isSome then some "with_kernel() is not implemented on Linux".toList
  else none

/-- The configuration of a request whose ports have been checked. -/
def checkedContainerConfig (req : StartRequest) (h : checkMappedPorts req = .ok ()) :
    ContainerConfig :=
  (buildContainerConfig req.request).get (by
    rw [checkMappedPorts] at h
    rw [buildContainerConfig, h]
    rfl)

/-- The archive of a source. -/
def sourceArchive (host : Host) (src : CopyToContainer) : Except CopyToError Bytes :=
  (prepareArchive host src).get (by
    obtain ⟨result, hresult⟩ := prepareArchive_total host src
    rw [hresult]
    rfl)

/-- Look for the image, and pull it and look again if it is not there. -/
def resolveOrPullLinux (descriptor : Text) (platform : Option Text) : Fallible Unit :=
  ExceptT.mk do
    match ← ask (.resolveImageDescriptor descriptor) with
    | .ok _ => return .ok ()
    | .error (.client (.imageNotFound _)) =>
        match ← ask (.pullImage descriptor platform) with
        | .error e => return .error e
        | .ok () =>
            match ← ask (.resolveImageDescriptor descriptor) with
            | .error e => return .error e
            | .ok _ => return .ok ()
    | .error e => return .error e

/-- Copy the sources to a container. -/
def uploadSources (host : Host) (id : Text) : List CopyToContainer → Fallible Unit
  | [] => pure ()
  | src :: sources =>
      match sourceArchive host src with
      | .error e => throw (.copyTo e)
      | .ok tar => do
          attempt (ask (.copyTo id "/".toList tar))
          uploadSources host id sources

section Start

variable (surroundings : Surroundings)

/-- Is the start in vain without a log? -/
def linuxLogStreamRequired (req : StartRequest) : Bool :=
  readyConditionsRequireLog req.readyConditions || req.hasLogConsumers

/-- Open the log; says whether there is one. -/
def startLinuxLogStream (req : StartRequest) (id : Text) : Fallible Bool := ExceptT.mk do
  match ← ask (.spawnLogSession id) with
  | .ok () =>
      if req.hasLogConsumers then ask (.spawnLogConsumerTasks id) else pure ()
      return .ok true
  | .error e =>
      if linuxLogStreamRequired req then
        rollbackRemove surroundings id
        return .error e
      else return .ok false

/-- The start once the container is created. The files are there before the container runs, and its
exit code is waited for only once it does: of a container that does not run, an old code would be
read. -/
def startCreatedLinux (host : Host) (req : StartRequest) (id : Text) : Fallible ContainerAsync := do
  orRollback surroundings id (uploadSources host id req.copyToSources)
  orRollback surroundings id (attempt (ask (.startContainer id)))
  let hasLogSource ← startLinuxLogStream surroundings req id
  perform (.spawnExitCodeWaiter id)
  attempt (runReadySequence surroundings
    { platform := .linux
      id := id
      envVars := req.request.envVars
      startupTimeout := req.startupTimeout
      hasLogSource := hasLogSource
      hooks := req.hooks } req.readyConditions)

/-- The start. -/
def startLinux (host : Host) (req : StartRequest) : Fallible ContainerAsync :=
  match linuxUnsupportedRequestReason req with
  | some msg => throw (.other msg)
  | none =>
      match hports : checkMappedPorts req with
      | .error msg => throw (.other msg)
      | .ok () => do
          resolveOrPullLinux req.request.descriptor req.platform
          let id ← attempt (ask (.createContainer (checkedContainerConfig req hports)
            req.containerName req.platform))
          startCreatedLinux surroundings host req id

end Start

/-! ### The protocol -/

/-- What may be asked in a start on Linux: an image is pulled once if it is missing, a container
is created from an image that is there, the sources are copied in their order to a container that
does not run yet, and it is started when all of them have arrived. -/
def linuxAllowed (command : Command) (host : Host) (req : StartRequest) (s : Ledger) : Call → Prop
  | .resolveImageDescriptor descriptor =>
      descriptor = req.request.descriptor ∧ s.container = none
  | .pullImage descriptor platform =>
      descriptor = req.request.descriptor ∧ platform = req.platform ∧ s.image = .missing ∧
        s.pulls = 0 ∧ s.container = none
  | .createContainer config name platform =>
      buildContainerConfig req.request = some config ∧ name = req.containerName ∧
        platform = req.platform ∧ s.image = .found ∧ s.container = none
  | .copyTo id dir tar =>
      s.container = some id ∧ s.started = false ∧ s.removals = [] ∧ dir = "/".toList ∧
        ∃ src, req.copyToSources[s.copied]? = some src ∧ sourceArchive host src = .ok tar
  | .startContainer id =>
      s.container = some id ∧ s.started = false ∧ s.removals = [] ∧
        s.copied = req.copyToSources.length
  | .spawnLogSession id => s.Running id
  | op => commonAllowed command s op

/-- How the ledger is kept on Linux. -/
def linuxAfter (s : Ledger) : (op : Call) → Reply op → Ledger
  | .resolveImageDescriptor _, reply => { s with image := .ofReply reply }
  | .pullImage _ _, _ => { s with pulls := s.pulls + 1 }
  | .createContainer _ _ _, reply => { s with container := reply.toOption }
  | .copyTo _ _ _, .ok () => { s with copied := s.copied + 1 }
  | .startContainer _, .ok () => { s with started := true }
  | op, reply => commonAfter s op reply

/-- The protocol of a start on Linux. -/
def linuxProtocol (command : Command) (host : Host) (req : StartRequest) :
    Contract Call Reply Ledger where
  allowed := linuxAllowed command host req
  after := linuxAfter

/-- What both protocols say of the calls they share holds of the one on Linux. -/
theorem linuxProtocol_extends (command : Command) (host : Host) (req : StartRequest) :
    Extends command (linuxProtocol command host req) where
  allowed s op h := by
    cases op <;> first | rfl | (obtain ⟨_, h⟩ := h; exact h.elim)
  after s op r h := by
    cases op <;> first | rfl | (obtain ⟨_, h⟩ := h; exact h.elim)

/-! ### The start keeps to the protocol -/

section Keeps

variable {surroundings : Surroundings} {host : Host} {req : StartRequest} {s : Ledger}

/-- **The image of a start**: it is found, pulled if it was missing, or the start ends without a
container. -/
theorem ewp_resolveOrPullLinux :
    ewp (linuxProtocol surroundings.command host req)
      (resolveOrPullLinux req.request.descriptor req.platform)
      (fun _ s' => ∃ pulls, s' = { Ledger.initial with image := .found, pulls })
      (fun _ s' => s'.container = none ∧ s'.Closed) .initial := by
  rw [resolveOrPullLinux, ewp_mk, wp_bind, wp_request]
  refine ⟨⟨rfl, rfl⟩, fun reply => ?_⟩
  have hclosed : Ledger.initial.Closed := ⟨rfl, rfl⟩
  split
  · exact ⟨0, rfl⟩
  · rw [wp_bind, wp_request]
    refine ⟨⟨rfl, rfl, rfl, rfl, rfl⟩, fun pulled => ?_⟩
    cases pulled with
    | error e => exact ⟨rfl, hclosed⟩
    | ok u =>
        rw [wp_bind, wp_request]
        refine ⟨⟨rfl, rfl⟩, fun again => ?_⟩
        cases again with
        | error e => exact ⟨rfl, hclosed⟩
        | ok d => exact ⟨1, rfl⟩
  · exact ⟨rfl, hclosed⟩

/-- **The run lemma of the uploads**: from the number of archives that have arrived on, the rest
is uploaded in order. -/
theorem ewp_uploadSources {id : Text} (done : List CopyToContainer) {rest : List CopyToContainer}
    (hsources : req.copyToSources = done ++ rest) (hcopied : s.copied = done.length)
    (hs : s.container = some id ∧ s.started = false ∧ s.removals = [] ∧ s.Closed) :
    ewp (linuxProtocol surroundings.command host req) (uploadSources host id rest)
      (fun _ s' => s' = { s with copied := req.copyToSources.length })
      (fun _ s' => s'.container = some id ∧ s'.removals = [] ∧ s'.Closed) s := by
  induction rest generalizing done s with
  | nil =>
      rw [List.append_nil] at hsources
      exact hsources ▸ hcopied ▸ rfl
  | cons src rest ih =>
      rw [uploadSources]
      cases htar : sourceArchive host src with
      | error e => exact ⟨hs.1, hs.2.2⟩
      | ok tar =>
          simp only [ewp_bind]
          refine ⟨⟨hs.1, hs.2.1, hs.2.2.1, rfl, src, ?_, htar⟩, fun reply => ?_⟩
          · rw [hsources, hcopied, List.getElem?_append_right (Nat.le_refl _), Nat.sub_self]
            rfl
          · cases reply with
            | error e => exact ⟨hs.1, hs.2.2⟩
            | ok u =>
                exact ih (s := { s with copied := s.copied + 1 }) (done ++ [src])
                  (hsources.trans (List.append_cons done src rest))
                  (by rw [List.length_append, hcopied]; rfl) hs

/-- The log of a running container is opened, or the container is cleaned up if it is
needed. It is needed if there are consumers, or if one of the conditions waits for a
message. -/
theorem ewp_startLinuxLogStream {id : Text} (hs : s.Running id ∧ s.Closed) :
    ewp (linuxProtocol surroundings.command host req) (startLinuxLogStream surroundings req id)
      (fun _ s' => s' = s) (fun e s' => StartEnds surroundings.command (.error e) s') s := by
  have hP := linuxProtocol_extends surroundings.command host req
  obtain ⟨hrunning, hclosed⟩ := hs
  rw [startLinuxLogStream, ewp_mk, wp_bind, wp_request]
  refine ⟨hrunning, ?_⟩
  rintro (e | ⟨⟨⟩⟩)
  · dsimp only
    split
    · rw [wp_bind]
      exact wp_rollbackRemove hP hrunning.1 hrunning.2.2 hclosed e
    · exact rfl
  · dsimp only
    split
    · rw [wp_bind]
      exact hP.wp_ask (.spawnLogConsumerTasks id) trivial hrunning fun _ => rfl
    · exact rfl

/-- **The start of a created container** runs it, or cleans up. The files are copied, the
container is started, its log is opened, and it is waited for, each in the state that the
step before has left. -/
theorem ewp_startCreatedLinux {id : Text} (hs : s.container = some id ∧ s.started = false ∧
      s.copied = 0 ∧ s.removals = [] ∧ s.Closed) :
    ewp (linuxProtocol surroundings.command host req) (startCreatedLinux surroundings host req id)
      (fun c s' => StartEnds surroundings.command (.ok c) s')
      (fun e s' => StartEnds surroundings.command (.error e) s') s := by
  have hP := linuxProtocol_extends surroundings.command host req
  obtain ⟨hcontainer, hstarted, hcopied, hremovals, hclosed⟩ := hs
  rw [startCreatedLinux, ewp_bind]
  refine ewp_mono (ewp_orRollback hP (ewp_uploadSources [] rfl hcopied
    ⟨hcontainer, hstarted, hremovals, hclosed⟩)) ?_ fun _ _ h => h
  rintro ⟨⟩ s' rfl
  rw [ewp_bind]
  refine ewp_mono (Q := fun _ s' =>
    s' = { s with copied := req.copyToSources.length, started := true }) (ewp_orRollback hP ?_) ?_
    fun _ _ h => h
  · refine ⟨⟨hcontainer, hstarted, hremovals, rfl⟩, ?_⟩
    rintro (e | ⟨⟨⟩⟩)
    · exact ⟨hcontainer, hremovals, hclosed⟩
    · exact rfl
  rintro ⟨⟩ s' rfl
  have hrunning :
      Ledger.Running { s with copied := req.copyToSources.length, started := true } id :=
    ⟨hcontainer, rfl, hremovals⟩
  rw [ewp_bind]
  refine ewp_mono (ewp_startLinuxLogStream ⟨hrunning, hclosed⟩) ?_ fun _ _ h => h
  rintro hasLogSource s' rfl
  rw [ewp_bind, perform, ewp_lift]
  refine hP.wp_ask (.spawnExitCodeWaiter id) trivial hrunning fun _ => ?_
  rw [attempt, ewp_mk]
  refine wp_mono (wp_runReadySequence hP ⟨hrunning, hclosed.1⟩ _) ?_
  rintro (e | c) s' hend
  · exact hend.ends hclosed.2 e
  · obtain ⟨rfl, rfl⟩ := hend
    exact hrunning

/-- **The start** keeps to the protocol, and ends with a running container or cleans up.
What is checked before there is a container leaves none behind. -/
theorem ewp_startLinux :
    ewp (linuxProtocol surroundings.command host req) (startLinux surroundings host req)
      (fun c s' => StartEnds surroundings.command (.ok c) s')
      (fun e s' => StartEnds surroundings.command (.error e) s') .initial := by
  have hnone (e : Error) {s : Ledger} (h : s.container = none ∧ s.Closed) :
      StartEnds surroundings.command (.error e) s := ⟨h.2, .inl h.1⟩
  rw [startLinux]
  split
  · next msg _ => exact hnone (.other msg) ⟨rfl, rfl, rfl⟩
  · split
    · next msg _ => exact hnone (.other msg) ⟨rfl, rfl, rfl⟩
    · next hports =>
        rw [ewp_bind]
        refine ewp_mono ewp_resolveOrPullLinux ?_ fun e s h => hnone e h
        rintro ⟨⟩ s ⟨pulls, rfl⟩
        rw [ewp_bind]
        refine ⟨⟨?_, rfl, rfl, rfl, rfl⟩, ?_⟩
        · exact (Option.some_get _).symm
        · rintro (e | id)
          · exact hnone e ⟨rfl, rfl, rfl⟩
          · exact ewp_startCreatedLinux ⟨rfl, rfl, rfl, rfl, rfl, rfl⟩

end Keeps

/-! ### What is known of a start -/

/-- **A start on Linux keeps to the protocol** in every front of its calls: nothing is pulled
that is there, no container runs before its files have arrived, and only the container of the
start is removed, and only if containers are to be removed. -/
theorem startLinux_obeys (surroundings : Surroundings) (host : Host) (req : StartRequest)
    (tr : Trace) (h : Reaches (startLinux surroundings host req).run tr) :
    (linuxProtocol surroundings.command host req).Obeys .initial tr :=
  h.of_wp ewp_startLinux

/-- A request for the web server, which is to be healthy. -/
def startSample : StartRequest where
  request := webRequest
  containerName := some "web".toList
  platform := none
  copyToSources := [⟨.data [1, 2], .new [47, 102]⟩]
  readyConditions := [.healthcheck ⟨.fromSecs 1⟩]
  startupTimeout := none
  hasLogConsumers := true
  ssh := false
  maskedPaths := none
  readonlyPaths := none
  kernel := none
  hooks := ⟨fun _ => .ok [], fun _ => .ok [commandSample]⟩

/-- A world in which the image has to be pulled. -/
def missingImageReply (past : Trace) (op : Call) : Reply op :=
  match op with
  | .resolveImageDescriptor descriptor =>
      if past.isEmpty then .error (.client (.imageNotFound descriptor)) else .ok descriptor
  | op => obligingReply op

/-- The web server gets ready in that world. -/
theorem runs_startSample :
    ∃ tr c, Runs (startLinux surroundingsSample smallHost startSample).run tr (.ok c) := by
  refine exists_runs_ok missingImageReply ?_
  decide +kernel

/-- The image is missing, so it may be pulled; the container gets its file and is started. -/
theorem startLinux_obeys_sample :
    ∃ tr, tr ≠ [] ∧ (linuxProtocol .remove smallHost startSample).Obeys .initial tr := by
  obtain ⟨tr, c, hrun⟩ := runs_startSample
  refine ⟨tr, ?_, startLinux_obeys surroundingsSample smallHost startSample tr hrun.reaches⟩
  rintro rfl
  exact nomatch hrun

/-- **A start on Linux ends** with a running container, or with none: if it fails behind the
creation, the removal of the container has been tried, unless containers are to be kept. -/
theorem startLinux_ends (surroundings : Surroundings) (host : Host) (req : StartRequest)
    (tr : Trace) (r : Except Error ContainerAsync)
    (h : Runs (startLinux surroundings host req).run tr r) :
    StartEnds surroundings.command r
      ((linuxProtocol surroundings.command host req).state .initial tr) := by
  have hend := (h.of_wp ewp_startLinux).2
  cases r <;> exact hend

/-- The web server runs at the end. -/
theorem startLinux_ends_sample :
    ∃ tr id, ((linuxProtocol .remove smallHost startSample).state .initial tr).Running id := by
  obtain ⟨tr, c, hrun⟩ := runs_startSample
  exact ⟨tr, c.id, startLinux_ends surroundingsSample smallHost startSample tr (.ok c) hrun⟩

/-- A start that hands a container out has started it, and has run its ready sequence. The
run is taken apart at each of the steps of the code. -/
theorem runs_startLinux {surroundings : Surroundings} {host : Host} {req : StartRequest}
    {tr : Trace} {c : ContainerAsync} (h : Runs (startLinux surroundings host req).run tr (.ok c)) :
    ∃ front sequence,
      tr = front ++ sequence ∧
      (⟨.startContainer c.id, .ok ()⟩ : Event Call Reply) ∈ front ∧
      c.platform = .linux ∧ c.startupTimeout = req.startupTimeout ∧
      Runs (readySequence surroundings c req.readyConditions).run sequence (.ok ()) := by
  rw [startLinux] at h
  split at h
  · exact nomatch (runs_pure.mp h).2
  split at h
  · exact nomatch (runs_pure.mp h).2
  obtain ⟨⟨⟩, tr₁, rest₁, rfl, -, hrest₁⟩ := runs_ok_bind.mp h
  obtain ⟨id, tr₂, rest₂, rfl, -, hrest₂⟩ := runs_ok_bind.mp hrest₁
  rw [startCreatedLinux] at hrest₂
  obtain ⟨⟨⟩, tr₃, rest₃, rfl, -, hrest₃⟩ := runs_ok_bind.mp hrest₂
  obtain ⟨⟨⟩, tr₄, rest₄, rfl, hstart, hrest₄⟩ := runs_ok_bind.mp hrest₃
  obtain ⟨hasLogSource, tr₅, rest₅, rfl, -, hrest₅⟩ := runs_ok_bind.mp hrest₄
  obtain ⟨⟨⟩, tr₆, rest₆, rfl, -, hready⟩ := runs_ok_bind.mp hrest₅
  obtain ⟨rfl, hsequence⟩ := runs_runReadySequence hready
  have hstarted := runs_request.mp (runs_orRollback hstart)
  exact ⟨tr₁ ++ tr₂ ++ tr₃ ++ tr₄ ++ tr₅ ++ tr₆, rest₆, by simp, by simp [hstarted], rfl, rfl,
    hsequence⟩

/-- **A container is handed out when it is ready**: behind its start each condition has been
observed, in order, before the timer has fired. -/
theorem startLinux_ready (surroundings : Surroundings) (host : Host) (req : StartRequest)
    (tr : Trace) (c : ContainerAsync) (h : Runs (startLinux surroundings host req).run tr (.ok c)) :
    ∃ before awaits waits behind,
      tr = before ++ ⟨.timer (req.startupTimeout.getD defaultStartupTimeout), awaits⟩ :: waits ++
        behind ∧
      (⟨.startContainer c.id, .ok ()⟩ : Event Call Reply) ∈ before ∧
      waits.length ≤ awaits ∧
      ObservedAll .linux surroundings.library c.id req.readyConditions waits (.ok ()) := by
  obtain ⟨front, sequence, rfl, hstarted, hplatform, htimeout, hsequence⟩ := runs_startLinux h
  obtain ⟨before, awaits, waits, behind, rfl, htime, hwaits⟩ := runs_readySequence hsequence
  rw [htimeout]
  rw [hplatform] at hwaits
  exact ⟨front ++ before, awaits, waits, behind, by simp, List.mem_append_left _ hstarted,
    htime, hwaits⟩

/-- The web server has been seen healthy. -/
theorem startLinux_ready_sample :
    ∃ id waits awaits, waits.length ≤ awaits ∧
      ObservedAll .linux lenientHttp id startSample.readyConditions waits (.ok ()) := by
  obtain ⟨tr, c, hrun⟩ := runs_startSample
  obtain ⟨_, awaits, waits, _, -, -, htime, hwaits⟩ :=
    startLinux_ready surroundingsSample smallHost startSample tr c hrun
  exact ⟨c.id, waits, awaits, htime, hwaits⟩

end ContainerRs
