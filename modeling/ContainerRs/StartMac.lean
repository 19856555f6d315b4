import ContainerRs.MacResolve
import ContainerRs.Watchdog

/-!
# Starting a Container on macOS

`AsyncRunner::start` (runners/async_runner.rs) on macOS: the request is checked before anything
is asked, the image, the kernel and the volumes are resolved, the container is created, made known
to the watchdog, booted and started, and only then the files are copied, since the service copies
to running containers alone. The log is opened, the names of other hosts are written to a file in
the container, and it is waited for.

From the creation on, a failure has the container removed; the creation itself may have left one
behind although it has failed. The file that holds the data of a source is owned by a guard, which
removes it however the copying ends.

The client is the one that is built with the Cargo feature `watchdog`; without it, as by default,
nothing is made known to the watchdog and the start is otherwise the same.

An abandoned start is a front of the calls of a start here as well, without what `Drop` of a
handle asks for when the future is dropped.

## Main results

* `startMac_obeys`: the calls of a start, and every front of them, keep to the protocol.
* `startMac_ends`: a start ends with a running container and its log, or cleans up.
* `startMac_ready`: a container is handed out when its conditions have been observed.
-/

namespace ContainerRs

open Programs Program Utf8

/-! ### What is checked -/

section Start

variable {ν : Type} (m : MacSurroundings ν) (req : StartRequest)

/-- The container of a request: its name, or one that is made up. -/
def macContainerId : Text := req.containerName.getD ("c-".toList ++ m.uniqueSuffix)

/-- The kernel of a request is a file that can be named to the service. -/
def validateKernelPath (path : Bytes) : Except Error Unit :=
  let configuration (msg : String) : Except Error Unit :=
    .error (.client (.configuration (msg.toList ++ m.displayPath path)))
  if path.head? ≠ some Ustar.slash then configuration "kernel path must be absolute: "
  else if (fromUtf8 path).isNone then configuration "kernel path is not valid UTF-8: "
  else if m.isFile path then .ok ()
  else configuration "kernel path is not a file: "

/-- What is checked of a request before anything is asked. -/
def checkMacRequest : Except Error Unit :=
  if req.request.healthCheck.isSome then
    .error (.other "with_health_check() is not supported on macOS".toList)
  else if !isValidContainerId (utf8 (macContainerId m req)) then
    .error (.other ("invalid container id ".toList ++ m.debugText (macContainerId m req) ++
      ": must match ^[a-zA-Z0-9][a-zA-Z0-9_.-]+$ and be at most 63 characters".toList))
  else do
    (rejectSctpPorts req.request).mapError .other
    (checkMappedPorts req).mapError .other
    match req.kernel with
    | some path => validateKernelPath m path
    | none => .ok ()

/-! ### The start -/

/-- The kernel of a request, or that of the service. -/
def resolveKernel : Fallible Bytes :=
  match req.kernel with
  | some path => pure (m.kernelJson path)
  | none => attempt (ask .getDefaultKernel)

/-- What the container is created from: its configuration and its kernel. -/
def resolveMac : Fallible (ContainerCfg × Bytes) := do
  let (arch, _, resolvePlatform) := normalizePlatform req.platform
  let descRaw ← resolveOrPullMacos req.request.descriptor arch resolvePlatform
  let imageConfig ← resolveImageConfig m.reader m.utf8Error m.arch descRaw resolvePlatform
  let kernel ← resolveKernel m req
  let volumes ← resolveVolumes m.displayError req.request.mounts
  let cfg ← liftExcept ((buildConfig m.offers req (macContainerId m req) descRaw imageConfig
    volumes).mapError .other)
  return (cfg, kernel)

/-- A container that is to be removed is made known to the watchdog, as the feature `watchdog` has
it. -/
def watchContainer (id : Text) : Fallible Unit :=
  match m.surroundings.command with
  | .keep => pure ()
  | .remove => perform (.registerWatchdog id)

/-- The owner of what has been copied is changed; a failure is only logged. -/
def chownAfterCopy (id : Text) (target : CopyTargetOptions) (recursive : Bool) : Task Unit :=
  if target.uid = 0 ∧ target.gid = 0 then pure ()
  else do
    let owner := Json.naturalText target.uid.toNat ++ ':' :: Json.naturalText target.gid.toNat
    let cmd := "chown".toList :: (if recursive then ["-R".toList] else []) ++
      [owner, m.surroundings.fromUtf8Lossy target.path]
    let _ ← ask (.exec id cmd [])

/-- Copy data by way of a file that is there. -/
def copyData (id : Text) (target : CopyTargetOptions) (temp data : Bytes) : Fallible Unit := do
  attempt (ask (.writeCopyDataTemp temp data))
  attempt (ask (.copyIn id temp target.path target.mode))
  ExceptT.lift (chownAfterCopy m id target false)

/-- Copy a source. The guard removes the file that holds the data of one, however the copying has
ended. -/
def copySource (id : Text) (src : CopyToContainer) : Fallible Unit :=
  match src.source with
  | .file path => do
      attempt (ask (.copyIn id path src.target.path src.target.mode))
      ExceptT.lift (chownAfterCopy m id src.target (m.isDir path))
  | .data data => ExceptT.mk do
      match ← ask .createCopyDataTemp with
      | .error e => return .error e
      | .ok temp =>
          let result ← (copyData m id src.target temp data).run
          ask (.removeCopyDataTemp temp)
          return result

/-- Copy the sources one after the other. -/
def copyToSourcesMac (id : Text) : List CopyToContainer → Fallible Unit
  | [] => pure ()
  | src :: sources => do
      copySource m id src
      copyToSourcesMac id sources

/-- Open the log; says whether there is one. -/
def openMacLogs (id : Text) : Fallible Bool := ExceptT.mk do
  match ← ask (.logs id) with
  | .ok () => return .ok true
  | .error e =>
      if readyConditionsRequireLog req.readyConditions then
        rollbackRemove m.surroundings id
        return .error (.other
          ("log wait requires log file descriptors, but containerLogs failed: ".toList ++
            m.displayError e))
      else return .ok false

/-- The tasks that read the log for the consumers of a request. -/
def spawnMacLogConsumers (id : Text) : Fallible Unit :=
  if req.hasLogConsumers then perform (.spawnLogConsumerTasks id) else pure ()

/-- The address of another host; the gateway of the container stands for the host it runs on. -/
def hostAddress (id host : Text) : Fallible Text :=
  if host = "host-gateway".toList then ExceptT.mk do
    match ← ask (.gatewayIpAddress id) with
    | .ok gateway => return .ok gateway
    | .error e => return .error (.other
        ("failed to resolve host gateway IP for with_host(..., HostGateway): ".toList ++
          m.displayError e))
  else pure host

/-- The command that writes a host to the file of hosts. -/
def hostCommand (hostname ip : Text) : ExecCommand where
  cmd := ["sh".toList, "-c".toList,
    "printf '%s\\t%s\\n' \"$1\" \"$2\" >> /etc/hosts".toList, "_".toList, ip, hostname]
  cmdReadyCondition := .exit (some 0)
  containerReadyConditions := []
  envVars := .empty

/-- The hosts of a request are written to a file in the container. -/
def applyExtraHosts (c : ContainerAsync) : List (Text × Text) → Fallible Unit
  | [] => pure ()
  | (hostname, host) :: hosts => do
      let ip ← hostAddress m c.id host
      let _ ← exec m.surroundings c (hostCommand hostname ip)
      applyExtraHosts c hosts

/-- The end of the start: the hosts, and the ready sequence. -/
def finishMac (c : ContainerAsync) : Task (Except Error ContainerAsync) := do
  match ← (applyExtraHosts m c req.request.hosts).run with
  | .error e => cleanupOnReadyFailure m.surroundings c e
  | .ok () => runReadySequence m.surroundings c req.readyConditions

/-- The handle of a container that has been started. -/
def macHandle (id : Text) (hasLogSource : Bool) : ContainerAsync where
  platform := .macos
  id := id
  envVars := req.request.envVars
  startupTimeout := req.startupTimeout
  hasLogSource := hasLogSource
  hooks := req.hooks

/-- The start once the container runs. -/
def startRunning (id : Text) : Fallible ContainerAsync := do
  orRollback m.surroundings id (copyToSourcesMac m id req.copyToSources)
  perform (.spawnExitCodeWaiter id)
  let hasLogSource ← openMacLogs m req id
  spawnMacLogConsumers req id
  attempt (finishMac m req (macHandle req id hasLogSource))

/-- The start once the configuration is made. A creation that fails may leave a container, so it is
rolled back as well. -/
def startConfigured (cfg : ContainerCfg) (kernel : Bytes) : Fallible ContainerAsync := do
  let id := macContainerId m req
  orRollback m.surroundings id (attempt (ask (.xpcCreate cfg kernel)))
  watchContainer m id
  orRollback m.surroundings id (attempt (ask (.bootstrapContainer id)))
  orRollback m.surroundings id (attempt (ask (.startProcess id)))
  startRunning m req id

/-- The start. -/
def startMac : Fallible ContainerAsync := do
  liftExcept (checkMacRequest m req)
  let (cfg, kernel) ← resolveMac m req
  startConfigured m req cfg kernel

end Start

/-! ### The protocol -/

/-- What may be asked in a start on macOS. Nothing is asked for a request that is not valid; an
image is pulled once, for amd64 before anything else and otherwise if it is missing; the container
gets a configuration with its own name, is watched before it is booted and runs before anything is
copied to it; data is copied from the file it has been written to, and no other. -/
def macAllowed {ν : Type} (m : MacSurroundings ν) (req : StartRequest) (s : Ledger) : Call → Prop
  | .resolveImageDescriptor descriptor =>
      checkMacRequest m req = .ok () ∧ descriptor = req.request.descriptor ∧ s.container = none ∧
        ((normalizePlatform req.platform).2.2 = some "linux/amd64".toList → s.pulls = 1)
  | .pullImage descriptor platform =>
      checkMacRequest m req = .ok () ∧ descriptor = req.request.descriptor ∧ s.container = none ∧
        s.pulls = 0 ∧ platform = (normalizePlatform req.platform).2.2.map (fun _ =>
          (normalizePlatform req.platform).1) ∧
        (s.image = .missing ∨ (normalizePlatform req.platform).2.2 = some "linux/amd64".toList)
  | .contentGet _ => s.container = none ∧ s.image = .found
  | .getDefaultKernel => s.container = none ∧ s.image = .found ∧ req.kernel = none
  | .resolveVolume name =>
      s.container = none ∧ s.image = .found ∧ name ∈ volumeNames req.request.mounts
  | .xpcCreate cfg kernel =>
      s.container = none ∧ s.image = .found ∧ cfg.id = macContainerId m req ∧
        ∀ path, req.kernel = some path → kernel = m.kernelJson path
  | .registerWatchdog id =>
      s.container = some id ∧ m.surroundings.command ≠ .keep ∧ s.watched = false ∧
        s.booted = false ∧ s.removals = []
  | .bootstrapContainer id =>
      s.container = some id ∧ s.booted = false ∧ s.removals = [] ∧
        (m.surroundings.command = .remove → s.watched = true)
  | .startProcess id =>
      s.container = some id ∧ s.booted = true ∧ s.started = false ∧ s.removals = []
  | .createCopyDataTemp =>
      s.temp = none ∧ (∃ id, s.Running id) ∧
        ∃ src data, req.copyToSources[s.copied]? = some src ∧ src.source = .data data
  | .writeCopyDataTemp path data =>
      s.temp = some (path, none) ∧
        ∃ src, req.copyToSources[s.copied]? = some src ∧ src.source = .data data
  | .copyIn id source destination mode =>
      s.Running id ∧ ∃ src, req.copyToSources[s.copied]? = some src ∧
        destination = src.target.path ∧ mode = src.target.mode ∧
        (src.source = .file source ∨
          ∃ data, src.source = .data data ∧ s.temp = some (source, some data))
  | .removeCopyDataTemp path => s.temp.map Prod.fst = some path
  | .logs id =>
      s.Running id ∧ s.Closed ∧ s.copied = req.copyToSources.length
  | op => commonAllowed m.surroundings.command s op

/-- How the ledger is kept on macOS. -/
def macAfter (s : Ledger) : (op : Call) → Reply op → Ledger
  | .resolveImageDescriptor _, reply => { s with image := .ofReply reply }
  | .pullImage _ _, _ => { s with pulls := s.pulls + 1 }
  | .xpcCreate cfg _, _ => { s with container := some cfg.id }
  | .registerWatchdog _, _ => { s with watched := true }
  | .bootstrapContainer _, .ok () => { s with booted := true }
  | .startProcess _, .ok () => { s with started := true }
  | .createCopyDataTemp, .ok path => { s with temp := some (path, none) }
  | .writeCopyDataTemp path data, .ok () => { s with temp := some (path, some data) }
  | .copyIn _ _ _ _, .ok () => { s with copied := s.copied + 1 }
  | .removeCopyDataTemp _, _ => { s with temp := none }
  | .logs _, .ok () => { s with logsOpen := true }
  | op, reply => commonAfter s op reply

/-- The protocol of a start on macOS. -/
def macProtocol {ν : Type} (m : MacSurroundings ν) (req : StartRequest) :
    Contract Call Reply Ledger where
  allowed := macAllowed m req
  after := macAfter

/-- What both protocols say of the calls they share holds of the one on macOS. -/
theorem macProtocol_extends {ν : Type} (m : MacSurroundings ν) (req : StartRequest) :
    Extends m.surroundings.command (macProtocol m req) where
  allowed s op h := by
    cases op <;> first | rfl | (obtain ⟨_, h⟩ := h; exact h.elim)
  after s op r h := by
    cases op <;> first | rfl | (obtain ⟨_, h⟩ := h; exact h.elim)

/-! ### The start keeps to the protocol -/

section Keeps

variable {ν : Type} {m : MacSurroundings ν} {req : StartRequest} {s : Ledger}

/-- The ledger before the creation, when the image is known to be there. -/
def Ledger.Resolved (s : Ledger) : Prop :=
  ∃ pulls, s = { Ledger.initial with image := .found, pulls }

/-- **The image of a start** is there, or the start ends without a container. For amd64 it
is pulled before anything else; otherwise it is pulled when it is missing, and looked for
again. -/
theorem ewp_resolveOrPullMacos (hcheck : checkMacRequest m req = .ok ()) :
    ewp (macProtocol m req)
      (resolveOrPullMacos req.request.descriptor (normalizePlatform req.platform).1
        (normalizePlatform req.platform).2.2)
      (fun _ s' => s'.Resolved) (fun _ s' => s'.container = none ∧ s'.Closed) .initial := by
  have hclosed : Ledger.initial.Closed := ⟨rfl, rfl⟩
  rw [resolveOrPullMacos]
  split
  · next hamd =>
      rw [ewp_bind]
      refine ⟨⟨hcheck, rfl, rfl, rfl, ?_, .inr hamd⟩, ?_⟩
      · rw [hamd]
        rfl
      rintro (e | ⟨⟨⟩⟩)
      · exact ⟨rfl, hclosed⟩
      · refine ⟨⟨hcheck, rfl, rfl, fun _ => rfl⟩, ?_⟩
        rintro (e | descRaw)
        · exact ⟨rfl, hclosed⟩
        · exact ⟨1, rfl⟩
  · next hamd =>
      rw [ewp_mk, wp_bind, wp_request]
      refine ⟨⟨hcheck, rfl, rfl, fun h => absurd h hamd⟩, fun reply => ?_⟩
      split
      · exact ⟨0, rfl⟩
      · rw [wp_bind, wp_request]
        refine ⟨⟨hcheck, rfl, rfl, rfl, rfl, .inl rfl⟩, fun pulled => ?_⟩
        rcases pulled with e | ⟨⟨⟩⟩
        · exact ⟨rfl, hclosed⟩
        · refine ⟨⟨hcheck, rfl, rfl, fun h => absurd h hamd⟩, ?_⟩
          rintro (e | descRaw)
          · exact ⟨rfl, hclosed⟩
          · exact ⟨1, rfl⟩
      · exact ⟨rfl, hclosed⟩

/-- The configuration of the image is looked for by fetching blobs alone. -/
theorem calls_resolveImageConfig {reader : RawJson ν} {utf8Error : Bytes → Text}
    {arch descRaw : Text} {platform : Option Text} :
    (resolveImageConfig reader utf8Error arch descRaw platform).run.Calls
      (fun op => ∃ digest, op = .contentGet digest) := by
  refine Calls.ebind (calls_pure _) fun desc => Calls.ebind ?_ fun digest =>
    Calls.ebind (calls_request ⟨_, rfl⟩) fun _ => calls_pure _
  rw [resolveConfigDigest]
  split
  · exact Calls.ebind (calls_request ⟨_, rfl⟩) fun _ => Calls.ebind (calls_pure _) fun _ =>
      Calls.ebind (calls_request ⟨_, rfl⟩) fun _ => calls_pure _
  · exact Calls.ebind (calls_request ⟨_, rfl⟩) fun _ => calls_pure _
  · exact calls_pure _
  · exact calls_pure _

/-- The volumes are resolved by asking for their names alone. By induction on the
names. -/
theorem calls_resolveVolumeNames {displayError : Error → Text} (names : List Text)
    (resolutions : SortedMap Text VolumeResolution) :
    (resolveVolumeNames displayError names resolutions).run.Calls
      (fun op => ∃ name ∈ names, op = .resolveVolume name) := by
  induction names generalizing resolutions with
  | nil => exact calls_pure _
  | cons name names ih =>
      refine Calls.bind (calls_request ⟨name, List.mem_cons_self, rfl⟩) ?_
      rintro (e | resolution)
      · exact calls_pure _
      · refine (ih _).mono ?_
        rintro op ⟨other, hother, rfl⟩
        exact ⟨other, List.mem_cons_of_mem _ hother, rfl⟩

/-- **What the container is made of** is found out while there is none. The calls for it
are of kinds that the protocol allows then, and they leave the ledger as it is. -/
theorem ewp_resolveMac (hcheck : checkMacRequest m req = .ok ()) :
    ewp (macProtocol m req) (resolveMac m req)
      (fun made s' => s'.Resolved ∧ made.1.id = macContainerId m req ∧
        ∀ path, req.kernel = some path → made.2 = m.kernelJson path)
      (fun _ s' => s'.container = none ∧ s'.Closed) .initial := by
  rw [resolveMac, ewp_bind]
  refine ewp_mono (ewp_resolveOrPullMacos hcheck) ?_ fun _ _ h => h
  rintro descRaw _ ⟨pulls, rfl⟩
  have hfailed : Ledger.container { Ledger.initial with image := .found, pulls } = none ∧
      Ledger.Closed { Ledger.initial with image := .found, pulls } := ⟨rfl, rfl, rfl⟩
  rw [ewp_bind]
  refine ewp_mono (Calls.ewp calls_resolveImageConfig ?_) ?_ ?_
  · rintro _ ⟨digest, rfl⟩
    exact ⟨⟨rfl, rfl⟩, fun _ => rfl⟩
  · rintro imageConfig s' rfl
    rw [ewp_bind]
    refine ewp_mono (Q := fun kernel s' =>
      s' = { Ledger.initial with image := .found, pulls } ∧
        ∀ path, req.kernel = some path → kernel = m.kernelJson path) ?_ ?_ fun _ _ h => h
    · rw [resolveKernel]
      cases hkernel : req.kernel with
      | some path => exact ⟨rfl, fun _ h => by rw [Option.some.inj h]⟩
      | none =>
          refine ⟨⟨rfl, rfl, hkernel⟩, ?_⟩
          rintro (e | kernel)
          · exact hfailed
          · exact ⟨rfl, nofun⟩
    · rintro kernel s' ⟨rfl, hkernel⟩
      rw [ewp_bind]
      refine ewp_mono (Calls.ewp (calls_resolveVolumeNames _ _) ?_) ?_ ?_
      · rintro _ ⟨name, hname, rfl⟩
        exact ⟨⟨rfl, rfl, hname⟩, fun _ => rfl⟩
      · rintro volumes s' rfl
        rw [ewp_bind, liftExcept, ewp_mk]
        cases hcfg :
          buildConfig m.offers req (macContainerId m req) descRaw imageConfig volumes with
        | error e => exact hfailed
        | ok cfg => exact ⟨⟨pulls, rfl⟩, id_of_buildConfig hcfg, hkernel⟩
      · rintro e s' rfl
        exact hfailed
  · rintro e s' rfl
    exact hfailed

/-- A change of the owner changes nothing of the ledger. -/
theorem wp_chownAfterCopy {id : Text} {target : CopyTargetOptions} {recursive : Bool}
    (hs : s.Running id) :
    (chownAfterCopy m id target recursive).wp (macProtocol m req) (fun _ s' => s' = s) s := by
  rw [chownAfterCopy]
  split
  · exact rfl
  · rw [wp_bind]
    exact (macProtocol_extends m req).wp_ask (.exec id _ []) ⟨id, rfl⟩ ⟨id, hs, rfl⟩ fun _ => rfl

/-- Data is written to its file and copied from there. When the writing has failed,
nothing is copied. -/
theorem ewp_copyData {id : Text} {src : CopyToContainer} {temp data : Bytes}
    (hs : s.Running id) (hsrc : req.copyToSources[s.copied]? = some src)
    (hdata : src.source = .data data) :
    ewp (macProtocol m req) (copyData m id src.target temp data)
      (fun _ s' => s' = { s with copied := s.copied + 1, temp := some (temp, some data) })
      (fun _ s' => ∃ content, s' = { s with temp := some (temp, content) })
      { s with temp := some (temp, none) } := by
  rw [copyData, ewp_bind, attempt, ewp_mk, wp_request]
  refine ⟨⟨rfl, src, hsrc, hdata⟩, ?_⟩
  rintro (e | ⟨⟨⟩⟩)
  · exact ⟨none, rfl⟩
  · dsimp only
    rw [ewp_bind, attempt, ewp_mk, wp_request]
    refine ⟨⟨hs, src, hsrc, rfl, rfl, .inr ⟨data, hdata, rfl⟩⟩, ?_⟩
    rintro (e | ⟨⟨⟩⟩)
    · exact ⟨some data, rfl⟩
    · dsimp only
      rw [ewp_lift]
      refine wp_mono (wp_chownAfterCopy (s := { s with
        copied := s.copied + 1, temp := some (temp, some data) }) hs) ?_
      rintro ⟨⟩ s' rfl
      rfl

/-- **A source is copied** when it is its turn, and no file of its data is left. One case
for a file of the host and one for data, of which the file is removed on every path. -/
theorem ewp_copySource {id : Text} {src : CopyToContainer} (hs : s.Running id) (hclosed : s.Closed)
    (hsrc : req.copyToSources[s.copied]? = some src) :
    ewp (macProtocol m req) (copySource m id src)
      (fun _ s' => s' = { s with copied := s.copied + 1 }) (fun _ s' => s' = s) s := by
  have hremoved : { s with temp := none } = s := by rw [← hclosed.2]
  rw [copySource]
  cases hsource : src.source with
  | file path =>
      simp only [ewp_bind, attempt, ewp_mk, wp_request]
      refine ⟨⟨hs, src, hsrc, rfl, rfl, .inl hsource⟩, ?_⟩
      rintro (e | ⟨⟨⟩⟩)
      · rfl
      · dsimp only
        rw [ewp_lift]
        refine wp_mono (wp_chownAfterCopy (s := { s with copied := s.copied + 1 }) hs) ?_
        rintro ⟨⟩ s' rfl
        rfl
  | data data =>
      simp only [ewp_mk, wp_bind, wp_request]
      refine ⟨⟨hclosed.2, ⟨id, hs⟩, src, data, hsrc, hsource⟩, ?_⟩
      rintro (e | temp)
      · rfl
      · rw [wp_bind]
        refine wp_mono (ewp_copyData hs hsrc hsource) ?_
        rintro (e | ⟨⟨⟩⟩) s' hs'
        · obtain ⟨content, rfl⟩ := hs'
          rw [wp_bind, wp_request]
          exact ⟨rfl, fun _ => hremoved⟩
        · obtain rfl := hs'
          rw [wp_bind, wp_request]
          refine ⟨rfl, fun _ => ?_⟩
          change { s with copied := s.copied + 1, temp := none } = { s with copied := s.copied + 1 }
          rw [← hclosed.2]

/-- **The run lemma of the copies**: from the number of sources that have been copied on, the rest
is copied in order. -/
theorem ewp_copyToSourcesMac {id : Text} (done : List CopyToContainer) {rest : List CopyToContainer}
    (hsources : req.copyToSources = done ++ rest) (hcopied : s.copied = done.length)
    (hs : s.Running id) (hclosed : s.Closed) :
    ewp (macProtocol m req) (copyToSourcesMac m id rest)
      (fun _ s' => s' = { s with copied := req.copyToSources.length })
      (fun _ s' => s'.container = some id ∧ s'.removals = [] ∧ s'.Closed) s := by
  induction rest generalizing done s with
  | nil =>
      rw [List.append_nil] at hsources
      exact hsources ▸ hcopied ▸ rfl
  | cons src rest ih =>
      have hsrc : req.copyToSources[s.copied]? = some src := by
        rw [hsources, hcopied, List.getElem?_append_right (Nat.le_refl _), Nat.sub_self]
        rfl
      rw [copyToSourcesMac, ewp_bind]
      refine ewp_mono (ewp_copySource hs hclosed hsrc) ?_ ?_
      · rintro ⟨⟩ s' rfl
        exact ih (s := { s with copied := s.copied + 1 }) (done ++ [src])
          (hsources.trans (List.append_cons done src rest))
          (by rw [List.length_append, hcopied]; rfl) hs hclosed
      · rintro e s' rfl
        exact ⟨hs.1, hs.2.2, hclosed⟩

/-- The log of a running container is opened, or the container is cleaned up if it is
needed. It is needed if one of the conditions waits for a message. -/
theorem ewp_openMacLogs {id : Text} (hs : s.Running id) (hclosed : s.Closed)
    (hcopied : s.copied = req.copyToSources.length) :
    ewp (macProtocol m req) (openMacLogs m req id)
      (fun hasLogSource s' => s' = { s with logsOpen := hasLogSource })
      (fun e s' => StartEnds m.surroundings.command (.error e) s') s := by
  rw [openMacLogs, ewp_mk, wp_bind, wp_request]
  refine ⟨⟨hs, hclosed, hcopied⟩, ?_⟩
  rintro (e | ⟨⟨⟩⟩)
  · dsimp only
    split
    · rw [wp_bind]
      exact wp_rollbackRemove (macProtocol_extends m req) hs.1 hs.2.2 hclosed
        (.other ("log wait requires log file descriptors, but containerLogs failed: ".toList ++
          m.displayError e))
    · change s = { s with logsOpen := false }
      rw [← hclosed.1]
  · exact rfl

/-- The extra hosts are written by calls of the handle. By induction on the hosts. -/
theorem calls_applyExtraHosts {c : ContainerAsync} (hosts : List (Text × Text)) :
    (applyExtraHosts m c hosts).run.Calls (HandleCall c.id) := by
  induction hosts with
  | nil => exact calls_pure _
  | cons entry hosts ih =>
      obtain ⟨hostname, host⟩ := entry
      refine Calls.ebind ?_ fun ip => Calls.ebind (calls_exec _ c _) fun _ => ih
      rw [hostAddress]
      split
      · refine Calls.bind (calls_request rfl) ?_
        rintro (e | gateway) <;> exact calls_pure _
      · exact calls_pure _

/-- **The end of a start** leaves the container running, or cleans up. -/
theorem wp_finishMac {c : ContainerAsync} (h : s.Holds c) (htemp : s.temp = none) :
    (finishMac m req c).wp (macProtocol m req) (fun r s' =>
      match r with
      | .ok c' => c' = c ∧ s' = s
      | .error e => StartEnds m.surroundings.command (.error e) s') s := by
  have hP := macProtocol_extends m req
  rw [finishMac, wp_bind]
  refine wp_mono ((calls_applyExtraHosts req.request.hosts).wp (hP.neutral h.running)) ?_
  rintro (e | ⟨⟨⟩⟩) s' rfl
  · refine wp_mono (wp_cleanupOnReadyFailure hP h) ?_
    rintro r s' ⟨rfl, hcleaned⟩
    exact hcleaned.ends htemp e
  · refine wp_mono (wp_runReadySequence hP h req.readyConditions) ?_
    rintro (e | c') s' hend
    · exact hend.ends htemp e
    · exact hend

/-- How a start on macOS ends that has not failed: the container runs, has its files and is
watched unless it is to be kept, and of what was opened there is only its log. -/
structure Ledger.Started (s : Ledger) (m : MacSurroundings ν) (req : StartRequest)
    (c : ContainerAsync) : Prop where
  id : c.id = macContainerId m req
  running : s.Running c.id
  copied : s.copied = req.copyToSources.length
  watched : m.surroundings.command = .remove → s.watched = true
  logsOpen : s.logsOpen = c.hasLogSource
  temp : s.temp = none

/-- How a start on macOS ends. -/
def MacEnds (m : MacSurroundings ν) (req : StartRequest) (r : Except Error ContainerAsync)
    (s : Ledger) : Prop :=
  match r with
  | .ok c => s.Started m req c
  | .error e => StartEnds m.surroundings.command (.error e) s

/-- A container that is to be removed is watched from its creation on. -/
theorem ewp_watchContainer {id : Text} {E : Error → Ledger → Prop}
    (hs : s.container = some id ∧ s.watched = false ∧ s.booted = false ∧ s.removals = []) :
    ewp (macProtocol m req) (watchContainer m id)
      (fun _ s' => s' = { s with watched := s'.watched } ∧
        (m.surroundings.command = .remove → s'.watched = true)) E s := by
  rw [watchContainer]
  cases hcommand : m.surroundings.command with
  | keep => exact ⟨rfl, nofun⟩
  | remove =>
      rw [perform, ewp_lift, wp_request]
      refine ⟨⟨hs.1, ?_, hs.2⟩, fun _ => ⟨rfl, fun _ => rfl⟩⟩
      rw [hcommand]
      decide

/-- The log consumers are spawned for a container that runs, and the ledger stays as it
is. -/
theorem ewp_spawnMacLogConsumers {id : Text} {E : Error → Ledger → Prop} (hs : s.Running id) :
    ewp (macProtocol m req) (spawnMacLogConsumers req id) (fun _ s' => s' = s) E s := by
  rw [spawnMacLogConsumers]
  split
  · rw [perform, ewp_lift]
    exact (macProtocol_extends m req).wp_ask (.spawnLogConsumerTasks id) trivial hs fun _ => rfl
  · exact rfl

/-- **The start of a running container**: the files, the log and the ready sequence. Each
step goes on in the state that the one before has left, and a failure of any of them
cleans up. -/
theorem ewp_startRunning (hs : s.Running (macContainerId m req)) (hclosed : s.Closed)
    (hcopied : s.copied = 0) (hwatched : m.surroundings.command = .remove → s.watched = true) :
    ewp (macProtocol m req) (startRunning m req (macContainerId m req))
      (fun c s' => MacEnds m req (.ok c) s') (fun e s' => MacEnds m req (.error e) s') s := by
  have hP := macProtocol_extends m req
  rw [startRunning, ewp_bind]
  refine ewp_mono (ewp_orRollback hP (ewp_copyToSourcesMac [] rfl hcopied hs hclosed)) ?_
    fun _ _ h => h
  rintro ⟨⟩ s' rfl
  rw [ewp_bind, perform, ewp_lift]
  refine hP.wp_ask (s := { s with copied := req.copyToSources.length })
    (.spawnExitCodeWaiter (macContainerId m req)) trivial hs fun _ => ?_
  rw [ewp_bind]
  refine ewp_mono (ewp_openMacLogs (s := { s with copied := req.copyToSources.length }) hs hclosed
    rfl) ?_ fun _ _ h => h
  rintro hasLogSource s' rfl
  rw [ewp_bind]
  refine ewp_mono (ewp_spawnMacLogConsumers hs) ?_ fun _ _ h => h
  rintro ⟨⟩ s' rfl
  rw [attempt, ewp_mk]
  refine wp_mono (wp_finishMac (c := macHandle req (macContainerId m req) hasLogSource)
    ⟨hs, rfl⟩ hclosed.2) ?_
  rintro (e | c) s' hend
  · exact hend
  · obtain ⟨rfl, rfl⟩ := hend
    exact ⟨rfl, hs, rfl, hwatched, rfl, hclosed.2⟩

/-- **The start of a container whose configuration is made**: it is created, watched, booted and
started. -/
theorem ewp_startConfigured {cfg : ContainerCfg} {kernel : Bytes} (hs : s.Resolved)
    (hid : cfg.id = macContainerId m req)
    (hkernel : ∀ path, req.kernel = some path → kernel = m.kernelJson path) :
    ewp (macProtocol m req) (startConfigured m req cfg kernel)
      (fun c s' => MacEnds m req (.ok c) s') (fun e s' => MacEnds m req (.error e) s') s := by
  have hP := macProtocol_extends m req
  obtain ⟨pulls, rfl⟩ := hs
  rw [startConfigured, ewp_bind]
  refine ewp_mono (Q := fun _ s' => s' = { Ledger.initial with
    image := .found, pulls, container := some (macContainerId m req) })
    (ewp_orRollback hP ?_) ?_ fun _ _ h => h
  · refine ⟨⟨rfl, rfl, hid, hkernel⟩, ?_⟩
    rintro (e | ⟨⟨⟩⟩)
    · exact ⟨congrArg some hid, rfl, rfl, rfl⟩
    · change { Ledger.initial with image := .found, pulls, container := some cfg.id } = _
      rw [hid]
  rintro ⟨⟩ s' rfl
  rw [ewp_bind]
  refine ewp_mono (ewp_watchContainer ⟨rfl, rfl, rfl, rfl⟩) ?_ fun _ _ h => h
  rintro ⟨⟩ s' ⟨heq, hwatched⟩
  generalize s'.watched = watched at heq hwatched
  subst heq
  rw [ewp_bind]
  refine ewp_mono (Q := fun _ s' => s' = { Ledger.initial with
    image := .found, pulls, container := some (macContainerId m req), watched, booted := true })
    (ewp_orRollback hP ?_) ?_ fun _ _ h => h
  · refine ⟨⟨rfl, rfl, rfl, hwatched⟩, ?_⟩
    rintro (e | ⟨⟨⟩⟩)
    · exact ⟨rfl, rfl, rfl, rfl⟩
    · rfl
  rintro ⟨⟩ s' rfl
  rw [ewp_bind]
  refine ewp_mono (Q := fun _ s' => s' = { Ledger.initial with
    image := .found, pulls, container := some (macContainerId m req), watched, booted := true,
    started := true }) (ewp_orRollback hP ?_) ?_ fun _ _ h => h
  · refine ⟨⟨rfl, rfl, rfl, rfl⟩, ?_⟩
    rintro (e | ⟨⟨⟩⟩)
    · exact ⟨rfl, rfl, rfl, rfl⟩
    · rfl
  rintro ⟨⟩ s' rfl
  exact ewp_startRunning ⟨rfl, rfl, rfl⟩ ⟨rfl, rfl⟩ rfl hwatched

/-- **The start** keeps to the protocol, and ends with a running container or cleans up. -/
theorem ewp_startMac :
    ewp (macProtocol m req) (startMac m req) (fun c s' => MacEnds m req (.ok c) s')
      (fun e s' => MacEnds m req (.error e) s') .initial := by
  rw [startMac, ewp_bind, liftExcept, ewp_mk]
  cases hcheck : checkMacRequest m req with
  | error e => exact ⟨⟨rfl, rfl⟩, .inl rfl⟩
  | ok u =>
      change ewp (macProtocol m req) (resolveMac m req >>= _) _ _ .initial
      rw [ewp_bind]
      refine ewp_mono (ewp_resolveMac hcheck) ?_ ?_
      · rintro ⟨cfg, kernel⟩ s' ⟨hresolved, hid, hkernel⟩
        exact ewp_startConfigured hresolved hid hkernel
      · rintro e s' ⟨hnone, hclosed⟩
        exact ⟨hclosed, .inl hnone⟩

end Keeps

/-! ### What is known of a start -/

/-- The host has been written to the container: a command for it has ended with zero. -/
def HostWritten (c : ContainerAsync) (tr : Trace) (hostname host : Text) : Prop :=
  ∃ ip raw, (⟨.exec c.id (hostCommand hostname ip).cmd (foldEnv c.envVars []), .ok raw⟩ :
      Event Call Reply) ∈ tr ∧ raw.exitCode = some 0 ∧
    (ip = host ∨ host = "host-gateway".toList ∧
      (⟨.gatewayIpAddress c.id, .ok ip⟩ : Event Call Reply) ∈ tr)

/-- A host that has been written stays written in a longer trace. -/
theorem HostWritten.mono {c : ContainerAsync} {tr tr' : Trace} {hostname host : Text}
    (h : HostWritten c tr hostname host) (hsub : tr ⊆ tr') : HostWritten c tr' hostname host := by
  obtain ⟨ip, raw, hexec, hcode, hip⟩ := h
  exact ⟨ip, raw, hsub hexec, hcode, hip.imp id fun hgateway => ⟨hgateway.1, hsub hgateway.2⟩⟩

section Runs

variable {ν : Type} {m : MacSurroundings ν} {c : ContainerAsync} {tr : Trace}

/-- The address of a host is the one given, or that of the gateway, which has been asked
for. -/
theorem runs_hostAddress {id host ip : Text} (h : Runs (hostAddress m id host).run tr (.ok ip)) :
    ip = host ∨ host = "host-gateway".toList ∧
      (⟨.gatewayIpAddress id, .ok ip⟩ : Event Call Reply) ∈ tr := by
  rw [hostAddress] at h
  split at h
  · next hgateway =>
      obtain ⟨reply, rest, rfl, hrest⟩ := runs_request_bind.mp h
      cases reply with
      | error e => exact nomatch (runs_pure.mp hrest).2
      | ok gateway =>
          obtain rfl := Except.ok.inj (runs_pure.mp hrest).2
          exact .inr ⟨hgateway, List.mem_cons_self⟩
  · exact .inl (Except.ok.inj (runs_pure.mp h).2).symm

/-- **Every host is written**, one after the other. By induction on the hosts: the first
has been written before the others, whose trace comes behind. -/
theorem runs_applyExtraHosts (hplatform : c.platform = .macos) {hosts : List (Text × Text)}
    (h : Runs (applyExtraHosts m c hosts).run tr (.ok ())) :
    ∀ entry ∈ hosts, HostWritten c tr entry.1 entry.2 := by
  induction hosts generalizing tr with
  | nil => simp
  | cons entry hosts ih =>
      obtain ⟨hostname, host⟩ := entry
      obtain ⟨ip, tr₁, rest₁, rfl, haddress, h₁⟩ := runs_ok_bind.mp h
      obtain ⟨raw, tr₂, rest₂, rfl, hexec, h₂⟩ := runs_ok_bind.mp h₁
      intro other hother
      rcases List.mem_cons.mp hother with rfl | hmem
      · obtain ⟨front, rest, rfl, hcmd, hcheck⟩ := runs_exec_ok hexec
        refine ⟨ip, raw, ?_, ?_, (runs_hostAddress haddress).imp id fun hgateway =>
          ⟨hgateway.1, List.mem_append_left _ hgateway.2⟩⟩
        · cases hcmd with
          | macos _ => simp [hostCommand, SortedMap.empty]
          | inherited hlinux _ => exact absurd (hplatform.symm.trans hlinux) (by decide)
          | merged hlinux _ => exact absurd (hplatform.symm.trans hlinux) (by decide)
        · cases hcode : raw.exitCode with
          | none => simp [CmdWaitFor.check, hostCommand, hcode] at hcheck
          | some code =>
              by_cases hzero : code = 0
              · rw [hzero]
              · simp [CmdWaitFor.check, hostCommand, hcode, hzero] at hcheck
      · exact (ih h₂ other hmem).mono fun e he =>
          List.mem_append_right _ (List.mem_append_right _ he)

/-- **The end of a start**: first the extra hosts are written, then the ready conditions
are waited for, and the handle is the one from before. -/
theorem runs_finishMac {req : StartRequest} {c' : ContainerAsync}
    (h : Runs (finishMac m req c) tr (.ok c')) :
    c' = c ∧ ∃ hosts rest, tr = hosts ++ rest ∧
      Runs (applyExtraHosts m c req.request.hosts).run hosts (.ok ()) ∧
      Runs (readySequence m.surroundings c req.readyConditions).run rest (.ok ()) := by
  obtain ⟨r, hosts, rest, rfl, hhosts, hend⟩ := runs_bind.mp h
  rcases r with e | ⟨⟨⟩⟩
  · exact nomatch runs_cleanupOnReadyFailure hend
  · obtain ⟨rfl, hready⟩ := runs_runReadySequence hend
    exact ⟨rfl, hosts, rest, rfl, hhosts, hready⟩

/-- A start that has not failed ends with the ready sequence of a running container. -/
theorem runs_startRunning {req : StartRequest} {id : Text}
    (h : Runs (startRunning m req id).run tr (.ok c)) :
    ∃ hasLogSource front rest, tr = front ++ rest ∧
      Runs (finishMac m req (macHandle req id hasLogSource)) rest (.ok c) := by
  obtain ⟨⟨⟩, tr₁, rest₁, rfl, -, h₁⟩ := runs_ok_bind.mp h
  obtain ⟨⟨⟩, tr₂, rest₂, rfl, -, h₂⟩ := runs_ok_bind.mp h₁
  obtain ⟨hasLogSource, tr₃, rest₃, rfl, -, h₃⟩ := runs_ok_bind.mp h₂
  obtain ⟨⟨⟩, tr₄, rest, rfl, -, hfinish⟩ := runs_ok_bind.mp h₃
  exact ⟨hasLogSource, tr₁ ++ tr₂ ++ tr₃ ++ tr₄, rest, by simp, hfinish⟩

/-- **The middle of a start**: its last part is that behind the boot, with the id of the
request. -/
theorem runs_startConfigured {req : StartRequest} {cfg : ContainerCfg} {kernel : Bytes}
    (h : Runs (startConfigured m req cfg kernel).run tr (.ok c)) :
    ∃ front rest, tr = front ++ rest ∧
      Runs (startRunning m req (macContainerId m req)).run rest (.ok c) := by
  obtain ⟨⟨⟩, tr₁, rest₁, rfl, -, h₁⟩ := runs_ok_bind.mp h
  obtain ⟨⟨⟩, tr₂, rest₂, rfl, -, h₂⟩ := runs_ok_bind.mp h₁
  obtain ⟨⟨⟩, tr₃, rest₃, rfl, -, h₃⟩ := runs_ok_bind.mp h₂
  obtain ⟨⟨⟩, tr₄, rest, rfl, -, hrunning⟩ := runs_ok_bind.mp h₃
  exact ⟨tr₁ ++ tr₂ ++ tr₃ ++ tr₄, rest, by simp, hrunning⟩

end Runs

/-- What surrounds a runner on macOS. -/
def macSample : MacSurroundings Json where
  surroundings := surroundingsSample
  reader := Json.reader
  utf8Error _ := "invalid utf-8".toList
  arch := "aarch64".toList
  offers _ := .ok 40001
  uniqueSuffix := "1-2-3".toList
  debugText text := '"' :: text ++ ['"']
  displayPath path := path.map fun b => Char.ofNat b.toNat
  displayError _ := "error".toList
  isFile _ := true
  isDir _ := false
  kernelJson path := path

/-- A request for the web server with a name for the host. -/
def macStartSample : StartRequest where
  request := { webRequest with hosts := [("gw".toList, "host-gateway".toList)] }
  containerName := none
  platform := none
  copyToSources := [⟨.data [1, 2], .new [47, 102]⟩]
  readyConditions := [.duration (.fromSecs 1)]
  startupTimeout := none
  hasLogConsumers := true
  ssh := false
  maskedPaths := none
  readonlyPaths := none
  kernel := none
  hooks := ⟨fun _ => .ok [], fun _ => .ok []⟩

/-- A world with an image that is its configuration alone. -/
def configImageReply (_ : Trace) (op : Call) : Reply op :=
  match op with
  | .resolveImageDescriptor _ =>
      .ok ("\x7b\"mediaType\":\"application/vnd.oci.image.config.v1+json\"" ++
        ",\"digest\":\"sha256:c\"\x7d").toList
  | .contentGet _ => .ok (utf8 "\x7b\"config\":\x7b\"Cmd\":[\"serve\"]\x7d\x7d".toList)
  | op => obligingReply op

/-- The web server gets ready in that world. -/
theorem runs_macStartSample : ∃ tr c, Runs (startMac macSample macStartSample).run tr (.ok c) := by
  refine exists_runs_ok configImageReply ?_
  decide +kernel

/-- **A start on macOS keeps to the protocol** in every front of its calls: nothing is asked
for a request that is not valid, the image is pulled at most once, a container that is to be
removed is watched before it is booted, files are copied in order to a running container, data
from the file it has been written to, and a container is removed only if containers are to be. -/
theorem startMac_obeys {ν : Type} (m : MacSurroundings ν) (req : StartRequest) (tr : Trace)
    (h : Reaches (startMac m req).run tr) : (macProtocol m req).Obeys .initial tr :=
  h.of_wp ewp_startMac

/-- The image is there, the container is watched and booted, and its file is written and copied. -/
theorem startMac_obeys_sample :
    ∃ tr, tr ≠ [] ∧ (macProtocol macSample macStartSample).Obeys .initial tr := by
  obtain ⟨tr, c, hrun⟩ := runs_macStartSample
  refine ⟨tr, ?_, startMac_obeys macSample macStartSample tr hrun.reaches⟩
  rintro rfl
  exact nomatch hrun

/-- **A start on macOS ends** with a running container that has all its files and of which only
the log is open, or with nothing left open and no container, unless containers are to be kept or
their removal has been tried. -/
theorem startMac_ends {ν : Type} (m : MacSurroundings ν) (req : StartRequest) (tr : Trace)
    (r : Except Error ContainerAsync) (h : Runs (startMac m req).run tr r) :
    MacEnds m req r ((macProtocol m req).state .initial tr) := by
  have hend := (h.of_wp ewp_startMac).2
  cases r <;> exact hend

/-- The web server runs at the end, under a name that was made up. -/
theorem startMac_ends_sample :
    ∃ tr c, ((macProtocol macSample macStartSample).state .initial tr).Started macSample
      macStartSample c ∧ c.id = "c-1-2-3".toList := by
  obtain ⟨tr, c, hrun⟩ := runs_macStartSample
  have hend : Ledger.Started _ macSample macStartSample c :=
    startMac_ends macSample macStartSample tr (.ok c) hrun
  exact ⟨tr, c, hend, hend.id⟩

/-- **A container is handed out on macOS when it is ready**: its hosts have been written, and
behind that each condition has been observed, in order, before the timer has fired. -/
theorem startMac_ready {ν : Type} (m : MacSurroundings ν) (req : StartRequest) (tr : Trace)
    (c : ContainerAsync) (h : Runs (startMac m req).run tr (.ok c)) :
    ∃ before awaits waits behind,
      tr = before ++ ⟨.timer (req.startupTimeout.getD defaultStartupTimeout), awaits⟩ :: waits ++
        behind ∧
      (∀ entry ∈ req.request.hosts, HostWritten c before entry.1 entry.2) ∧
      waits.length ≤ awaits ∧
      ObservedAll .macos m.surroundings.library c.id req.readyConditions waits (.ok ()) := by
  obtain ⟨⟨⟩, tr₁, rest₁, rfl, -, h₁⟩ := runs_ok_bind.mp h
  obtain ⟨⟨cfg, kernel⟩, tr₂, rest₂, rfl, -, hconfigured⟩ := runs_ok_bind.mp h₁
  obtain ⟨tr₃, rest₃, rfl, hrunning⟩ := runs_startConfigured hconfigured
  obtain ⟨hasLogSource, tr₄, rest₄, rfl, hfinish⟩ := runs_startRunning hrunning
  obtain ⟨rfl, hosts, rest, rfl, hhosts, hready⟩ := runs_finishMac hfinish
  obtain ⟨before, awaits, waits, behind, rfl, htime, hwaits⟩ := runs_readySequence hready
  refine ⟨tr₁ ++ tr₂ ++ tr₃ ++ tr₄ ++ hosts ++ before, awaits, waits, behind, by simp [macHandle],
    ?_, htime, hwaits⟩
  intro entry hentry
  refine (runs_applyExtraHosts rfl hhosts entry hentry).mono fun e he => ?_
  simp [he]

/-- The host has been written when the web server is handed out. -/
theorem startMac_ready_sample :
    ∃ c tr, HostWritten c tr "gw".toList "host-gateway".toList := by
  obtain ⟨tr, c, hrun⟩ := runs_macStartSample
  obtain ⟨before, _, _, _, -, hhosts, -⟩ := startMac_ready macSample macStartSample tr c hrun
  exact ⟨c, before, hhosts _ List.mem_cons_self⟩

end ContainerRs
