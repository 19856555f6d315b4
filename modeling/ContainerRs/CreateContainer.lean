import ContainerRs.Lib.Json
import ContainerRs.Lib.Outcomes
import ContainerRs.Lib.SortedMap
import Mathlib.Data.Char

/-!
# The Body of a Create Request

A container is created by a request whose body is JSON, put together text by text
(`CreateContainerBody`, docker_client.rs; `Healthcheck::to_docker_json`, healthcheck.rs).
Characters of strings are escaped one by one, members of objects are left out where the
configuration says nothing, and mounts are rendered on the way from the configuration to the
body.

The text is judged by the reference reader of `Lib.Json` against `document`, the value that
the configuration calls for.

## Main results

* `denotesString_escapeJson`: an escaped string denotes the string.
* `Healthcheck.denotes_toDockerJson`: the text of a health check denotes its document.
* `fromConfig_spec`: the body of a configuration holds what its mounts and ports call for.
* `createContainerJson_faithful`: the text of a body is one object without repeated keys, and
  exactly the document of the configuration.
-/

namespace ContainerRs

open Json Outcomes

/-! ### The configuration -/

/-- Whether a mount may be written to. -/
inductive AccessMode
  | readOnly
  | readWrite
  deriving DecidableEq, Repr

/-- What is mounted. -/
inductive MountType
  | bind
  | volume
  | tmpfs
  deriving DecidableEq, Repr

/-- The options of a tmpfs mount. -/
structure MountTmpfsOptions where
  sizeBytes : Option ℤ
  mode : Option ℤ
  deriving DecidableEq, Repr

/-- A mount. -/
structure Mount where
  accessMode : AccessMode
  mountType : MountType
  source : Option Text
  target : Option Text
  tmpfsOptions : Option MountTmpfsOptions
  deriving DecidableEq, Repr

/-- A port of the container, with its protocol. -/
inductive ContainerPort
  | tcp (port : UInt16)
  | udp (port : UInt16)
  | sctp (port : UInt16)
  deriving DecidableEq, Repr

/-- A port of the container that is mapped to one of the host. -/
structure PortMapping where
  hostPort : UInt16
  containerPort : ContainerPort
  deriving DecidableEq, Repr

/-- A span of time in seconds and nanoseconds. -/
structure Duration where
  secs : UInt64
  nanos : UInt32
  nanos_lt : nanos.toNat < 1000000000
  deriving DecidableEq, Repr

/-- A health check. -/
structure Healthcheck where
  test : List Text
  interval : Option Duration
  timeout : Option Duration
  retries : Option UInt64
  startPeriod : Option Duration
  startInterval : Option Duration
  deriving DecidableEq, Repr

/-- The configuration of a container to be created. -/
structure ContainerConfig where
  image : Text
  entrypoint : Option (List Text)
  cmd : List Text
  env : List Text
  ports : List PortMapping
  mounts : List Mount
  labels : SortedMap Text Text
  privileged : Bool
  workingDir : Option Text
  user : Option Text
  init : Bool
  healthCheck : Option Healthcheck
  capAdd : List Text
  capDrop : List Text
  shmSize : Option UInt64
  readonlyRootfs : Bool
  hostname : Option Text
  openStdin : Option Bool
  network : Option Text
  extraHosts : List Text

/-- Why a request cannot be made. -/
inductive ClientError
  | configuration (msg : String)
  deriving DecidableEq, Repr

/-- How an access mode is written in a bind. -/
def AccessMode.display : AccessMode → Text
  | .readOnly => "ro".toList
  | .readWrite => "rw".toList

namespace ContainerPort

/-- The number of a port. -/
def asU16 : ContainerPort → UInt16
  | .tcp port | .udp port | .sctp port => port

/-- The protocol of a port. -/
def asStr : ContainerPort → Text
  | .tcp _ => "tcp".toList
  | .udp _ => "udp".toList
  | .sctp _ => "sctp".toList

/-- The key of a port: its number and its protocol. -/
def key (port : ContainerPort) : Text :=
  naturalText port.asU16.toNat ++ '/' :: port.asStr

end ContainerPort

/-- The nanoseconds in a span of time. -/
def Duration.asNanos (d : Duration) : ℕ := d.secs.toNat * 1000000000 + d.nanos.toNat

/-- Nanoseconds as a signed 64-bit number, the largest one if there are more. -/
def durationToNanosI64 (d : Duration) : ℤ := min d.asNanos (2 ^ 63 - 1)

/-! ### JSON text -/

/-- A number as at least four hexadecimal digits. -/
def hexText (n : ℕ) : Text :=
  List.replicate (4 - (Nat.toDigits 16 n).length) '0' ++ Nat.toDigits 16 n

/-- A character of a string. -/
def escapeChar : Char → Text
  | '"' => "\\\"".toList
  | '\\' => "\\\\".toList
  | '\x08' => "\\b".toList
  | '\x0c' => "\\f".toList
  | '\n' => "\\n".toList
  | '\r' => "\\r".toList
  | '\t' => "\\t".toList
  | c => if c.toNat < 0x20 then "\\u".toList ++ hexText c.toNat else [c]

/-- The characters of a string. -/
def escapeJsonValue (s : Text) : Text := s.flatMap escapeChar

/-- A string in quotes. -/
def escapeJson (s : Text) : Text := '"' :: escapeJsonValue s ++ ['"']

/-- The loops that push items with commas between them. -/
def pushSeparated {α : Type*} (render : α → Text) (json : Text) (items : List α) : Text :=
  items.zipIdx.foldl
    (fun json item => (if item.2 > 0 then json ++ [','] else json) ++ render item.1) json

/-- An array of strings. -/
def jsonArray (items : List Text) : Text :=
  pushSeparated escapeJson "[".toList items ++ "]".toList

/-- An object with strings as its members. -/
def jsonObject (map : SortedMap Text Text) : Text :=
  pushSeparated (fun entry => escapeJson entry.1 ++ ":".toList ++ escapeJson entry.2) "\x7b".toList
    map.entries ++ "\x7d".toList

/-- A port of the host. -/
structure PortBinding where
  hostIp : Text
  hostPort : Text
  deriving DecidableEq, Repr

/-- A port of the host as an object. -/
def portBindingJson (b : PortBinding) : Text :=
  "\x7b\"HostIp\":".toList ++ escapeJson b.hostIp ++ ",\"HostPort\":".toList ++
    escapeJson b.hostPort ++ "\x7d".toList

/-- The ports of the host for each port of the container. -/
def jsonPortBindings (map : SortedMap Text (List PortBinding)) : Text :=
  pushSeparated (fun entry => pushSeparated portBindingJson
    (escapeJson entry.1 ++ ":[".toList) entry.2 ++ "]".toList) "\x7b".toList map.entries ++
    "\x7d".toList

/-- An object with an empty object at every port. -/
def exposedPortsJson (ports : List Text) : Text :=
  pushSeparated (fun key => escapeJson key ++ ":\x7b\x7d".toList) "\x7b".toList ports ++
    "\x7d".toList

/-- A truth value. -/
def boolText (b : Bool) : Text := if b then "true".toList else "false".toList

/-- A member that is pushed if there is a value for it. -/
def pushSome (literal : String) (value : Option Text) : Text :=
  value.elim [] fun text => literal.toList ++ text

/-- What is made of items, unless there are none. -/
def unlessEmpty {α β : Type*} (items : List α) (render : List α → β) : Option β :=
  if items.isEmpty then none else some (render items)

/-- The text of a health check; nothing if it leaves everything to the image. -/
def Healthcheck.toDockerJson (h : Healthcheck) : Option Text :=
  let allNone := h.interval.isNone && h.timeout.isNone && h.retries.isNone &&
    h.startPeriod.isNone && h.startInterval.isNone
  let nanos := fun d => integerText (durationToNanosI64 d)
  if h.test.isEmpty && allNone then none
  else some ("\x7b\"Test\":".toList ++ jsonArray h.test ++
    pushSome ",\"Interval\":" (h.interval.map nanos) ++
    pushSome ",\"Timeout\":" (h.timeout.map nanos) ++
    pushSome ",\"Retries\":" (h.retries.map fun n => naturalText n.toNat) ++
    pushSome ",\"StartPeriod\":" (h.startPeriod.map nanos) ++
    pushSome ",\"StartInterval\":" (h.startInterval.map nanos) ++ "\x7d".toList)

/-! ### The body -/

/-- The configuration of the host in a body. -/
structure HostConfig where
  portBindings : SortedMap Text (List PortBinding)
  binds : List Text
  privileged : Bool
  init : Bool
  capAdd : List Text
  capDrop : List Text
  shmSize : Option UInt64
  readonlyRootfs : Bool
  extraHosts : List Text
  /-- Mounts as JSON. -/
  mounts : List Text

/-- The body of a create request. -/
structure CreateContainerBody where
  image : Text
  entrypoint : Option (List Text)
  cmd : List Text
  env : List Text
  labels : SortedMap Text Text
  workingDir : Option Text
  user : Option Text
  hostConfig : HostConfig
  exposedPorts : List Text
  healthcheck : Option Healthcheck
  hostname : Option Text
  openStdin : Option Bool
  network : Option Text

/-- The ports of the host by the ports of the container. -/
def buildPortBindings (ports : List PortMapping) : SortedMap Text (List PortBinding) :=
  .ofList (ports.map fun p => (p.containerPort.key,
    [{ hostIp := "0.0.0.0".toList, hostPort := naturalText p.hostPort.toNat }]))

/-- The ports of the container. -/
def buildExposedPorts (ports : List PortMapping) : List Text :=
  ports.map fun p => p.containerPort.key

/-- A path or name of a mount that must be there. -/
def required (value : Option Text) (msg : String) : Except ClientError Text :=
  match value with
  | some text => .ok text
  | none => .error (.configuration msg)

/-- The options of a tmpfs mount, without braces; empty if there are none. -/
def tmpfsOptionsText (opts : MountTmpfsOptions) : Text :=
  let text := match opts.sizeBytes with
    | some size => "\"SizeBytes\":".toList ++ integerText size
    | none => []
  match opts.mode with
  | some mode =>
      (if text.isEmpty then text else text ++ [',']) ++ "\"Mode\":".toList ++ integerText mode
  | none => text

/-- The entry of a volume mount. -/
def volumeMountJson (source target : Text) (readOnly : Bool) : Text :=
  "\x7b\"Type\":\"volume\",\"Source\":".toList ++ escapeJson source ++ ",\"Target\":".toList ++
    escapeJson target ++ ",\"ReadOnly\":".toList ++ boolText readOnly ++ "\x7d".toList

/-- The entry of a tmpfs mount. -/
def tmpfsMountJson (target : Text) (readOnly : Bool) (opts : Option MountTmpfsOptions) : Text :=
  let opts := (opts.map tmpfsOptionsText).getD []
  "\x7b\"Type\":\"tmpfs\",\"Target\":".toList ++ escapeJson target ++ ",\"ReadOnly\":".toList ++
    boolText readOnly ++
    (if opts.isEmpty then [] else ",\"TmpfsOptions\":\x7b".toList ++ opts ++ "\x7d".toList) ++
    "\x7d".toList

/-- Add a mount to the binds or to the mounts. -/
def pushMount (state : List Text × List Text) (m : Mount) :
    Except ClientError (List Text × List Text) :=
  let readOnly := decide (m.accessMode = .readOnly)
  match m.mountType with
  | .bind => do
      let source ← required m.source "bind mount source is required"
      let target ← required m.target "bind mount target is required"
      .ok (state.1 ++ [source ++ ':' :: target ++ ':' :: m.accessMode.display], state.2)
  | .volume => do
      let source ← required m.source "volume mount source is required"
      let target ← required m.target "volume mount target is required"
      .ok (state.1, state.2 ++ [volumeMountJson source target readOnly])
  | .tmpfs => do
      let target ← required m.target "tmpfs mount target is required"
      .ok (state.1, state.2 ++ [tmpfsMountJson target readOnly m.tmpfsOptions])

/-- The body for a configuration. -/
def CreateContainerBody.fromConfig (config : ContainerConfig) :
    Except ClientError CreateContainerBody := do
  let portBindings := buildPortBindings config.ports
  let exposedPorts := buildExposedPorts config.ports
  let (binds, mounts) ← config.mounts.foldlM pushMount ([], [])
  .ok
    { image := config.image
      entrypoint := config.entrypoint
      cmd := config.cmd
      env := config.env
      labels := config.labels
      workingDir := config.workingDir
      user := config.user
      hostConfig :=
        { portBindings
          binds
          privileged := config.privileged
          init := config.init
          capAdd := config.capAdd
          capDrop := config.capDrop
          shmSize := config.shmSize
          readonlyRootfs := config.readonlyRootfs
          extraHosts := config.extraHosts
          mounts }
      exposedPorts
      healthcheck := config.healthCheck
      hostname := config.hostname
      openStdin := config.openStdin
      network := config.network }

/-- The text of the configuration of the host. -/
def HostConfig.toJsonString (h : HostConfig) : Except ClientError Text :=
  .ok ("\x7b\"Privileged\":".toList ++ boolText h.privileged ++
    ",\"Init\":".toList ++ boolText h.init ++
    ",\"ReadonlyRootfs\":".toList ++ boolText h.readonlyRootfs ++
    pushSome ",\"Binds\":" (unlessEmpty h.binds jsonArray) ++
    pushSome ",\"PortBindings\":" (unlessEmpty h.portBindings.entries fun _ =>
      jsonPortBindings h.portBindings) ++
    pushSome ",\"CapAdd\":" (unlessEmpty h.capAdd jsonArray) ++
    pushSome ",\"CapDrop\":" (unlessEmpty h.capDrop jsonArray) ++
    pushSome ",\"ShmSize\":" (h.shmSize.map fun n => naturalText n.toNat) ++
    pushSome ",\"ExtraHosts\":" (unlessEmpty h.extraHosts jsonArray) ++
    pushSome ",\"Mounts\":[" (unlessEmpty h.mounts fun mounts =>
      [','].intercalate mounts ++ "]".toList) ++ "\x7d".toList)

/-- The text of a body. -/
def CreateContainerBody.toJsonString (b : CreateContainerBody) : Except ClientError Text := do
  let hostConfig ← b.hostConfig.toJsonString
  .ok ("\x7b\"Image\":".toList ++ escapeJson b.image ++
    pushSome ",\"Entrypoint\":" (b.entrypoint.bind fun e => unlessEmpty e jsonArray) ++
    pushSome ",\"Cmd\":" (unlessEmpty b.cmd jsonArray) ++
    pushSome ",\"Env\":" (unlessEmpty b.env jsonArray) ++
    pushSome ",\"Labels\":" (unlessEmpty b.labels.entries fun _ => jsonObject b.labels) ++
    pushSome ",\"WorkingDir\":" (b.workingDir.map escapeJson) ++
    pushSome ",\"User\":" (b.user.map escapeJson) ++
    pushSome ",\"ExposedPorts\":" (unlessEmpty b.exposedPorts exposedPortsJson) ++
    pushSome ",\"Healthcheck\":" (b.healthcheck.bind Healthcheck.toDockerJson) ++
    pushSome ",\"Hostname\":" (b.hostname.map escapeJson) ++
    (if b.openStdin = some true then ",\"OpenStdin\":true".toList else []) ++
    pushSome ",\"NetworkingConfig\":\x7b\"EndpointsConfig\":\x7b" (b.network.map fun network =>
      escapeJson network ++ ":\x7b\x7d".toList ++ "\x7d\x7d".toList) ++
    ",\"HostConfig\":".toList ++ hostConfig ++ "\x7d".toList)

/-! ### What a configuration calls for -/

/-- Strings as an array. -/
def stringsDocument (items : List Text) : Json := .array (items.map .string)

/-- A span of time in nanoseconds, or the largest signed 64-bit number where there are more of
them than that. -/
def durationDocument (d : Duration) : Json :=
  .number (if d.asNanos < 2 ^ 63 then d.asNanos else 2 ^ 63 - 1 : ℕ)

/-- A health check; nothing if it leaves everything to the image. -/
def Healthcheck.document (h : Healthcheck) : Option Json :=
  if h.test = [] ∧ h.interval = none ∧ h.timeout = none ∧ h.retries = none ∧
      h.startPeriod = none ∧ h.startInterval = none then none
  else some (record
    [("Test".toList, some (stringsDocument h.test)),
      ("Interval".toList, h.interval.map durationDocument),
      ("Timeout".toList, h.timeout.map durationDocument),
      ("Retries".toList, h.retries.map fun n => .number n.toNat),
      ("StartPeriod".toList, h.startPeriod.map durationDocument),
      ("StartInterval".toList, h.startInterval.map durationDocument)])

/-- The options of a tmpfs mount, if any of them is given. -/
def tmpfsOptionsDocument (opts : MountTmpfsOptions) : Option Json :=
  if opts.sizeBytes = none ∧ opts.mode = none then none
  else some (record
    [("SizeBytes".toList, opts.sizeBytes.map fun n : ℤ => .number n),
      ("Mode".toList, opts.mode.map fun n : ℤ => .number n)])

/-- A volume mount. -/
def volumeMountDocument (source target : Text) (readOnly : Bool) : Json :=
  record
    [("Type".toList, some (.string "volume".toList)), ("Source".toList, some (.string source)),
      ("Target".toList, some (.string target)), ("ReadOnly".toList, some (.bool readOnly))]

/-- A tmpfs mount. -/
def tmpfsMountDocument (target : Text) (readOnly : Bool) (opts : Option MountTmpfsOptions) :
    Json :=
  record
    [("Type".toList, some (.string "tmpfs".toList)), ("Target".toList, some (.string target)),
      ("ReadOnly".toList, some (.bool readOnly)),
      ("TmpfsOptions".toList, opts.bind tmpfsOptionsDocument)]

/-- The entry of a mount that is not a bind. -/
def mountDocument (m : Mount) : Option Json :=
  let readOnly := decide (m.accessMode = .readOnly)
  match m.mountType with
  | .bind => none
  | .volume => do
      let source ← m.source
      let target ← m.target
      some (volumeMountDocument source target readOnly)
  | .tmpfs => do
      let target ← m.target
      some (tmpfsMountDocument target readOnly m.tmpfsOptions)

/-- The text of a bind mount. -/
def bindText (m : Mount) : Option Text :=
  match m.mountType with
  | .bind => do
      let source ← m.source
      let target ← m.target
      some (source ++ ':' :: target ++ ':' :: m.accessMode.display)
  | .volume | .tmpfs => none

/-- The member of a port of the container among the port bindings. -/
def portBindingMember (p : PortMapping) : Text × Json :=
  (p.containerPort.key, .array [record
    [("HostIp".toList, some (.string "0.0.0.0".toList)),
      ("HostPort".toList, some (.string (naturalText p.hostPort.toNat)))]])

/-- What a configuration asks of the host. -/
def hostConfigDocument (config : ContainerConfig) : Json :=
  record
    [("Privileged".toList, some (.bool config.privileged)),
      ("Init".toList, some (.bool config.init)),
      ("ReadonlyRootfs".toList, some (.bool config.readonlyRootfs)),
      ("Binds".toList, unlessEmpty (config.mounts.filterMap bindText) stringsDocument),
      ("PortBindings".toList, unlessEmpty config.ports fun ports =>
        .object (SortedMap.sortByKey (ports.map portBindingMember))),
      ("CapAdd".toList, unlessEmpty config.capAdd stringsDocument),
      ("CapDrop".toList, unlessEmpty config.capDrop stringsDocument),
      ("ShmSize".toList, config.shmSize.map fun n => .number n.toNat),
      ("ExtraHosts".toList, unlessEmpty config.extraHosts stringsDocument),
      ("Mounts".toList, unlessEmpty (config.mounts.filterMap mountDocument) .array)]

/-- What a configuration asks of the daemon. -/
def document (config : ContainerConfig) : Json :=
  record
    [("Image".toList, some (.string config.image)),
      ("Entrypoint".toList, config.entrypoint.bind fun e => unlessEmpty e stringsDocument),
      ("Cmd".toList, unlessEmpty config.cmd stringsDocument),
      ("Env".toList, unlessEmpty config.env stringsDocument),
      ("Labels".toList, unlessEmpty config.labels.entries fun labels =>
        .object (labels.map fun label => (label.1, .string label.2))),
      ("WorkingDir".toList, config.workingDir.map .string),
      ("User".toList, config.user.map .string),
      ("ExposedPorts".toList, unlessEmpty config.ports fun ports =>
        .object (ports.map fun p => (p.containerPort.key, .object []))),
      ("Healthcheck".toList, config.healthCheck.bind Healthcheck.document),
      ("Hostname".toList, config.hostname.map .string),
      ("OpenStdin".toList, if config.openStdin = some true then some (.bool true) else none),
      ("NetworkingConfig".toList, config.network.map fun network => record
        [("EndpointsConfig".toList, some (.object [(network, .object [])]))]),
      ("HostConfig".toList, some (hostConfigDocument config))]

/-! ### Strings -/

/-- Four digits of a control character read back. -/
theorem parseHex_hexText {n : ℕ} (h : n < 0x20) (rest : Text) :
    parseHex (hexText n ++ rest) = some (n, rest) := by
  have hclosed : ∀ n < 0x20, parseHex (hexText n) = some (n, []) := by decide
  have hread := hclosed n h
  revert hread
  rcases hexText n with _ | ⟨a, _ | ⟨b, _ | ⟨c, _ | ⟨d, _ | ⟨e, cs⟩⟩⟩⟩⟩ <;>
    simp [parseHex, Option.bind_eq_some_iff]

/-- **Every character is encoded.** One case for each branch of the escape. -/
theorem encodes_escapeChar (c : Char) : Encodes (escapeChar c) c := by
  unfold escapeChar
  split
  case h_8 hquote hbackslash _ _ _ _ _ =>
      split
      · next hcontrol =>
          refine ⟨by simp, by simp, ?_⟩
          intro rest
          have hread : parseUnicode (hexText c.toNat ++ rest) = some (c, rest) := by
            rw [parseUnicode, parseHex_hexText hcontrol]
            simp only [bind, Option.bind]
            rw [if_neg (by omega), if_neg (by omega), Char.ofNat_toNat]
          exact hread
      · next hplain => exact encodes_self hquote hbackslash (Nat.not_lt.mp hplain)
  all_goals exact ⟨by decide, by decide, fun rest => rfl⟩

/-- **An escaped string denotes the string.** -/
theorem denotesString_escapeJson (s : Text) : DenotesString (escapeJson s) s := by
  have hpieces : List.Forall₂ Encodes (s.map escapeChar) s := by
    rw [List.forall₂_map_left_iff]
    exact List.forall₂_same.mpr fun c _ => encodes_escapeChar c
  rw [escapeJson, escapeJsonValue, List.flatMap_def]
  exact denotesString_of_encodes hpieces

/-- An escaped text denotes that text. -/
theorem denotes_escapeJson (s : Text) : Denotes (escapeJson s) (.string s) :=
  (denotesString_escapeJson s).denotes

/-- The text of a truth value denotes it. -/
theorem denotes_boolText (b : Bool) : Denotes (boolText b) (.bool b) := by
  cases b with
  | false => exact denotes_false
  | true => exact denotes_true

/-! ### Loops and members -/

/-- The loops put commas between the items: behind the first one, by induction on the
others, each has a comma in front of it. -/
theorem pushSeparated_eq {α : Type*} (render : α → Text) (json : Text) (items : List α) :
    pushSeparated render json items = json ++ separated (items.map render) := by
  have hrest : ∀ (items : List α) (json : Text) (i : ℕ), 0 < i →
      (items.zipIdx i).foldl
        (fun json item => (if item.2 > 0 then json ++ [','] else json) ++ render item.1) json =
      json ++ (items.map render).flatMap fun text => ',' :: text := by
    intro items
    induction items with
    | nil =>
        intro json i _
        exact (List.append_nil json).symm
    | cons item items ih =>
        intro json i hi
        rw [List.zipIdx_cons, List.foldl_cons, ih _ _ (Nat.succ_pos i), List.map_cons,
          List.flatMap_cons, if_pos hi]
        simp only [List.append_assoc, List.cons_append, List.nil_append]
  cases items with
  | nil => exact (List.append_nil json).symm
  | cons item items =>
      rw [pushSeparated, List.zipIdx_cons, List.foldl_cons, hrest _ _ _ Nat.one_pos,
        if_neg (Nat.lt_irrefl 0), List.map_cons, separated_cons, List.append_assoc]

/-- A key, a colon and a value make a member. -/
theorem denotesMember_literal {literal : String} {key text : Text} {value : Json}
    (hliteral : literal.toList = escapeJson key ++ [':']) (h : Denotes text value) :
    DenotesMember (literal.toList ++ text) (key, value) := by
  refine ⟨escapeJson key, text, ?_, denotesString_escapeJson key, h⟩
  rw [hliteral, List.append_assoc, List.singleton_append]

/-- A comma, a key, a colon and a value make an optional member that is there. -/
theorem denotesField_some {piece key text : Text} {value : Json}
    (hpiece : piece = ',' :: (escapeJson key ++ ':' :: text)) (h : Denotes text value) :
    DenotesField piece (key, some value) :=
  ⟨_, hpiece, escapeJson key, text, rfl, denotesString_escapeJson key, h⟩

/-- What is pushed if there is a value for it makes an optional member. -/
theorem denotesField_pushSome {literal : String} {key : Text} {text : Option Text}
    {value : Option Json} (hliteral : literal.toList = ',' :: (escapeJson key ++ [':']))
    (h : Option.Rel Denotes text value) : DenotesField (pushSome literal text) (key, value) := by
  cases h with
  | none => rfl
  | some hdenotes =>
      refine denotesField_some ?_ hdenotes
      rw [pushSome, Option.elim_some, hliteral, List.cons_append, List.append_assoc,
        List.singleton_append]

/-- Text that may be absent denotes a value that may be absent, if the text denotes the
value where both are there. -/
theorem rel_map {α : Type*} {text : α → Text} {value : α → Json}
    (h : ∀ a, Denotes (text a) (value a)) (a : Option α) :
    Option.Rel Denotes (a.map text) (a.map value) := by
  cases a with
  | none => exact .none
  | some a => exact .some (h a)

/-- The same where a part that is there may still leave text and value out. -/
theorem rel_bind {α : Type*} {text : α → Option Text} {value : α → Option Json}
    (h : ∀ a, Option.Rel Denotes (text a) (value a)) (a : Option α) :
    Option.Rel Denotes (a.bind text) (a.bind value) := by
  cases a with
  | none => exact .none
  | some a => exact h a

/-- A list is left out of the text exactly if it is left out of the value: when it is
empty. -/
theorem rel_unlessEmpty {α β : Type*} {items : List α} {items' : List β} {text : List α → Text}
    {value : List β → Json} (hempty : items.isEmpty = items'.isEmpty)
    (h : Denotes (text items) (value items')) :
    Option.Rel Denotes (unlessEmpty items text) (unlessEmpty items' value) := by
  rw [unlessEmpty, unlessEmpty, hempty]
  split
  · exact .none
  · exact .some h

/-! ### Arrays and objects -/

/-- Items that denote values make an array. -/
theorem denotes_pushSeparated_array {α : Type*} {render : α → Text} {value : α → Json}
    (items : List α) (h : ∀ a ∈ items, Denotes (render a) (value a)) :
    Denotes ('[' :: separated (items.map render) ++ [']']) (.array (items.map value)) := by
  refine denotes_array ?_
  rw [List.forall₂_map_left_iff, List.forall₂_map_right_iff]
  exact List.forall₂_same.mpr h

/-- Items that make members make an object. -/
theorem denotes_pushSeparated_object {α : Type*} {render : α → Text} {member : α → Text × Json}
    (items : List α) (h : ∀ a ∈ items, DenotesMember (render a) (member a)) :
    Denotes ('{' :: separated (items.map render) ++ ['}']) (.object (items.map member)) := by
  refine denotes_object ?_
  rw [List.forall₂_map_left_iff, List.forall₂_map_right_iff]
  exact List.forall₂_same.mpr h

/-- The text of a list of strings denotes the array of them. -/
theorem denotes_jsonArray (items : List Text) :
    Denotes (jsonArray items) (stringsDocument items) := by
  rw [jsonArray, pushSeparated_eq]
  exact denotes_pushSeparated_array items fun s _ => denotes_escapeJson s

/-- A list of strings, which is left out when it is empty. -/
theorem rel_strings (items : List Text) :
    Option.Rel Denotes (unlessEmpty items jsonArray) (unlessEmpty items stringsDocument) :=
  rel_unlessEmpty rfl (denotes_jsonArray items)

/-- The text of a map of strings denotes the object with its entries as members, in the
order of the keys. -/
theorem denotes_jsonObject (map : SortedMap Text Text) :
    Denotes (jsonObject map)
      (.object (map.entries.map fun entry => (entry.1, .string entry.2))) := by
  rw [jsonObject, pushSeparated_eq]
  refine denotes_pushSeparated_object map.entries ?_
  intro entry _
  exact ⟨_, _, by rw [List.append_assoc]; rfl, denotesString_escapeJson entry.1,
    denotes_escapeJson entry.2⟩

/-- Two braces denote the empty object. -/
theorem denotes_emptyObject : Denotes "\x7b\x7d".toList (.object []) :=
  denotes_object .nil

/-- The text of the exposed ports denotes an object with an empty object for each key. -/
theorem denotes_exposedPortsJson (ports : List Text) :
    Denotes (exposedPortsJson ports) (.object (ports.map fun key => (key, .object []))) := by
  rw [exposedPortsJson, pushSeparated_eq]
  refine denotes_pushSeparated_object ports ?_
  intro key _
  exact ⟨_, _, rfl, denotesString_escapeJson key, denotes_emptyObject⟩

/-- A port of the host as a value. -/
def PortBinding.document (b : PortBinding) : Json :=
  record [("HostIp".toList, some (.string b.hostIp)),
    ("HostPort".toList, some (.string b.hostPort))]

/-- The text of a port binding denotes its document. -/
theorem denotes_portBindingJson (b : PortBinding) :
    Denotes (portBindingJson b) b.document := by
  have htext : ∀ ip port : Text,
      "\x7b\"HostIp\":".toList ++ ip ++ ",\"HostPort\":".toList ++ port ++ "\x7d".toList =
      '{' :: ("\"HostIp\":".toList ++ ip ++
        [pushSome ",\"HostPort\":" (some port)].flatten) ++ ['}'] := by
    intros
    simp [pushSome]
  unfold portBindingJson PortBinding.document
  rw [htext]
  exact denotes_record (denotesMember_literal rfl (denotes_escapeJson _))
    (.cons (denotesField_pushSome rfl (.some (denotes_escapeJson _))) .nil)

/-- The text of the port bindings denotes an object with an array of bindings for each
key. -/
theorem denotes_jsonPortBindings (map : SortedMap Text (List PortBinding)) :
    Denotes (jsonPortBindings map) (.object (map.entries.map fun entry =>
      (entry.1, .array (entry.2.map PortBinding.document)))) := by
  rw [jsonPortBindings, pushSeparated_eq]
  refine denotes_pushSeparated_object map.entries ?_
  intro entry _
  have hbindings : Denotes ('[' :: separated (entry.2.map portBindingJson) ++ [']'])
      (.array (entry.2.map PortBinding.document)) :=
    denotes_pushSeparated_array entry.2 fun b _ => denotes_portBindingJson b
  refine ⟨escapeJson entry.1, _, ?_, denotesString_escapeJson entry.1, hbindings⟩
  rw [pushSeparated_eq, List.append_assoc, List.append_assoc]
  rfl

/-- The nanoseconds of the code are all there are, or the largest number. -/
theorem durationToNanosI64_eq (d : Duration) :
    durationToNanosI64 d = (if d.asNanos < 2 ^ 63 then d.asNanos else 2 ^ 63 - 1 : ℕ) := by
  rw [durationToNanosI64]
  split <;> omega

/-- The number of a span of time denotes the span, within the bound of the daemon's type. -/
theorem denotes_duration (d : Duration) :
    Denotes (integerText (durationToNanosI64 d)) (durationDocument d) := by
  rw [durationDocument, ← Int.cast_natCast, ← durationToNanosI64_eq]
  exact denotes_integer _

/-- **The text of a health check denotes its document**, and both are there or not. Each
member denotes its field, and the test is there or nothing is. -/
theorem Healthcheck.denotes_toDockerJson (h : Healthcheck) :
    Option.Rel Denotes h.toDockerJson h.document := by
  have habsent : (h.test.isEmpty && (h.interval.isNone && h.timeout.isNone && h.retries.isNone &&
      h.startPeriod.isNone && h.startInterval.isNone)) = true ↔
      h.test = [] ∧ h.interval = none ∧ h.timeout = none ∧ h.retries = none ∧
        h.startPeriod = none ∧ h.startInterval = none := by
    simp only [Bool.and_eq_true, List.isEmpty_iff, Option.isNone_iff_eq_none, and_assoc]
  rw [toDockerJson, document]
  split
  · next hnone =>
      rw [if_pos (habsent.mp hnone)]
      exact .none
  · next hsome =>
      rw [if_neg fun hnone => hsome (habsent.mpr hnone)]
      have htext : ∀ test interval timeout retries startPeriod startInterval : Text,
          "\x7b\"Test\":".toList ++ test ++ interval ++ timeout ++ retries ++ startPeriod ++
            startInterval ++ "\x7d".toList =
          '{' :: ("\"Test\":".toList ++ test ++
            [interval, timeout, retries, startPeriod, startInterval].flatten) ++ ['}'] := by
        intros
        simp
      rw [htext]
      exact .some (denotes_record (denotesMember_literal rfl (denotes_jsonArray _))
        (.cons (denotesField_pushSome rfl (rel_map denotes_duration _))
          (.cons (denotesField_pushSome rfl (rel_map denotes_duration _))
            (.cons (denotesField_pushSome rfl (rel_map (fun n => denotes_natural _) _))
              (.cons (denotesField_pushSome rfl (rel_map denotes_duration _))
                (.cons (denotesField_pushSome rfl (rel_map denotes_duration _)) .nil))))))

/-! ### Mounts -/

/-- A required text is accepted only when it is there. -/
theorem required_eq_ok {value : Option Text} {msg : String} {text : Text}
    (h : required value msg = .ok text) : value = some text := by
  cases value with
  | none => exact absurd h (by simp [required])
  | some text' => rw [Except.ok.inj h]

/-- The options of a tmpfs mount in braces denote their document; without any there is no
text. -/
theorem denotes_tmpfsOptionsText (opts : MountTmpfsOptions) :
    (tmpfsOptionsDocument opts).elim (tmpfsOptionsText opts = []) fun value =>
      tmpfsOptionsText opts ≠ [] ∧ Denotes ('{' :: tmpfsOptionsText opts ++ ['}']) value := by
  have hkey : ∀ (literal : String) (text : Text), literal.toList ≠ [] →
      literal.toList ++ text ≠ [] := fun _ _ h => List.append_ne_nil_of_left_ne_nil h _
  obtain ⟨size, mode⟩ := opts
  cases size with
  | none =>
      cases mode with
      | none => rfl
      | some mode =>
          have hmode : Denotes ('{' :: ("\"Mode\":".toList ++ integerText mode) ++ ['}'])
              (record [("Mode".toList, some (.number mode))]) := by
            have hrecord := denotes_record (denotesMember_literal
              (show "\"Mode\":".toList = escapeJson "Mode".toList ++ [':'] from rfl)
              (denotes_integer mode)) .nil
            rwa [List.flatten_nil, List.append_nil] at hrecord
          exact ⟨hkey "\"Mode\":" _ (by decide), hmode⟩
  | some size =>
      have hsize := denotesMember_literal
        (show "\"SizeBytes\":".toList = escapeJson "SizeBytes".toList ++ [':'] from rfl)
        (denotes_integer size)
      cases mode with
      | none =>
          have hrecord := denotes_record hsize .nil
          rw [List.flatten_nil, List.append_nil] at hrecord
          exact ⟨hkey "\"SizeBytes\":" _ (by decide), hrecord⟩
      | some mode =>
          have hrecord := denotes_record hsize (.cons (denotesField_pushSome
            (show ",\"Mode\":".toList = ',' :: (escapeJson "Mode".toList ++ [':']) from rfl)
            (.some (denotes_integer mode))) .nil)
          have htext : tmpfsOptionsText ⟨some size, some mode⟩ =
              "\"SizeBytes\":".toList ++ integerText size ++
                [pushSome ",\"Mode\":" (some (integerText mode))].flatten := by
            simp [tmpfsOptionsText, pushSome]
          rw [tmpfsOptionsDocument, if_neg (by simp), Option.elim_some, htext]
          exact ⟨List.append_ne_nil_of_left_ne_nil (hkey "\"SizeBytes\":" _ (by decide)) _,
            hrecord⟩

/-- The options of a tmpfs mount stand in braces behind their key, if there are any. The
text in the braces is empty exactly if no option is set. -/
theorem denotesField_tmpfsOptions (opts : Option MountTmpfsOptions) :
    DenotesField
      (if ((opts.map tmpfsOptionsText).getD []).isEmpty then []
        else ",\"TmpfsOptions\":\x7b".toList ++ (opts.map tmpfsOptionsText).getD [] ++
          "\x7d".toList)
      ("TmpfsOptions".toList, opts.bind tmpfsOptionsDocument) := by
  cases opts with
  | none => rfl
  | some opts =>
      rw [Option.map_some, Option.getD_some, Option.bind_some]
      have hopts := denotes_tmpfsOptionsText opts
      cases hdocument : tmpfsOptionsDocument opts with
      | none =>
          rw [hdocument] at hopts
          rw [if_pos (List.isEmpty_iff.mpr hopts)]
          rfl
      | some value =>
          rw [hdocument] at hopts
          obtain ⟨hne, hvalue⟩ := hopts
          rw [if_neg (by rwa [List.isEmpty_iff])]
          exact denotesField_some rfl hvalue

/-- The text of a volume mount denotes its document. All of its members are there. -/
theorem denotes_volumeMountJson (source target : Text) (readOnly : Bool) :
    Denotes (volumeMountJson source target readOnly)
      (volumeMountDocument source target readOnly) := by
  have htext : ∀ source target readOnly : Text,
      "\x7b\"Type\":\"volume\",\"Source\":".toList ++ source ++ ",\"Target\":".toList ++ target ++
        ",\"ReadOnly\":".toList ++ readOnly ++ "\x7d".toList =
      '{' :: ("\"Type\":".toList ++ escapeJson "volume".toList ++
        [pushSome ",\"Source\":" (some source), pushSome ",\"Target\":" (some target),
          pushSome ",\"ReadOnly\":" (some readOnly)].flatten) ++ ['}'] := by
    intros
    simp [pushSome, escapeJson, escapeJsonValue, escapeChar]
  unfold volumeMountJson volumeMountDocument
  rw [htext]
  exact denotes_record (denotesMember_literal rfl (denotes_escapeJson _))
    (.cons (denotesField_pushSome rfl (.some (denotes_escapeJson _)))
      (.cons (denotesField_pushSome rfl (.some (denotes_escapeJson _)))
        (.cons (denotesField_pushSome rfl (.some (denotes_boolText _))) .nil)))

/-- The text of a tmpfs mount denotes its document; options are members of it only if
there are any. -/
theorem denotes_tmpfsMountJson (target : Text) (readOnly : Bool)
    (opts : Option MountTmpfsOptions) :
    Denotes (tmpfsMountJson target readOnly opts) (tmpfsMountDocument target readOnly opts) := by
  have htext : ∀ target readOnly opts : Text,
      "\x7b\"Type\":\"tmpfs\",\"Target\":".toList ++ target ++ ",\"ReadOnly\":".toList ++
        readOnly ++ opts ++ "\x7d".toList =
      '{' :: ("\"Type\":".toList ++ escapeJson "tmpfs".toList ++
        [pushSome ",\"Target\":" (some target), pushSome ",\"ReadOnly\":" (some readOnly),
          opts].flatten) ++ ['}'] := by
    intros
    simp [pushSome, escapeJson, escapeJsonValue, escapeChar]
  unfold tmpfsMountJson tmpfsMountDocument
  dsimp only
  rw [htext]
  exact denotes_record (denotesMember_literal rfl (denotes_escapeJson _))
    (.cons (denotesField_pushSome rfl (.some (denotes_escapeJson _)))
      (.cons (denotesField_pushSome rfl (.some (denotes_boolText _)))
        (.cons (denotesField_tmpfsOptions opts) .nil)))

/-- **One mount**: a bind joins the binds, and the text of anything else joins the mounts and
denotes its document. -/
theorem pushMount_spec {state state' : List Text × List Text} {m : Mount}
    (h : pushMount state m = .ok state') :
    ∃ texts, state' = (state.1 ++ (bindText m).toList, state.2 ++ texts) ∧
      List.Forall₂ Denotes texts (mountDocument m).toList := by
  obtain ⟨accessMode, mountType, source, target, opts⟩ := m
  cases mountType with
  | bind =>
      obtain ⟨source, hsource, h⟩ := bind_eq_ok.mp h
      obtain ⟨target, htarget, h⟩ := bind_eq_ok.mp h
      obtain rfl := required_eq_ok hsource
      obtain rfl := required_eq_ok htarget
      obtain rfl := Except.ok.inj h
      exact ⟨[], by rw [List.append_nil]; rfl, .nil⟩
  | volume =>
      obtain ⟨source, hsource, h⟩ := bind_eq_ok.mp h
      obtain ⟨target, htarget, h⟩ := bind_eq_ok.mp h
      obtain rfl := required_eq_ok hsource
      obtain rfl := required_eq_ok htarget
      obtain rfl := Except.ok.inj h
      exact ⟨[_], by rw [bindText, Option.toList_none, List.append_nil],
        .cons (denotes_volumeMountJson _ _ _) .nil⟩
  | tmpfs =>
      obtain ⟨target, htarget, h⟩ := bind_eq_ok.mp h
      obtain rfl := required_eq_ok htarget
      obtain rfl := Except.ok.inj h
      exact ⟨[_], by rw [bindText, Option.toList_none, List.append_nil],
        .cons (denotes_tmpfsMountJson _ _ _) .nil⟩

/-- **All mounts**: the binds are those of the bind mounts, and the mounts denote the documents
of the others, both in order. -/
theorem foldlM_pushMount_spec {mounts : List Mount} {state state' : List Text × List Text}
    (h : mounts.foldlM pushMount state = .ok state') :
    ∃ texts, state' = (state.1 ++ mounts.filterMap bindText, state.2 ++ texts) ∧
      List.Forall₂ Denotes texts (mounts.filterMap mountDocument) := by
  induction mounts generalizing state with
  | nil =>
      obtain rfl := Except.ok.inj h
      exact ⟨[], by simp, .nil⟩
  | cons m mounts ih =>
      rw [List.foldlM_cons] at h
      obtain ⟨state₁, hpush, hrest⟩ := bind_eq_ok.mp h
      obtain ⟨first, rfl, hfirst⟩ := pushMount_spec hpush
      obtain ⟨texts, rfl, hall⟩ := ih hrest
      refine ⟨first ++ texts, ?_, ?_⟩
      · rw [List.append_assoc, List.append_assoc, List.filterMap_cons]
        cases bindText m <;> rfl
      · rw [List.filterMap_cons]
        revert hfirst
        cases mountDocument m with
        | none =>
            rintro ⟨⟩
            exact hall
        | some value =>
            intro hfirst
            exact List.rel_append hfirst hall

/-! ### Ports -/

/-- **Ports have different keys**: the digits end at the slash. Behind the slash the
protocols are spelt differently. -/
theorem ContainerPort.key_injective {port port' : ContainerPort} (h : port.key = port'.key) :
    port = port' := by
  have hdigits : ∀ p : ContainerPort,
      p.key.takeWhile Char.isDigit = naturalText p.asU16.toNat := fun p => by
    rw [key, List.takeWhile_append_of_pos fun _ => isDigit_of_mem_naturalText]
    exact List.append_nil _
  have hnumber : port.asU16 = port'.asU16 := by
    have htext := hdigits port
    rw [h, hdigits port'] at htext
    have hvalue := congrArg (fun digits => Nat.ofDigitChars 10 digits 0) htext
    simp only [naturalText, Nat.ofDigitChars_ten_toDigits] at hvalue
    exact UInt16.toNat_inj.mp hvalue.symm
  have hprotocol : port.asStr = port'.asStr := by
    rw [key, key, hnumber] at h
    exact (List.cons.inj (List.append_cancel_left h)).2
  cases port <;> cases port' <;>
    first
    | exact congrArg _ hnumber
    | exact absurd hprotocol (by simp [asStr])

section Ports

variable {ports : List PortMapping}

/-- Distinct ports have distinct keys. -/
theorem nodup_keys (h : (ports.map PortMapping.containerPort).Nodup) :
    (ports.map fun p => p.containerPort.key).Nodup := by
  have hinj : Function.Injective ContainerPort.key := fun _ _ => ContainerPort.key_injective
  have hkeys := h.map hinj
  rwa [List.map_map] at hkeys

/-- The port bindings are sorted by the keys of the ports. -/
theorem entries_buildPortBindings (h : (ports.map PortMapping.containerPort).Nodup) :
    (buildPortBindings ports).entries = SortedMap.sortByKey (ports.map fun p =>
      (p.containerPort.key, [PortBinding.mk "0.0.0.0".toList (naturalText p.hostPort.toNat)])) := by
  refine SortedMap.entries_ofList ?_
  rw [List.map_map]
  exact nodup_keys h

/-- **The port bindings of a request**: with different container ports, the map built from
the ports has one binding for each, and its text denotes them in the order of the keys. -/
theorem denotes_portBindings (h : (ports.map PortMapping.containerPort).Nodup) :
    Denotes (jsonPortBindings (buildPortBindings ports))
      (.object (SortedMap.sortByKey (ports.map portBindingMember))) := by
  have hmap := SortedMap.map_sortByKey (fun bindings => Json.array (bindings.map
    PortBinding.document)) (ports.map fun p => (p.containerPort.key,
      [PortBinding.mk "0.0.0.0".toList (naturalText p.hostPort.toNat)]))
  rw [← entries_buildPortBindings h, List.map_map] at hmap
  have hdenotes := denotes_jsonPortBindings (buildPortBindings ports)
  rwa [hmap] at hdenotes

/-- Without ports, and only then, there are no port bindings. -/
theorem isEmpty_buildPortBindings (h : (ports.map PortMapping.containerPort).Nodup) :
    (buildPortBindings ports).entries.isEmpty = ports.isEmpty := by
  rw [entries_buildPortBindings h, SortedMap.isEmpty_sortByKey]
  cases ports <;> rfl

/-- The exposed ports of a request, each of which is a member. -/
theorem denotes_exposedPorts (ports : List PortMapping) :
    Denotes (exposedPortsJson (buildExposedPorts ports))
      (.object (ports.map fun p => (p.containerPort.key, .object []))) := by
  have hdenotes := denotes_exposedPortsJson (buildExposedPorts ports)
  rwa [buildExposedPorts, List.map_map] at hdenotes

/-- Without ports, and only then, no ports are exposed. -/
theorem isEmpty_buildExposedPorts (ports : List PortMapping) :
    (buildExposedPorts ports).isEmpty = ports.isEmpty := by
  cases ports <;> rfl

end Ports

/-! ### The body -/

/-- **The body of a configuration** holds what its mounts and ports call for, and everything
else as it is. -/
theorem fromConfig_spec {config : ContainerConfig} {body : CreateContainerBody}
    (h : CreateContainerBody.fromConfig config = .ok body) :
    ∃ mounts, List.Forall₂ Denotes mounts (config.mounts.filterMap mountDocument) ∧
      body =
        { image := config.image, entrypoint := config.entrypoint, cmd := config.cmd
          env := config.env, labels := config.labels, workingDir := config.workingDir
          user := config.user
          hostConfig :=
            { portBindings := buildPortBindings config.ports
              binds := config.mounts.filterMap bindText
              privileged := config.privileged, init := config.init
              capAdd := config.capAdd, capDrop := config.capDrop, shmSize := config.shmSize
              readonlyRootfs := config.readonlyRootfs, extraHosts := config.extraHosts, mounts }
          exposedPorts := buildExposedPorts config.ports, healthcheck := config.healthCheck
          hostname := config.hostname, openStdin := config.openStdin
          network := config.network } := by
  obtain ⟨state, hmounts, h⟩ := bind_eq_ok.mp h
  obtain ⟨texts, rfl, hall⟩ := foldlM_pushMount_spec hmounts
  obtain rfl := Except.ok.inj h
  exact ⟨texts, hall, by simp⟩

/-- Entries of mounts make an optional array. -/
theorem denotesField_mounts {mounts : List Text} {documents : List Json}
    (h : List.Forall₂ Denotes mounts documents) :
    DenotesField (pushSome ",\"Mounts\":[" (unlessEmpty mounts fun mounts =>
      [','].intercalate mounts ++ "]".toList))
      ("Mounts".toList, unlessEmpty documents .array) := by
  cases h with
  | nil => rfl
  | cons hmount hmounts => exact denotesField_some rfl (denotes_array (.cons hmount hmounts))

/-- The network stands alone among the endpoints. Without a network the member is left
out. -/
theorem denotesField_network (network : Option Text) :
    DenotesField (pushSome ",\"NetworkingConfig\":\x7b\"EndpointsConfig\":\x7b"
      (network.map fun network => escapeJson network ++ ":\x7b\x7d".toList ++ "\x7d\x7d".toList))
      ("NetworkingConfig".toList, network.map fun network => record
        [("EndpointsConfig".toList, some (.object [(network, .object [])]))]) := by
  cases network with
  | none => rfl
  | some network =>
      have hnetwork :
          DenotesMember (escapeJson network ++ ":\x7b\x7d".toList) (network, .object []) :=
        ⟨_, _, rfl, denotesString_escapeJson network, denotes_emptyObject⟩
      have hendpoints : Denotes ('{' :: (escapeJson network ++ ":\x7b\x7d".toList) ++ ['}'])
          (.object [(network, .object [])]) := by
        have hobject := denotes_object (.cons hnetwork .nil)
        rwa [separated_singleton] at hobject
      have hrecord := denotes_record (denotesMember_literal
        (show "\"EndpointsConfig\":".toList = escapeJson "EndpointsConfig".toList ++ [':'] from rfl)
        hendpoints) .nil
      refine denotesField_some ?_ hrecord
      simp [pushSome, escapeJson, escapeJsonValue, escapeChar]

/-- Standard input is only mentioned when it is to be open. -/
theorem denotesField_openStdin (openStdin : Option Bool) :
    DenotesField (if openStdin = some true then ",\"OpenStdin\":true".toList else [])
      ("OpenStdin".toList, if openStdin = some true then some (.bool true) else none) := by
  split
  · exact denotesField_some rfl denotes_true
  · rfl

/-- **The text of the configuration of the host denotes its document.** One member after
the other, in the order in which the code writes them, with the mounts and the port
bindings as they have been built. -/
theorem denotes_hostConfig {config : ContainerConfig} {body : CreateContainerBody}
    (hports : (config.ports.map PortMapping.containerPort).Nodup)
    (h : CreateContainerBody.fromConfig config = .ok body) :
    ∃ text, body.hostConfig.toJsonString = .ok text ∧
      Denotes text (hostConfigDocument config) := by
  obtain ⟨mounts, hmounts, rfl⟩ := fromConfig_spec h
  refine ⟨_, rfl, ?_⟩
  have htext : ∀ privileged init readonlyRootfs binds portBindings capAdd capDrop shmSize
      extraHosts mounts : Text,
      "\x7b\"Privileged\":".toList ++ privileged ++ ",\"Init\":".toList ++ init ++
        ",\"ReadonlyRootfs\":".toList ++ readonlyRootfs ++ binds ++ portBindings ++ capAdd ++
        capDrop ++ shmSize ++ extraHosts ++ mounts ++ "\x7d".toList =
      '{' :: ("\"Privileged\":".toList ++ privileged ++
        [pushSome ",\"Init\":" (some init), pushSome ",\"ReadonlyRootfs\":" (some readonlyRootfs),
          binds, portBindings, capAdd, capDrop, shmSize, extraHosts, mounts].flatten) ++
        ['}'] := by
    intros
    simp [pushSome]
  rw [htext]
  unfold hostConfigDocument
  exact denotes_record (denotesMember_literal rfl (denotes_boolText _))
    (.cons (denotesField_pushSome rfl (.some (denotes_boolText _)))
      (.cons (denotesField_pushSome rfl (.some (denotes_boolText _)))
        (.cons (denotesField_pushSome rfl (rel_strings _))
          (.cons (denotesField_pushSome rfl (rel_unlessEmpty (isEmpty_buildPortBindings hports)
              (denotes_portBindings hports)))
            (.cons (denotesField_pushSome rfl (rel_strings _))
              (.cons (denotesField_pushSome rfl (rel_strings _))
                (.cons (denotesField_pushSome rfl (rel_map (fun n => denotes_natural _) _))
                  (.cons (denotesField_pushSome rfl (rel_strings _))
                    (.cons (denotesField_mounts hmounts) .nil)))))))))

/-- **The text of a body denotes the document of its configuration.** One member after the
other, in the order in which the code writes them; once the body is built nothing can
fail. -/
theorem denotes_toJsonString {config : ContainerConfig} {body : CreateContainerBody}
    (hports : (config.ports.map PortMapping.containerPort).Nodup)
    (h : CreateContainerBody.fromConfig config = .ok body) :
    ∃ text, body.toJsonString = .ok text ∧ Denotes text (document config) := by
  obtain ⟨hostConfig, hhost, hdenotes⟩ := denotes_hostConfig hports h
  obtain ⟨mounts, -, rfl⟩ := fromConfig_spec h
  refine ⟨_, bind_eq_ok.mpr ⟨hostConfig, hhost, rfl⟩, ?_⟩
  have htext : ∀ image entrypoint cmd env labels workingDir user exposedPorts healthcheck
      hostname openStdin network hostConfig : Text,
      "\x7b\"Image\":".toList ++ image ++ entrypoint ++ cmd ++ env ++ labels ++ workingDir ++
        user ++ exposedPorts ++ healthcheck ++ hostname ++ openStdin ++ network ++
        ",\"HostConfig\":".toList ++ hostConfig ++ "\x7d".toList =
      '{' :: ("\"Image\":".toList ++ image ++
        [entrypoint, cmd, env, labels, workingDir, user, exposedPorts, healthcheck, hostname,
          openStdin, network, pushSome ",\"HostConfig\":" (some hostConfig)].flatten) ++
        ['}'] := by
    intros
    simp [pushSome]
  rw [htext]
  unfold document
  exact denotes_record (denotesMember_literal rfl (denotes_escapeJson _))
    (.cons (denotesField_pushSome rfl (rel_bind rel_strings _))
      (.cons (denotesField_pushSome rfl (rel_strings _))
        (.cons (denotesField_pushSome rfl (rel_strings _))
          (.cons (denotesField_pushSome rfl (rel_unlessEmpty rfl (denotes_jsonObject _)))
            (.cons (denotesField_pushSome rfl (rel_map denotes_escapeJson _))
              (.cons (denotesField_pushSome rfl (rel_map denotes_escapeJson _))
                (.cons (denotesField_pushSome rfl (rel_unlessEmpty
                    (isEmpty_buildExposedPorts _) (denotes_exposedPorts _)))
                  (.cons (denotesField_pushSome rfl
                      (rel_bind Healthcheck.denotes_toDockerJson _))
                    (.cons (denotesField_pushSome rfl (rel_map denotes_escapeJson _))
                      (.cons (denotesField_openStdin _)
                        (.cons (denotesField_network _)
                          (.cons (denotesField_pushSome rfl (.some hdenotes)) .nil))))))))))))

/-! ### Repeated keys -/

section DistinctKeys

/-- A member that is there has distinct keys if its value has. -/
theorem distinctKeys_some {value : Json} (h : DistinctKeys value) :
    DistinctIfPresent (some value) := by
  rintro v hv
  exact Option.some.inj hv ▸ h

/-- A member that may be absent has distinct keys if its values have. -/
theorem distinctKeys_map {α : Type*} {value : α → Json} (h : ∀ a, DistinctKeys (value a))
    (a : Option α) : DistinctIfPresent (a.map value) := by
  rintro v hv
  obtain ⟨a, -, rfl⟩ := Option.map_eq_some_iff.mp hv
  exact h a

/-- The same where a part that is there may still leave the member out. -/
theorem distinctKeys_bind {α : Type*} {value : α → Option Json}
    (h : ∀ a, DistinctIfPresent (value a)) (a : Option α) :
    DistinctIfPresent (a.bind value) := by
  rintro v hv
  obtain ⟨a, -, hv⟩ := Option.bind_eq_some_iff.mp hv
  exact h a v hv

/-- A list that is left out when it is empty has distinct keys if its value has. -/
theorem distinctKeys_unlessEmpty {α : Type*} {value : List α → Json} {items : List α}
    (h : DistinctKeys (value items)) : DistinctIfPresent (unlessEmpty items value) := by
  rintro v hv
  rw [unlessEmpty] at hv
  split at hv
  · exact absurd hv (by simp)
  · exact Option.some.inj hv ▸ h

/-- An array of strings has no keys, so they are distinct. -/
theorem distinctKeys_strings (items : List Text) : DistinctKeys (stringsDocument items) := by
  refine .array ?_
  intro item hitem
  obtain ⟨s, -, rfl⟩ := List.mem_map.mp hitem
  exact .string s

/-- The document of a health check has distinct keys. -/
theorem distinctKeys_healthcheck (h : Healthcheck) : DistinctIfPresent h.document := by
  rintro v hv
  rw [Healthcheck.document] at hv
  split at hv
  · exact absurd hv (by simp)
  · obtain rfl := Option.some.inj hv
    exact distinctKeys_record (by simp only [List.map_cons, List.map_nil]; decide)
      ⟨distinctKeys_some (distinctKeys_strings _),
        distinctKeys_map (fun _ => .number _) _, distinctKeys_map (fun _ => .number _) _,
        distinctKeys_map (fun _ => .number _) _, distinctKeys_map (fun _ => .number _) _,
        distinctKeys_map (fun _ => .number _) _⟩

/-- The options of a tmpfs mount have distinct keys. -/
theorem distinctKeys_tmpfsOptions (opts : MountTmpfsOptions) :
    DistinctIfPresent (tmpfsOptionsDocument opts) := by
  rintro v hv
  rw [tmpfsOptionsDocument] at hv
  split at hv
  · exact absurd hv (by simp)
  · obtain rfl := Option.some.inj hv
    exact distinctKeys_record (by simp only [List.map_cons, List.map_nil]; decide)
      ⟨distinctKeys_map (fun _ => .number _) _, distinctKeys_map (fun _ => .number _) _⟩

/-- The document of a volume mount has distinct keys. -/
theorem distinctKeys_volumeMount (source target : Text) (readOnly : Bool) :
    DistinctKeys (volumeMountDocument source target readOnly) :=
  distinctKeys_record (by simp only [List.map_cons, List.map_nil]; decide)
    ⟨distinctKeys_some (.string _), distinctKeys_some (.string _), distinctKeys_some (.string _),
      distinctKeys_some (.bool _)⟩

/-- The document of a tmpfs mount has distinct keys. -/
theorem distinctKeys_tmpfsMount (target : Text) (readOnly : Bool)
    (opts : Option MountTmpfsOptions) :
    DistinctKeys (tmpfsMountDocument target readOnly opts) :=
  distinctKeys_record (by simp only [List.map_cons, List.map_nil]; decide)
    ⟨distinctKeys_some (.string _), distinctKeys_some (.string _), distinctKeys_some (.bool _),
      distinctKeys_bind distinctKeys_tmpfsOptions _⟩

/-- The document of a mount has distinct keys, of either type. -/
theorem distinctKeys_mount {m : Mount} {v : Json} (h : mountDocument m = some v) :
    DistinctKeys v := by
  rw [mountDocument] at h
  split at h
  · exact absurd h (by simp)
  · obtain ⟨source, -, h⟩ := Option.bind_eq_some_iff.mp h
    obtain ⟨target, -, h⟩ := Option.bind_eq_some_iff.mp h
    exact Option.some.inj h ▸ distinctKeys_volumeMount _ _ _
  · obtain ⟨target, -, h⟩ := Option.bind_eq_some_iff.mp h
    exact Option.some.inj h ▸ distinctKeys_tmpfsMount _ _ _

/-- An array of mounts has distinct keys, for each of the mounts has. -/
theorem distinctKeys_mounts (mounts : List Mount) :
    DistinctKeys (.array (mounts.filterMap mountDocument)) := by
  refine .array ?_
  intro item hitem
  obtain ⟨m, -, hm⟩ := List.mem_filterMap.mp hitem
  exact distinctKeys_mount hm

/-- Labels have distinct keys, since they come from a map. -/
theorem distinctKeys_labels (labels : SortedMap Text Text) :
    DistinctIfPresent (unlessEmpty labels.entries fun labels =>
      .object (labels.map fun label => (label.1, .string label.2))) := by
  refine distinctKeys_unlessEmpty (.object ?_ ?_)
  · rw [List.map_map]
    exact labels.nodup_keys
  · intro member hmember
    obtain ⟨label, -, rfl⟩ := List.mem_map.mp hmember
    exact .string _

/-- The empty object has no keys. -/
theorem distinctKeys_emptyObject : DistinctKeys (.object []) :=
  .object List.nodup_nil fun _ hmember => absurd hmember List.not_mem_nil

section Ports

variable {ports : List PortMapping} (h : (ports.map PortMapping.containerPort).Nodup)

include h

/-- The exposed ports have distinct keys if the container ports are different. -/
theorem distinctKeys_exposedPorts :
    DistinctIfPresent (unlessEmpty ports fun ports =>
      .object (ports.map fun p => (p.containerPort.key, .object []))) := by
  refine distinctKeys_unlessEmpty (.object ?_ ?_)
  · rw [List.map_map]
    exact nodup_keys h
  · intro member hmember
    obtain ⟨p, -, rfl⟩ := List.mem_map.mp hmember
    exact distinctKeys_emptyObject

/-- The port bindings have distinct keys if the container ports are different; sorting
does not change which keys there are. -/
theorem distinctKeys_portBindings :
    DistinctIfPresent (unlessEmpty ports fun ports =>
      .object (SortedMap.sortByKey (ports.map portBindingMember))) := by
  have hperm := SortedMap.perm_sortByKey (ports.map portBindingMember)
  refine distinctKeys_unlessEmpty (.object ?_ ?_)
  · rw [(hperm.map Prod.fst).nodup_iff, List.map_map]
    exact nodup_keys h
  · intro member hmember
    obtain ⟨p, -, rfl⟩ := List.mem_map.mp (hperm.mem_iff.mp hmember)
    refine .array ?_
    intro item hitem
    obtain rfl := List.mem_singleton.mp hitem
    exact distinctKeys_record (by simp only [List.map_cons, List.map_nil]; decide)
      ⟨distinctKeys_some (.string _), distinctKeys_some (.string _)⟩

end Ports

/-- **The host configuration has distinct keys** if the container ports are different:
each of its members has, and so have their names. -/
theorem distinctKeys_hostConfig {config : ContainerConfig}
    (h : (config.ports.map PortMapping.containerPort).Nodup) :
    DistinctKeys (hostConfigDocument config) :=
  distinctKeys_record (by simp only [List.map_cons, List.map_nil]; decide)
    ⟨distinctKeys_some (.bool _), distinctKeys_some (.bool _), distinctKeys_some (.bool _),
      distinctKeys_unlessEmpty (distinctKeys_strings _),
      distinctKeys_portBindings h,
      distinctKeys_unlessEmpty (distinctKeys_strings _),
      distinctKeys_unlessEmpty (distinctKeys_strings _), distinctKeys_map (fun _ => .number _) _,
      distinctKeys_unlessEmpty (distinctKeys_strings _),
      distinctKeys_unlessEmpty (distinctKeys_mounts _)⟩

/-- The network has distinct keys: there is one endpoint. -/
theorem distinctKeys_network (network : Text) :
    DistinctKeys (record [("EndpointsConfig".toList, some (.object [(network, .object [])]))]) := by
  refine distinctKeys_record (by simp) (distinctKeys_some (.object (by simp) ?_))
  rintro member hmember
  obtain rfl := List.mem_singleton.mp hmember
  exact distinctKeys_emptyObject

/-- **No key is repeated** in the document of a configuration with distinct ports. Only
the ports could repeat one, and their keys are different. -/
theorem distinctKeys_document {config : ContainerConfig}
    (h : (config.ports.map PortMapping.containerPort).Nodup) :
    DistinctKeys (document config) := by
  have hstdin : DistinctIfPresent
      (if config.openStdin = some true then some (.bool true) else none) := by
    split
    · exact distinctKeys_some (.bool _)
    · intro v hv
      exact absurd hv (by simp)
  exact distinctKeys_record (by simp only [List.map_cons, List.map_nil]; decide)
    ⟨distinctKeys_some (.string _),
      distinctKeys_bind (fun _ => distinctKeys_unlessEmpty (distinctKeys_strings _)) _,
      distinctKeys_unlessEmpty (distinctKeys_strings _),
      distinctKeys_unlessEmpty (distinctKeys_strings _), distinctKeys_labels _,
      distinctKeys_map .string _, distinctKeys_map .string _,
      distinctKeys_exposedPorts h, distinctKeys_bind distinctKeys_healthcheck _,
      distinctKeys_map .string _, hstdin, distinctKeys_map distinctKeys_network _,
      distinctKeys_some (distinctKeys_hostConfig h)⟩

end DistinctKeys

/-! ### The text is faithful -/

/-- **The text of a create request is faithful.** For a configuration whose container ports
are distinct, whenever there is a body for it, its text is read as exactly the document that
the configuration calls for; that is one object, and no object in it repeats a key. And
every escaped string is read as the string. -/
theorem createContainerJson_faithful :
    (∀ (config : ContainerConfig) (body : CreateContainerBody),
      (config.ports.map PortMapping.containerPort).Nodup →
      CreateContainerBody.fromConfig config = .ok body →
      ∃ text members, body.toJsonString = .ok text ∧ parse text = some (document config) ∧
        document config = .object members ∧ DistinctKeys (document config)) ∧
    ∀ s : Text, parse (escapeJson s) = some (.string s) := by
  refine ⟨?_, fun s => (denotes_escapeJson s).parse⟩
  intro config body hports hbody
  obtain ⟨text, htext, hdenotes⟩ := denotes_toJsonString hports hbody
  exact ⟨text, _, htext, hdenotes.parse, rfl, distinctKeys_document hports⟩

/-- A health check every five and a half seconds, and a start period of one nanosecond more
than the daemon's numbers hold. -/
def sampleHealthcheck : Healthcheck where
  test := ["NONE".toList]
  interval := some ⟨5, 500000000, by decide⟩
  timeout := none
  retries := some 3
  startPeriod := some ⟨9223372036, 854775808, by decide⟩
  startInterval := none

/-- A configuration with quotes and control characters, ports, mounts and a health check. -/
def sampleConfig : ContainerConfig where
  image := "a\"b\\c\n".toList
  entrypoint := some []
  cmd := ["x".toList, []]
  env := []
  ports := [⟨8080, .tcp 80⟩, ⟨0, .udp 80⟩]
  mounts := [⟨.readOnly, .bind, some "/h".toList, some "/c".toList, none⟩,
    ⟨.readWrite, .tmpfs, none, some "/t".toList, some ⟨some 5, none⟩⟩]
  labels := .ofList [("k".toList, "\t".toList)]
  privileged := false
  workingDir := none
  user := some "é".toList
  init := true
  healthCheck := some sampleHealthcheck
  capAdd := []
  capDrop := ["ALL".toList]
  shmSize := some 64
  readonlyRootfs := false
  hostname := none
  openStdin := some true
  network := some "n".toList
  extraHosts := []

/-- There is a body for the sample configuration. -/
theorem exists_fromConfig_sampleConfig :
    ∃ body, CreateContainerBody.fromConfig sampleConfig = .ok body :=
  isOk_iff.mp (by decide +kernel)

/-- The text of the sample configuration is faithful, its spans of time among the rest.
The interval of five and a half seconds is written in nanoseconds. -/
theorem createContainerJson_faithful_sample :
    (∃ body text, CreateContainerBody.fromConfig sampleConfig = .ok body ∧
      body.toJsonString = .ok text ∧ parse text = some (document sampleConfig) ∧
      DistinctKeys (document sampleConfig)) ∧
    sampleHealthcheck.document = some (record
      [("Test".toList, some (.array [.string "NONE".toList])),
        ("Interval".toList, some (.number 5500000000)), ("Retries".toList, some (.number 3)),
        ("StartPeriod".toList, some (.number 9223372036854775807))]) := by
  constructor
  · obtain ⟨body, hbody⟩ := exists_fromConfig_sampleConfig
    obtain ⟨text, members, htext, hparse, -, hdistinct⟩ :=
      createContainerJson_faithful.1 sampleConfig body (by decide) hbody
    exact ⟨body, text, hbody, htext, hparse, hdistinct⟩
  · have hinterval : durationDocument ⟨5, 500000000, by decide⟩ = .number 5500000000 := by
      rw [durationDocument, if_pos (by decide)]
      rfl
    have hstart : durationDocument ⟨9223372036, 854775808, by decide⟩ =
        .number 9223372036854775807 := by
      rw [durationDocument, if_neg (by decide)]
      rfl
    rw [← hinterval, ← hstart, Healthcheck.document, if_neg (by decide)]
    rfl

end ContainerRs
