import ContainerRs.ClientCalls
import ContainerRs.ExecEnv
import ContainerRs.FetchLogs
import ContainerRs.FrameDemuxer
import ContainerRs.HttpDecode
import ContainerRs.Lib.Lines
import ContainerRs.Lib.Outcomes
import ContainerRs.UrlEncoding
import Mathlib.Data.Set.List

/-!
# The Client of the Docker Daemon

On Linux the calls of `ClientCalls` are carried out by `DockerClient` (docker_client.rs): each of
its methods exchanges requests and responses with the daemon, one connection for each, and makes
a result of what it gets. Most need one exchange. A command needs at least three: it is created
and started, and behind the end of its output the daemon is asked for its exit code until it no
longer calls it running, with longer and longer pauses.

The JSON library, the configuration of registries and the display of errors are parameters, and
nothing is assumed about the responses.

## Main results

* `dockerExec_runs_iff`: the exchanges of a command that ends, and what is made of them.
* `dockerPull_runs_iff`: the exchange of a pull that succeeds.
-/

namespace ContainerRs

open Outcomes Programs Program Utf8

/-! ### Exchanges -/

/-- Why there is no response: an error of the socket, or of the HTTP library. -/
inductive TransportError
  | io
  | other (msg : Text)
  deriving DecidableEq, Repr

/-- The error of the crate. -/
def TransportError.toError : TransportError → Error
  | io => .io
  | other msg => .client (.other msg)

/-- A response of the daemon. -/
structure DaemonResponse where
  status : UInt16
  body : Option Bytes
  deriving DecidableEq, Repr

/-- What is sent besides the target of a request: headers of its own, and a body with its type. -/
structure Payload where
  headers : List (Text × Text)
  body : Option (Bytes × Text)
  deriving DecidableEq, Repr

namespace Payload

/-- Nothing. -/
def empty : Payload := ⟨[], none⟩

/-- A JSON text. -/
def json (text : Text) : Payload := ⟨[], some (utf8 text, "application/json".toList)⟩

/-- An archive. -/
def tar (bytes : Bytes) : Payload := ⟨[], some (bytes, "application/x-tar".toList)⟩

end Payload

/-- What is asked for below the calls: a request to the daemon, named by what sends it, with the
limit on the body of the response; or a call that the client has no part in. -/
inductive DaemonCall
  | exchange (call : ApiCall) (payload : Payload) (limit : BodyLimit)
  | beside (op : Call)

/-- What comes back. -/
@[reducible] def DaemonReply : DaemonCall → Type
  | .exchange _ _ _ => Except TransportError DaemonResponse
  | .beside op => Reply op

/-- Code of the client. -/
abbrev DaemonTask (α : Type) : Type := Program DaemonCall DaemonReply α

/-- Code of the client that may fail. -/
abbrev DaemonFallible (α : Type) : Type := ExceptT Error (Program DaemonCall DaemonReply) α

/-- What is asked for below the calls, and what came back. -/
abbrev DaemonTrace : Type := List (Event DaemonCall DaemonReply)

/-- What is asked for alone. -/
abbrev askDaemon (op : DaemonCall) : DaemonTask (DaemonReply op) := Program.request op

/-- A request to the daemon whose failure is that of the method. -/
def exchange (call : ApiCall) (payload : Payload) (limit : BodyLimit) :
    DaemonFallible DaemonResponse := ExceptT.mk do
  let reply ← askDaemon (.exchange call payload limit)
  return Except.mapError TransportError.toError reply

/-- What is made of a response. -/
def conclude {α : Type} (result : Except Error α) : DaemonFallible α := ExceptT.mk (pure result)

/-! ### Responses -/

/-- The error for a status. -/
def refusal (what : String) (status : UInt16) : Error :=
  .client (.other (what.toList ++ ": ".toList ++ Json.naturalText status.toNat))

/-- A status below 400 is a success, and so are those given. -/
def settle (what : String) (tolerated : List UInt16) (response : DaemonResponse) :
    Except Error Unit :=
  if response.status ∈ tolerated then .ok ()
  else if response.status ≥ 400 then .error (refusal what response.status)
  else .ok ()

/-- A result of the JSON library. -/
def jsonResult {α : Type} : Except Text α → Except Error α
  | .ok a => .ok a
  | .error e => .error (.client (.json e))

/-- What the client reads of JSON besides members, arrays and texts: whether a value is an object,
truth values, and numbers of 64 bits. -/
structure DockerJson (ν : Type) extends RawJson ν where
  isObject : ν → Bool
  toBool : ν → Except Text Bool
  toI64 : ν → Except Text Int

/-- What the client depends on: the JSON library, where the credentials of registries are, and
how errors are displayed. -/
structure DockerSurroundings (ν : Type) where
  json : DockerJson ν
  environment : Environment
  utf8Error : Bytes → Text
  displayError : TransportError → Text

/-- The pauses between two questions for an exit code. -/
def execExitCodeBackoffMillis : List UInt64 := [10, 50, 200, 500, 1000]

/-- The body that creates a command. -/
def execConfigJson (cmd env : List Text) : Text :=
  "\x7b\"AttachStdout\":".toList ++ boolText true ++ ",\"AttachStderr\":".toList ++
    boolText true ++ pushSome ",\"Cmd\":" (unlessEmpty cmd jsonArray) ++
    pushSome ",\"Env\":" (unlessEmpty env jsonArray) ++ "\x7d".toList

/-- The body that starts a command. -/
def execStartConfigJson : Text :=
  "\x7b\"Detach\":".toList ++ boolText false ++ ",\"Tty\":".toList ++ boolText false ++
    "\x7d".toList

/-- The exit code in the first of the states that is not running. -/
def resolveExecExitCode (states : List (Bool × Option Int)) : Option Int :=
  (states.find? fun state => !state.1).bind Prod.snd

/-- What is looked at of a line of the progress of a pull. -/
def pullLine (line : Text) : Text := trim (line.rdropWhile (· = '\r'))

namespace DockerSurroundings

variable {ν : Type} (docker : DockerSurroundings ν)

/-! ### Reading responses -/

/-- The document in the body of a response. -/
def jsonBody (empty : String) (response : DaemonResponse) : Except Error ν :=
  match response.body with
  | none => .error (.client (.other empty.toList))
  | some body =>
      match fromUtf8 body with
      | none => .error (.client (.json (docker.utf8Error body)))
      | some text => jsonResult (docker.json.parse text)

/-- The id that the daemon has given to what it has created. -/
def createdId (what empty : String) (response : DaemonResponse) : Except Error Text := do
  settle what [] response
  let parsed ← docker.jsonBody empty response
  jsonResult ((docker.json.required parsed "Id".toList).bind docker.json.toText)

/-- The truth value in a member, if it is there and is one. -/
def optionalBool (value : ν) (name : String) : Option Bool :=
  (docker.json.optional value name.toList).bind fun member => (docker.json.toBool member).toOption

/-- The state of a command in a response: it is running only if the daemon says so. -/
def parseExecInspectState (body : Bytes) : Except Error (Bool × Option Int) :=
  match fromUtf8 body with
  | none => .error (.client (.json (docker.utf8Error body)))
  | some text =>
      match docker.json.parse text with
      | .error e => .error (.client (.json e))
      | .ok value => .ok ((docker.optionalBool value "Running").getD false,
          (docker.json.optional value "ExitCode".toList).bind fun member =>
            (docker.json.toI64 member).toOption)

/-- The state of a command. -/
def execState (response : DaemonResponse) : Except Error (Bool × Option Int) := do
  settle "failed to inspect exec" [] response
  match response.body with
  | none => .error (.client (.other "empty exec inspect body".toList))
  | some body => docker.parseExecInspectState body

/-- The message with which the daemon refuses a request. -/
def parseDaemonErrorMessage (body : Bytes) : Option Text := do
  let text ← fromUtf8 body
  let value ← (docker.json.parse text).toOption
  let message ← (docker.json.required value "message".toList).toOption
  (docker.json.toText message).toOption

/-- What is said of a pull that is refused. -/
def pullErrorMessage (descriptor : Text) (status : UInt16) (body : Bytes) : Text :=
  "failed to pull image ".toList ++ descriptor ++ ": ".toList ++ Json.naturalText status.toNat ++
    match (docker.parseDaemonErrorMessage body).filter (· ≠ []) with
    | some message => ": ".toList ++ message
    | none => []

/-- The error that an entry of the progress of a pull reports: of two texts that are not empty, the
first. -/
def reportedError (value : ν) : Option Text :=
  ((docker.json.optionalText value "error".toList).filter (· ≠ [])).or
    (((docker.json.optional value "errorDetail".toList).bind fun detail =>
      docker.json.optionalText detail "message".toList).filter (· ≠ []))

/-- An entry of the progress of a pull. -/
def checkPullEntry (line : Text) : Except ClientFailure Unit :=
  match docker.json.parse line with
  | .error e => .error (.json e)
  | .ok value =>
      if docker.json.isObject value then
        match docker.reportedError value with
        | some msg => .error (.other msg)
        | none => .ok ()
      else .error (.json ("expected object in pull stream, got ".toList ++ line))

/-- A line of the progress of a pull. -/
def checkPullLine (line : Text) : Except ClientFailure Unit :=
  if pullLine line = [] then .ok () else docker.checkPullEntry (pullLine line)

/-- The progress of a pull, to its first error. -/
def checkPullStreamErrors (body : Bytes) : Except ClientFailure Unit :=
  match fromUtf8 body with
  | none => .error (.json (docker.utf8Error body))
  | some text => forM (Lines.lines '\n' text) docker.checkPullLine

/-- The document about a container. -/
def inspected (id : Text) (response : DaemonResponse) : Except Error ν := do
  if response.status = 404 then .error (.client (.containerNotFound id))
  else
    settle "failed to inspect container" [] response
    docker.jsonBody "empty inspect body" response

/-- The state in the document about a container. -/
def stateOf (parsed : ν) : Except Error ν := jsonResult (docker.json.required parsed "State".toList)

/-- Is the container running? -/
def isRunning (state : ν) : Bool := (docker.optionalBool state "Running").getD false

/-- What the health check says, if there is one. -/
def healthOf (state : ν) : Option HealthStatus :=
  ((docker.json.optional state "Health".toList).bind fun health =>
    docker.json.optionalText health "Status".toList).bind fun status =>
      if status = "starting".toList then some .starting
      else if status = "healthy".toList then some .healthy
      else if status = "unhealthy".toList then some .unhealthy
      else none

/-- What a look at a container gives. -/
def snapshotOf (id : Text) (response : DaemonResponse) : Except Error ContainerSnapshot := do
  let parsed ← docker.inspected id response
  let state ← docker.stateOf parsed
  return ⟨docker.isRunning state, parsePorts docker.json.toRawJson parsed⟩

/-- What a look at the health of a container gives. -/
def probeOf (id : Text) (response : DaemonResponse) : Except Error HealthProbe := do
  let parsed ← docker.inspected id response
  let state ← docker.stateOf parsed
  return ⟨docker.isRunning state, docker.healthOf state⟩

/-! ### The methods -/

/-- Look for an image. -/
def resolveImageDescriptor (descriptor : Text) : DaemonFallible Text := do
  let response ← exchange (.resolveImageDescriptor descriptor) .empty .unlimited
  conclude <|
    if response.status = 200 then .ok descriptor
    else if response.status = 404 then .error (.client (.imageNotFound descriptor))
    else .error (.client (.other ("failed to resolve image ".toList ++ descriptor ++ ": ".toList ++
      Json.naturalText response.status.toNat)))

/-- The headers of a pull. -/
def pullPayload (descriptor : Text) : Payload where
  headers := (xRegistryAuth docker.json.toRawJson docker.environment descriptor).toList.map fun v =>
    ("X-Registry-Auth".toList, v)
  body := none

/-- What is made of the reply to a pull. -/
def pullResult (descriptor : Text) : Except TransportError DaemonResponse → Except Error Unit
  | .error e => .error (.client (.other ("failed to receive pull progress for image ".toList ++
      descriptor ++ ": ".toList ++ docker.displayError e)))
  | .ok response =>
      if response.status ≥ 400 then
        .error (.client (.other (docker.pullErrorMessage descriptor response.status
          (response.body.getD []))))
      else (docker.checkPullStreamErrors (response.body.getD [])).mapError .client

/-- Pull an image. -/
def pullImage (descriptor : Text) (platform : Option Text) : DaemonFallible Unit := ExceptT.mk do
  let reply ← askDaemon (.exchange (.pullImage descriptor platform)
    (docker.pullPayload descriptor) (.error dockerResponseBodyLimit))
  return docker.pullResult descriptor reply

/-- The text of a configuration. -/
def createContainerJson (config : ContainerConfig) : Except Error Text :=
  match CreateContainerBody.fromConfig config >>= CreateContainerBody.toJsonString with
  | .ok text => .ok text
  | .error (.configuration msg) => .error (.client (.configuration msg.toList))

/-- Create a container. -/
def createContainer (config : ContainerConfig) (name platform : Option Text) :
    DaemonFallible Text := do
  let bodyJson ← conclude (createContainerJson config)
  let response ← exchange (.createContainer name platform) (.json bodyJson) .unlimited
  conclude (docker.createdId "failed to create container" "empty response body" response)

/-- Start a container. -/
def startContainer (id : Text) : DaemonFallible Unit := do
  let response ← exchange (.startContainer id) .empty .unlimited
  conclude (settle "failed to start container" [] response)

/-- Stop a container; one that is not there is stopped. -/
def stop (id : Text) (timeoutSeconds : Option Int) : DaemonFallible Unit := do
  let response ← exchange (.stop id timeoutSeconds) .empty .unlimited
  conclude (settle "failed to stop container" [404] response)

/-- Remove a container; one that is not there is removed. -/
def remove (id : Text) (force : Bool) : DaemonFallible Unit := do
  let response ← exchange (.remove id force) .empty .unlimited
  conclude (settle "failed to remove container" [404] response)

/-- The same for threads that are in no runtime. -/
def removeBlocking : Text → Bool → DaemonFallible Unit := remove

/-- Unpack an archive in a directory of a container. -/
def copyTo (id dir : Text) (tar : Bytes) : DaemonFallible Unit := do
  let response ← exchange (.copyTo id dir) (.tar tar) .unlimited
  conclude <|
    if response.status = 404 then .error (.client (.containerNotFound id))
    else settle "failed to copy to container" [] response

/-- Look at a container. -/
def containerState (id : Text) : DaemonFallible ContainerSnapshot := do
  let response ← exchange (.inspectJson id) .empty .unlimited
  conclude (docker.snapshotOf id response)

/-- The environment of a container. -/
def containerEnv (id : Text) : DaemonFallible (List Text) := do
  let response ← exchange (.inspectJson id) .empty .unlimited
  conclude ((docker.inspected id response).map (ContainerRs.containerEnv docker.json.toRawJson))

/-- The health of a container. -/
def containerHealth (id : Text) : DaemonFallible HealthProbe := do
  let response ← exchange (.inspectJson id) .empty .unlimited
  conclude (docker.probeOf id response)

/-- Ask for the state of a command. -/
def inspectExec (execId : Text) : DaemonFallible (Bool × Option Int) := do
  let response ← exchange (.execInspect execId) .empty .unlimited
  conclude (docker.execState response)

/-- Sleep. -/
def sleepMillis (millis : UInt64) : DaemonFallible Unit :=
  ExceptT.lift (askDaemon (.beside (.sleep (.fromMillis millis))))

/-- Ask for the state of a command until it is not running, with these pauses between the
questions: the states that were seen. -/
def execStates (execId : Text) : List UInt64 → DaemonFallible (List (Bool × Option Int))
  | [] => do
      let state ← docker.inspectExec execId
      return [state]
  | millis :: backoff => do
      let state ← docker.inspectExec execId
      if state.1 then
        sleepMillis millis
        return state :: (← execStates execId backoff)
      else return [state]

/-- The output of a command that has been started. -/
def execOutput (response : DaemonResponse) : Except Error (Bytes × Bytes) := do
  settle "failed to start exec" [] response
  match response.body with
  | none => .error (.client (.other "empty exec start response body".toList))
  | some streamBody => .ok (demuxExecStream streamBody)

/-- Start a command that has been created, and see what becomes of it. -/
def startExec (execId : Text) : DaemonFallible RawExec := do
  let started ← exchange (.execStart execId) (.json execStartConfigJson)
    (.error dockerResponseBodyLimit)
  let (stdout, stderr) ← conclude (execOutput started)
  let states ← docker.execStates execId execExitCodeBackoffMillis
  return { exitCode := resolveExecExitCode states, stdout, stderr }

/-- Run a command in a container. -/
def exec (id : Text) (cmd env : List Text) : DaemonFallible RawExec := do
  let created ← exchange (.exec id) (.json (execConfigJson cmd env)) .unlimited
  let execId ← conclude
    (docker.createdId "failed to create exec" "empty exec response body" created)
  docker.startExec execId

/-- How a call is carried out. -/
def carryOut : (op : Call) → DaemonTask (Reply op)
  | .resolveImageDescriptor descriptor => (resolveImageDescriptor descriptor).run
  | .pullImage descriptor platform => (docker.pullImage descriptor platform).run
  | .containerState id => (docker.containerState id).run
  | .exec id cmd env => (docker.exec id cmd env).run
  | .stop id timeoutSeconds => (stop id timeoutSeconds).run
  | .remove id force => (remove id force).run
  | .removeBlocking id force => (removeBlocking id force).run
  | .createContainer config name platform => (docker.createContainer config name platform).run
  | .copyTo id dir tar => (copyTo id dir tar).run
  | .startContainer id => (startContainer id).run
  | .containerEnv id => (docker.containerEnv id).run
  | .containerHealth id => (docker.containerHealth id).run
  | op => askDaemon (.beside op)

end DockerSurroundings

/-! ### Runs of the methods -/

/-- An exchange that gives a response is one event. -/
theorem runs_exchange {call : ApiCall} {payload : Payload} {limit : BodyLimit} {tr : DaemonTrace}
    {response : DaemonResponse} :
    Runs (exchange call payload limit).run tr (.ok response) ↔
      tr = [⟨.exchange call payload limit, .ok response⟩] := by
  refine runs_request_bind.trans ⟨?_, ?_⟩
  · rintro ⟨reply, rest, rfl, hrest⟩
    obtain ⟨rfl, hreply⟩ := runs_pure.mp hrest
    rw [mapError_eq_ok.mp hreply]
  · rintro rfl
    exact ⟨.ok response, [], rfl, runs_pure.mpr ⟨rfl, rfl⟩⟩

/-- A result is concluded without an event. -/
theorem runs_conclude {α : Type} {result r : Except Error α} {tr : DaemonTrace} :
    Runs (conclude result).run tr r ↔ tr = [] ∧ result = r := runs_pure

/-- A method that needs one exchange. -/
theorem runs_exchange_conclude {α : Type} {call : ApiCall} {payload : Payload} {limit : BodyLimit}
    {result : DaemonResponse → Except Error α} {tr : DaemonTrace} {a : α} :
    Runs (exchange call payload limit >>= fun response => conclude (result response)).run tr
        (.ok a) ↔
      ∃ response, tr = [⟨.exchange call payload limit, .ok response⟩] ∧
        result response = .ok a := by
  rw [runs_ok_bind]
  constructor
  · rintro ⟨response, tr₁, tr₂, rfl, hexchange, hconclude⟩
    obtain rfl := runs_exchange.mp hexchange
    obtain ⟨rfl, hresult⟩ := runs_conclude.mp hconclude
    exact ⟨response, rfl, hresult⟩
  · rintro ⟨response, rfl, hresult⟩
    exact ⟨response, _, [], rfl, runs_exchange.mpr rfl, runs_conclude.mpr ⟨rfl, hresult⟩⟩

namespace DockerSurroundings

variable {ν : Type} {docker : DockerSurroundings ν} {tr : DaemonTrace} {execId : Text}

/-! ### Commands -/

/-- The daemon is asked for the state of a command. -/
def asked (execId : Text) (response : DaemonResponse) : Event DaemonCall DaemonReply :=
  ⟨.exchange (.execInspect execId) .empty .unlimited, .ok response⟩

/-- Questions with a pause behind each. -/
def questions (execId : Text) : List UInt64 → List DaemonResponse → DaemonTrace
  | millis :: backoff, response :: responses =>
      asked execId response :: ⟨.beside (.sleep (.fromMillis millis)), ()⟩ ::
        questions execId backoff responses
  | _, _ => []

/-- **The run lemma of the questions**: while the command is running, the daemon is asked again, as
long as there are pauses left. -/
theorem runs_execStates {backoff : List UInt64} {states : List (Bool × Option Int)} :
    Runs (docker.execStates execId backoff).run tr (.ok states) ↔
      ∃ (before : List DaemonResponse) (last : DaemonResponse) (codes : List (Option Int))
          (state : Bool × Option Int),
        tr = questions execId backoff before ++ [asked execId last] ∧
        before.length ≤ backoff.length ∧
        (codes.map fun code => .ok (true, code)) = before.map docker.execState ∧
        docker.execState last = .ok state ∧
        (state.1 = true → before.length = backoff.length) ∧
        states = codes.map (true, ·) ++ [state] := by
  have hinspect {tr : DaemonTrace} {state : Bool × Option Int} :
      Runs (docker.inspectExec execId).run tr (.ok state) ↔
        ∃ response, tr = [asked execId response] ∧ docker.execState response = .ok state :=
    runs_exchange_conclude
  induction backoff generalizing tr states with
  | nil =>
      rw [execStates, runs_ok_bind]
      constructor
      · rintro ⟨state, tr₁, tr₂, rfl, hstate, hend⟩
        obtain ⟨last, rfl, hlast⟩ := hinspect.mp hstate
        obtain ⟨rfl, hstates⟩ := runs_pure.mp hend
        obtain rfl := Except.ok.inj hstates
        exact ⟨[], last, [], state, rfl, Nat.le_refl _, rfl, hlast, fun _ => rfl, rfl⟩
      · rintro ⟨before, last, codes, state, rfl, hlen, hcodes, hlast, -, rfl⟩
        obtain rfl := List.eq_nil_of_length_eq_zero (Nat.le_zero.mp hlen)
        obtain rfl := List.map_eq_nil_iff.mp hcodes
        exact ⟨state, _, [], rfl, hinspect.mpr ⟨last, rfl, hlast⟩, runs_pure.mpr ⟨rfl, rfl⟩⟩
  | cons millis backoff ih =>
      rw [execStates, runs_ok_bind]
      constructor
      · rintro ⟨state, tr₁, tr₂, rfl, hstate, hrest⟩
        obtain ⟨response, rfl, hresponse⟩ := hinspect.mp hstate
        cases hrunning : state.1 with
        | false =>
            simp only [hrunning, Bool.false_eq_true, if_false] at hrest
            obtain ⟨rfl, hstates⟩ := runs_pure.mp hrest
            obtain rfl := Except.ok.inj hstates
            refine ⟨[], response, [], state, rfl, Nat.zero_le _, rfl, hresponse, ?_, rfl⟩
            intro hstate
            exact absurd (hrunning.symm.trans hstate) (by decide)
        | true =>
            simp only [hrunning, if_true] at hrest
            obtain ⟨⟨⟩, tr₃, tr₄, rfl, hsleep, hagain⟩ := runs_ok_bind.mp hrest
            obtain ⟨⟨⟩, -, hslept⟩ := runs_lift.mp hsleep
            obtain rfl := runs_request.mp hslept
            obtain ⟨more, tr₅, tr₆, rfl, hmore, hend⟩ := runs_ok_bind.mp hagain
            obtain ⟨rfl, hstates⟩ := runs_pure.mp hend
            obtain rfl := Except.ok.inj hstates
            obtain ⟨before, last, codes, final, rfl, hlen, hcodes, hlast, hfinal, rfl⟩ :=
              ih.mp hmore
            obtain ⟨running, code⟩ := state
            obtain rfl : running = true := hrunning
            refine ⟨response :: before, last, code :: codes, final, ?_, Nat.succ_le_succ hlen,
              congrArg₂ List.cons hresponse.symm hcodes, hlast,
              fun h => congrArg (· + 1) (hfinal h), rfl⟩
            simp [questions]
      · rintro ⟨before, last, codes, state, rfl, hlen, hcodes, hlast, hfinal, rfl⟩
        cases before with
        | nil =>
            obtain rfl := List.map_eq_nil_iff.mp hcodes
            have hstopped : state.1 = false := by
              cases hstate : state.1 with
              | false => rfl
              | true => exact absurd (hfinal hstate) (by simp)
            refine ⟨state, _, [], rfl, hinspect.mpr ⟨last, rfl, hlast⟩, ?_⟩
            simp only [hstopped, Bool.false_eq_true, if_false]
            exact runs_pure.mpr ⟨rfl, rfl⟩
        | cons response before =>
            obtain ⟨code, codes, rfl, hresponse, hcodes⟩ := List.map_eq_cons_iff.mp hcodes
            refine ⟨(true, code), [asked execId response], _, rfl,
              hinspect.mpr ⟨response, rfl, hresponse.symm⟩, ?_⟩
            simp only [if_true]
            refine runs_ok_bind.mpr ⟨(), [_], _, rfl, runs_lift.mpr ⟨(), rfl, runs_request.mpr rfl⟩,
              ?_⟩
            have hagain := ih.mpr ⟨before, last, codes, state, rfl, Nat.le_of_succ_le_succ hlen,
              hcodes, hlast, fun h => Nat.succ.inj (hfinal h), rfl⟩
            exact runs_ok_bind.mpr ⟨_, _, [], (List.append_nil _).symm, hagain,
              runs_pure.mpr ⟨rfl, rfl⟩⟩

/-- Responses that all call the command running. -/
theorem exists_codes_iff {responses : List DaemonResponse} :
    (∃ codes : List (Option Int),
        (codes.map fun code => .ok (true, code)) = responses.map docker.execState) ↔
      ∀ response ∈ responses, ∃ code, docker.execState response = .ok (true, code) := by
  have hrange := Set.ext_iff.mp (Set.range_list_map fun code : Option Int =>
    (.ok (true, code) : Except Error (Bool × Option Int))) (responses.map docker.execState)
  simp only [Set.mem_range, Set.mem_ofPred_eq, List.forall_mem_map] at hrange
  exact hrange.trans (forall₂_congr fun response _ => exists_congr fun code => eq_comm)

/-- The exit code is that of the last state, unless the command is still running. -/
theorem resolveExecExitCode_concat (codes : List (Option Int)) (state : Bool × Option Int) :
    resolveExecExitCode (codes.map (true, ·) ++ [state]) = if state.1 then none else state.2 := by
  induction codes with
  | nil => cases hstate : state.1 <;> simp [resolveExecExitCode, hstate]
  | cons code codes ih =>
      rw [resolveExecExitCode] at ih ⊢
      simpa using ih

/-! ### Pulls -/

/-- The entry is one of progress: an object in which neither the member "error" nor the member
"message" of "errorDetail" is a text that says anything. -/
structure IsProgress (docker : DockerSurroundings ν) (value : ν) : Prop where
  isObject : docker.json.isObject value = true
  error : ∀ msg, docker.json.optionalText value "error".toList = some msg → msg = []
  detail : ∀ detail msg, docker.json.optional value "errorDetail".toList = some detail →
    docker.json.optionalText detail "message".toList = some msg → msg = []

/-- No error is reported exactly if both texts are empty where they are there. The two
places are looked at in turn, so that a text in either of them is reported. -/
theorem reportedError_eq_none_iff {value : ν} :
    docker.reportedError value = none ↔
      (∀ msg, docker.json.optionalText value "error".toList = some msg → msg = []) ∧
        ∀ detail msg, docker.json.optional value "errorDetail".toList = some detail →
          docker.json.optionalText detail "message".toList = some msg → msg = [] := by
  have hempty (text : Option Text) :
      text.filter (· ≠ []) = none ↔ ∀ msg, text = some msg → msg = [] := by
    cases text with
    | none => simp
    | some msg => simp [Option.filter]
  rw [reportedError, Option.or_eq_none_iff, hempty, hempty]
  refine and_congr_right fun _ => ?_
  generalize "message".toList = message
  cases docker.json.optional value "errorDetail".toList with
  | none => simp
  | some detail =>
      simp only [Option.bind_some, Option.some.injEq]
      exact ⟨fun h _ msg heq => heq ▸ h msg, fun h msg => h detail msg rfl⟩

/-- **An entry is accepted** exactly if it is one of progress. -/
theorem checkPullEntry_eq_ok_iff {line : Text} :
    docker.checkPullEntry line = .ok () ↔
      ∃ value, docker.json.parse line = .ok value ∧ docker.IsProgress value := by
  rw [checkPullEntry]
  cases hparse : docker.json.parse line with
  | error e => simp
  | ok value =>
      have hprogress : docker.IsProgress value ↔
          docker.json.isObject value = true ∧ docker.reportedError value = none := by
        rw [reportedError_eq_none_iff]
        exact ⟨fun h => ⟨h.isObject, h.error, h.detail⟩, fun h => ⟨h.1, h.2.1, h.2.2⟩⟩
      simp only [Except.ok.injEq, exists_eq_left', hprogress]
      cases hobject : docker.json.isObject value with
      | false => simp
      | true => cases hreported : docker.reportedError value <;> simp

/-- **The progress of a pull** is accepted exactly if no line that is not blank reports an error,
or is not an object. -/
theorem checkPullStreamErrors_eq_ok_iff {body : Bytes} :
    docker.checkPullStreamErrors body = .ok () ↔
      ∃ text, fromUtf8 body = some text ∧
        ∀ line ∈ Lines.lines '\n' text, pullLine line ≠ [] →
          ∃ value, docker.json.parse (pullLine line) = .ok value ∧
            docker.IsProgress value := by
  have hline (line : Text) : docker.checkPullLine line = .ok () ↔
      (pullLine line ≠ [] → docker.checkPullEntry (pullLine line) = .ok ()) := by
    by_cases hblank : pullLine line = [] <;> simp [checkPullLine, hblank]
  rw [checkPullStreamErrors]
  cases htext : fromUtf8 body with
  | none => simp
  | some text => simp [forM_eq_ok_iff, hline, checkPullEntry_eq_ok_iff]

/-- **When a pull has succeeded**: a status below 400, and a text of which every line that
is not blank parses to a value that reports progress. -/
theorem pullResult_eq_ok_iff {descriptor : Text} {response : DaemonResponse} :
    docker.pullResult descriptor (.ok response) = .ok () ↔
      response.status < 400 ∧ ∃ text, fromUtf8 (response.body.getD []) = some text ∧
        ∀ line ∈ Lines.lines '\n' text, pullLine line ≠ [] →
          ∃ value, docker.json.parse (pullLine line) = .ok value ∧
            docker.IsProgress value := by
  rw [pullResult, ← checkPullStreamErrors_eq_ok_iff]
  by_cases hstatus : response.status ≥ 400
  · simp [hstatus]
  · rw [if_neg hstatus, mapError_eq_ok]
    exact (and_iff_right (UInt16.not_le.mp hstatus)).symm

end DockerSurroundings

/-- **The exchanges of a command.** It is created, with its words and its environment; it is
started, and its output is read to the end; and the daemon is asked for its exit code, again
after each of the pauses as long as it calls the command running. Exactly so it ends with this
output and the last code, or without a code if it is still called running behind the last
pause. -/
theorem dockerExec_runs_iff {ν : Type} (docker : DockerSurroundings ν) (id : Text)
    (cmd env : List Text) (tr : DaemonTrace) (raw : RawExec) :
    Runs (docker.exec id cmd env).run tr (.ok raw) ↔
      ∃ created execId started before last state,
        tr = ⟨.exchange (.exec id) (.json (execConfigJson cmd env)) .unlimited, .ok created⟩ ::
          ⟨.exchange (.execStart execId) (.json execStartConfigJson)
            (.error dockerResponseBodyLimit), .ok started⟩ ::
          (DockerSurroundings.questions execId execExitCodeBackoffMillis before ++
            [DockerSurroundings.asked execId last]) ∧
        docker.createdId "failed to create exec" "empty exec response body" created = .ok execId ∧
        DockerSurroundings.execOutput started = .ok (raw.stdout, raw.stderr) ∧
        before.length ≤ 5 ∧
        (∀ response ∈ before, ∃ code, docker.execState response = .ok (true, code)) ∧
        docker.execState last = .ok state ∧ (state.1 = true → before.length = 5) ∧
        raw.exitCode = if state.1 then none else state.2 := by
  rw [DockerSurroundings.exec]
  constructor
  · intro h
    obtain ⟨created, tr₁, rest₁, rfl, hcreate, h₁⟩ := runs_ok_bind.mp h
    obtain ⟨execId, tr₂, rest₂, rfl, hid, h₂⟩ := runs_ok_bind.mp h₁
    obtain ⟨started, tr₃, rest₃, rfl, hstart, h₃⟩ := runs_ok_bind.mp h₂
    obtain ⟨output, tr₄, rest₄, rfl, houtput, h₄⟩ := runs_ok_bind.mp h₃
    obtain ⟨states, tr₅, rest₅, rfl, hstates, h₅⟩ := runs_ok_bind.mp h₄
    obtain rfl := runs_exchange.mp hcreate
    obtain ⟨rfl, hcreated⟩ := runs_conclude.mp hid
    obtain rfl := runs_exchange.mp hstart
    obtain ⟨rfl, hended⟩ := runs_conclude.mp houtput
    obtain ⟨before, last, codes, state, rfl, hlen, hcodes, hlast, hfinal, rfl⟩ :=
      DockerSurroundings.runs_execStates.mp hstates
    obtain ⟨rfl, hraw⟩ := runs_pure.mp h₅
    obtain rfl := Except.ok.inj hraw
    exact ⟨created, execId, started, before, last, state, by simp, hcreated, hended, hlen,
      DockerSurroundings.exists_codes_iff.mp ⟨codes, hcodes⟩, hlast, hfinal,
      DockerSurroundings.resolveExecExitCode_concat codes state⟩
  · rintro ⟨created, execId, started, before, last, state, rfl, hcreated, hended, hlen, hbefore,
      hlast, hfinal, hcode⟩
    obtain ⟨codes, hcodes⟩ := DockerSurroundings.exists_codes_iff.mpr hbefore
    refine runs_ok_bind.mpr ⟨created, [_], _, rfl, runs_exchange.mpr rfl, ?_⟩
    refine runs_ok_bind.mpr ⟨execId, [], _, rfl, runs_conclude.mpr ⟨rfl, hcreated⟩, ?_⟩
    refine runs_ok_bind.mpr ⟨started, [_], _, rfl, runs_exchange.mpr rfl, ?_⟩
    refine runs_ok_bind.mpr ⟨_, [], _, rfl, runs_conclude.mpr ⟨rfl, hended⟩, ?_⟩
    refine runs_ok_bind.mpr ⟨_, _, [], (List.append_nil _).symm,
      DockerSurroundings.runs_execStates.mpr ⟨before, last, codes, state, rfl, hlen, hcodes, hlast,
        hfinal, rfl⟩, runs_pure.mpr ⟨rfl, ?_⟩⟩
    rw [DockerSurroundings.resolveExecExitCode_concat, ← hcode]

/-- **The exchange of a pull.** A pull succeeds exactly if the daemon accepts it and reports no
error in any line of its progress; the credentials of the registry, if there are any, are sent
with the request. -/
theorem dockerPull_runs_iff {ν : Type} (docker : DockerSurroundings ν) (descriptor : Text)
    (platform : Option Text) (tr : DaemonTrace) :
    Runs (docker.pullImage descriptor platform).run tr (.ok ()) ↔
      ∃ response text,
        tr = [⟨.exchange (.pullImage descriptor platform) (docker.pullPayload descriptor)
          (.error dockerResponseBodyLimit), .ok response⟩] ∧
        response.status < 400 ∧ fromUtf8 (response.body.getD []) = some text ∧
        ∀ line ∈ Lines.lines '\n' text, pullLine line ≠ [] →
          ∃ value, docker.json.parse (pullLine line) = .ok value ∧
            docker.IsProgress value := by
  rw [DockerSurroundings.pullImage]
  refine runs_request_bind.trans ⟨?_, ?_⟩
  · rintro ⟨reply, rest, rfl, hrest⟩
    obtain ⟨rfl, hresult⟩ := runs_pure.mp hrest
    cases reply with
    | error e => exact absurd hresult (by simp [DockerSurroundings.pullResult])
    | ok response =>
        obtain ⟨hstatus, text, htext, hlines⟩ := DockerSurroundings.pullResult_eq_ok_iff.mp hresult
        exact ⟨response, text, rfl, hstatus, htext, hlines⟩
  · rintro ⟨response, text, rfl, hstatus, htext, hlines⟩
    exact ⟨.ok response, [], rfl, runs_pure.mpr ⟨rfl,
      DockerSurroundings.pullResult_eq_ok_iff.mpr ⟨hstatus, text, htext, hlines⟩⟩⟩

end ContainerRs
