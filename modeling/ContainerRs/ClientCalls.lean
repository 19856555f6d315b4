import ContainerRs.CopyTo
import ContainerRs.Lib.Programs
import ContainerRs.LogWaitStrategy
import ContainerRs.MacConfig
import ContainerRs.Ports

/-!
# Calls to the Container Runtime

The runner (runners/async_runner.rs) and the handle of a container (async_container.rs) are
written against a client: of the Docker daemon on Linux, of the XPC services on macOS. They also
start threads, set timers, sleep and read logs. The module lists these calls with what they
return, so that the code above the client is a program over them (`Lib.Programs`).

Nothing is assumed about the replies. The errors are those of core/error.rs.
-/

namespace ContainerRs

open Programs

/-! ### Lengths of time -/

/-- So many seconds. -/
def Duration.fromSecs (secs : UInt64) : Duration := ⟨secs, 0, by decide⟩

/-- So many milliseconds. -/
def Duration.fromMillis (millis : UInt64) : Duration where
  secs := millis / 1000
  nanos := UInt32.ofNat (millis.toNat % 1000 * 1000000)
  nanos_lt := by
    rw [UInt32.toNat_ofNat']
    exact Nat.lt_of_le_of_lt (Nat.mod_le _ _) (by omega)

/-! ### Errors -/

/-- An error of a client (`ClientError`, core/error.rs). -/
inductive ClientFailure
  | xpcConnect
  | xpc (msg : Text)
  | xpcTimeout
  | imageNotFound (image : Text)
  | containerNotFound (id : Text)
  | containerPathNotFound (path : Text)
  | configuration (msg : Text)
  | json (msg : Text)
  | other (msg : Text)
  deriving DecidableEq, Repr

/-- Why an HTTP wait cannot begin. -/
inductive HttpWaitError
  | noExposedPortsForHttpWait
  | noResponseMatcher
  | requestBuild (msg : Text)
  deriving DecidableEq, Repr

/-- Why a wait for a log message ends without it. -/
inductive WaitLogError
  | endOfStream (collected : Bytes)
  | io
  deriving DecidableEq, Repr

/-- Why a container does not become ready. -/
inductive WaitContainerError
  | waitLog (e : WaitLogError)
  | httpWait (e : HttpWaitError)
  | healthCheckNotConfigured (id : Text)
  | unhealthy (id : Text)
  | startupTimeout (id : Text) (timeout : Duration)
  | unexpectedExitCode (expected : Int) (actual : Option Int)
  deriving DecidableEq, Repr

/-- An error of the crate. -/
inductive Error
  | client (e : ClientFailure)
  | waitContainer (e : WaitContainerError)
  | portNotExposed (id : Text) (port : ContainerPort)
  /-- A command has exited with another code than expected. -/
  | exec (expected actual : Int)
  | io
  /-- Copying to a container has failed. -/
  | copyTo (e : CopyToError)
  | other (msg : Text)
  deriving DecidableEq, Repr

/-! ### What calls return -/

/-- What `container_state` returns of a container. -/
structure ContainerSnapshot where
  running : Bool
  ports : Ports

/-- The verdict of the daemon's health check. -/
inductive HealthStatus
  | starting
  | healthy
  | unhealthy
  deriving DecidableEq, Repr

/-- What `container_health` returns of a container. -/
structure HealthProbe where
  running : Bool
  health : Option HealthStatus
  deriving DecidableEq, Repr

/-- A response as it is given to the matcher of an HTTP wait. -/
structure HttpResponse where
  status : UInt16
  headers : List (Text × Text)
  body : Bytes
  deriving DecidableEq, Repr

/-- The output and the exit code of a command. -/
structure RawExec where
  exitCode : Option Int
  stdout : Bytes
  stderr : Bytes
  deriving DecidableEq, Repr

/-- What is to happen to containers in the end (`TESTCONTAINERS_COMMAND`, core/env.rs). -/
inductive Command
  | remove
  | keep
  deriving DecidableEq, Repr

/-! ### The calls -/

/-- The calls. The first seven are methods of both clients, those from `create_container` on of the
Docker client, those from `content_get` on of the XPC client; those from `register_watchdog` on
belong to the handle and to the runtime. -/
inductive Call
  | resolveImageDescriptor (descriptor : Text)
  | pullImage (descriptor : Text) (platform : Option Text)
  | containerState (id : Text)
  | exec (id : Text) (cmd env : List Text)
  | stop (id : Text) (timeoutSeconds : Option Int)
  | remove (id : Text) (force : Bool)
  | removeBlocking (id : Text) (force : Bool)
  | createContainer (config : ContainerConfig) (name platform : Option Text)
  | copyTo (id dir : Text) (tar : Bytes)
  | startContainer (id : Text)
  | spawnLogSession (id : Text)
  | containerEnv (id : Text)
  | containerHealth (id : Text)
  | contentGet (digest : Text)
  | getDefaultKernel
  | resolveVolume (name : Text)
  | xpcCreate (config : ContainerCfg) (kernel : Bytes)
  | bootstrapContainer (id : Text)
  | startProcess (id : Text)
  | copyIn (id : Text) (source destination : Bytes) (mode : UInt32)
  | logs (id : Text)
  | gatewayIpAddress (id : Text)
  | registerWatchdog (id : Text)
  | createCopyDataTemp
  | writeCopyDataTemp (path data : Bytes)
  | removeCopyDataTemp (path : Bytes)
  | spawnExitCodeWaiter (id : Text)
  | spawnLogConsumerTasks (id : Text)
  | stopLogDelivery (id : Text)
  | logTasksDone (id : Text)
  | closeLogs (id : Text)
  | exitCodeHint (id : Text)
  | exitCode (id : Text)
  | pollLogs (id : Text) (source : LogSource)
  | sendRequest (host : Text) (port : UInt16) (requestBytes : Bytes)
  | sleep (length : Duration)
  | timer (length : Duration)

/-- What a call returns. The reply to `pollLogs` is one round of the log wait, that to `timer`
the number of calls that are answered before it fires, and that to `sendRequest` is a response if
there was one in time. -/
@[reducible] def Reply : Call → Type
  | .resolveImageDescriptor _ => Except Error Text
  | .pullImage _ _ => Except Error Unit
  | .containerState _ => Except Error ContainerSnapshot
  | .exec _ _ _ => Except Error RawExec
  | .stop _ _ => Except Error Unit
  | .remove _ _ => Except Error Unit
  | .removeBlocking _ _ => Except Error Unit
  | .createContainer _ _ _ => Except Error Text
  | .copyTo _ _ _ => Except Error Unit
  | .startContainer _ => Except Error Unit
  | .spawnLogSession _ => Except Error Unit
  | .containerEnv _ => Except Error (List Text)
  | .containerHealth _ => Except Error HealthProbe
  | .contentGet _ => Except Error Bytes
  | .getDefaultKernel => Except Error Bytes
  | .resolveVolume _ => Except Error VolumeResolution
  | .xpcCreate _ _ => Except Error Unit
  | .bootstrapContainer _ => Except Error Unit
  | .startProcess _ => Except Error Unit
  | .copyIn _ _ _ _ => Except Error Unit
  | .logs _ => Except Error Unit
  | .gatewayIpAddress _ => Except Error Text
  | .registerWatchdog _ => Unit
  | .createCopyDataTemp => Except Error Bytes
  | .writeCopyDataTemp _ _ => Except Error Unit
  | .removeCopyDataTemp _ => Unit
  | .spawnExitCodeWaiter _ => Unit
  | .spawnLogConsumerTasks _ => Unit
  | .stopLogDelivery _ => Unit
  | .logTasksDone _ => Bool
  | .closeLogs _ => Unit
  | .exitCodeHint _ => Option Int
  | .exitCode _ => Except Error (Option Int)
  | .pollLogs _ source => Round source.readers
  | .sendRequest _ _ _ => Option HttpResponse
  | .sleep _ => Unit
  | .timer _ => ℕ

/-- Code above the client that cannot fail. -/
abbrev Task (α : Type) : Type := Program Call Reply α

/-- Code above the client that may fail. -/
abbrev Fallible (α : Type) : Type := ExceptT Error (Program Call Reply) α

/-- A call and the reply to it. -/
abbrev ask (op : Call) : Task (Reply op) := Program.request op

/-- A call that cannot fail. -/
def perform (op : Call) : Fallible (Reply op) := ExceptT.lift (ask op)

/-- A call whose reply is a result: the error or the value of the code that makes it. -/
def attempt {α : Type} (p : Task (Except Error α)) : Fallible α := ExceptT.mk p

/-- A result that needs no call. -/
def liftExcept {α : Type} (result : Except Error α) : Fallible α := ExceptT.mk (pure result)

end ContainerRs
