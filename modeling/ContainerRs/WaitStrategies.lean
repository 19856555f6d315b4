import ContainerRs.HttpWait

/-!
# Waiting until a Container is Ready

The conditions of `WaitFor` (wait/mod.rs) as programs over the calls: each strategy polls and
sleeps until what it has observed decides. `block_until_ready` waits for one condition after the
other, under the timer of its caller.

A loop is given a number of rounds. The timer leaves time for a number of calls and each round
makes one, so under a timer the rounds never run out (`timeout_runs`).

## Main results

The specifications are those of `WaitObservations`.
-/

namespace ContainerRs

open Programs Program

/-- The platforms. -/
inductive Platform
  | linux
  | macos
  deriving DecidableEq, Repr

/-- The calls that were made and the replies to them. -/
abbrev Trace : Type := List (Event Call Reply)

/-! ### The strategies -/

/-- Wait until the health check of the container passes. -/
structure HealthWaitStrategy where
  pollInterval : Duration
  deriving DecidableEq, Repr

/-- Wait until the container has ended, with the expected code if there is one. -/
structure ExitWaitStrategy where
  expectedCode : Option Int
  pollInterval : Duration
  deriving DecidableEq, Repr

/-- The conditions under which a container is ready. -/
inductive WaitFor
  | nothing
  | log (strategy : LogWaitStrategy)
  | duration (length : Duration)
  | healthcheck (strategy : HealthWaitStrategy)
  | http (strategy : HttpWaitStrategy)
  | exit (strategy : ExitWaitStrategy)

/-- Does a condition ask for the log? -/
def readyConditionsRequireLog (conditions : List WaitFor) : Bool :=
  conditions.any fun
    | .log _ => true
    | _ => false

/-- The error of a wait. -/
def waitError {α : Type} (e : WaitContainerError) : Except Error α := .error (.waitContainer e)

namespace HealthWaitStrategy

/-- One round on Linux; the state says whether the container has been seen running. A running
container without health has no health check; before it runs, the daemon may not have set it up
yet. -/
def round (s : HealthWaitStrategy) (id : Text) (seenRunning : Bool) :
    Task (Bool ⊕ Except Error Unit) := do
  match ← ask (.containerHealth id) with
  | .error e => return .inr (.error e)
  | .ok probe =>
      let seenRunning := seenRunning || probe.running
      match probe.health with
      | some .healthy => return .inr (.ok ())
      | some .unhealthy => return .inr (waitError (.unhealthy id))
      | some .starting =>
          ask (.sleep s.pollInterval)
          return .inl seenRunning
      | none =>
          if seenRunning then return .inr (waitError (.healthCheckNotConfigured id))
          else
            ask (.sleep s.pollInterval)
            return .inl seenRunning

/-- The wait. There are no health checks on macOS. -/
def waitUntilReady (s : HealthWaitStrategy) (platform : Platform) (id : Text) (rounds : ℕ) :
    Task (Option (Except Error Unit)) :=
  match platform with
  | .macos => pure (some (waitError (.healthCheckNotConfigured id)))
  | .linux => iterate (s.round id) rounds false

end HealthWaitStrategy

namespace ExitWaitStrategy

/-- What an exit code means for the wait. -/
def verdict (s : ExitWaitStrategy) (actual : Int) : Except Error Unit :=
  match s.expectedCode with
  | some expected =>
      if actual ≠ expected then waitError (.unexpectedExitCode expected (some actual)) else .ok ()
  | none => .ok ()

/-- What a code means that is fetched once the container has ended. -/
def fetchedVerdict (expected : Int) : Except Error (Option Int) → Except Error Unit
  | .error e => .error e
  | .ok (some actual) =>
      if actual ≠ expected then waitError (.unexpectedExitCode expected (some actual)) else .ok ()
  | .ok none => waitError (.unexpectedExitCode expected none)

/-- One round. -/
def round (s : ExitWaitStrategy) (platform : Platform) (id : Text) (_ : Unit) :
    Task (Unit ⊕ Except Error Unit) := do
  match ← ask (.exitCodeHint id) with
  | some actual => return .inr (s.verdict actual)
  | none =>
      match ← ask (.containerState id) with
      | .error e => return .inr (.error e)
      | .ok state =>
          if !state.running && s.expectedCode.isNone then return .inr (.ok ())
          else if platform = .macos ∧ state.running = false then
            match s.expectedCode with
            | none => return .inr (.ok ())
            | some expected =>
                let reply ← ask (.exitCode id)
                return .inr (fetchedVerdict expected reply)
          else
            ask (.sleep s.pollInterval)
            return .inl ()

/-- The wait. -/
def waitUntilReady (s : ExitWaitStrategy) (platform : Platform) (id : Text) (rounds : ℕ) :
    Task (Option (Except Error Unit)) :=
  iterate (s.round platform id) rounds ()

end ExitWaitStrategy

/-! ### Ports of the host -/

/-- A port that is mapped, the least over IPv4 if there is one. -/
def Ports.firstContainerPort (ports : Ports) : Option ContainerPort :=
  (ports.ipv4Mapping.entries.head?.map Prod.fst).orElse fun _ =>
    ports.ipv6Mapping.entries.head?.map Prod.fst

/-- The ports of a container. -/
def containerPorts (id : Text) : Fallible Ports := do
  let state ← attempt (ask (.containerState id))
  return state.ports

/-- The host port of a port, by one of the mappings. -/
def getHostPort (mapToHostPort : Ports → ContainerPort → Option UInt16) (id : Text)
    (port : ContainerPort) : Fallible UInt16 := do
  let ports ← containerPorts id
  liftExcept ((mapToHostPort ports port).elim (.error (.portNotExposed id port)) .ok)

/-- The host port of a port over IPv4. -/
def getHostPortIpv4 : Text → ContainerPort → Fallible UInt16 := getHostPort Ports.mapToHostPortIpv4

/-- The host port of a port over IPv6. -/
def getHostPortIpv6 : Text → ContainerPort → Fallible UInt16 := getHostPort Ports.mapToHostPortIpv6

/-- Where a container is reached, on both platforms. -/
def containerHost : Text := "localhost".toList

namespace HttpWaitStrategy

/-- The port to ask: that of the strategy or the first that is mapped. -/
def containerPort (s : HttpWaitStrategy) (id : Text) : Fallible ContainerPort :=
  match s.port with
  | some port => pure port
  | none => do
      match (← containerPorts id).firstContainerPort with
      | some port => return port
      | none => throw (.waitContainer (.httpWait .noExposedPortsForHttpWait))

/-- The host port to ask: over IPv4, or over IPv6 whatever the reason that there is none. -/
def hostPort (id : Text) (port : ContainerPort) : Fallible UInt16 := ExceptT.mk do
  match ← (getHostPortIpv4 id port).run with
  | .ok hostPort => return .ok hostPort
  | .error _ => (getHostPortIpv6 id port).run

/-- What is done before the polling: the host port and the request. -/
def prepare (s : HttpWaitStrategy) (library : HttpLibrary) (id : Text) :
    Fallible (UInt16 × Bytes) := do
  let port ← s.containerPort id
  let hostPort ← hostPort id port
  match library.buildRequestBytes s containerHost hostPort with
  | .ok requestBytes => return (hostPort, requestBytes)
  | .error e => throw (.waitContainer (.httpWait e))

/-- One request; with a timeout of zero it is not made. -/
def sendRequest (s : HttpWaitStrategy) (hostPort : UInt16) (requestBytes : Bytes) :
    Task (Option HttpResponse) :=
  if s.requestTimeout.asNanos = 0 then pure none
  else ask (.sendRequest containerHost hostPort requestBytes)

/-- One round. -/
def round (s : HttpWaitStrategy) (matcher : HttpResponse → Bool) (hostPort : UInt16)
    (requestBytes : Bytes) (_ : Unit) : Task (Unit ⊕ Except Error Unit) := do
  let response ← s.sendRequest hostPort requestBytes
  if response.any matcher then return .inr (.ok ())
  else
    ask (.sleep s.pollInterval)
    return .inl ()

/-- The wait. -/
def waitUntilReady (s : HttpWaitStrategy) (library : HttpLibrary) (id : Text) (rounds : ℕ) :
    Task (Option (Except Error Unit)) :=
  match s.responseMatcher with
  | none => pure (some (waitError (.httpWait .noResponseMatcher)))
  | some matcher => do
      match ← (s.prepare library id).run with
      | .error e => return some (.error e)
      | .ok (hostPort, requestBytes) => iterate (s.round matcher hostPort requestBytes) rounds ()

end HttpWaitStrategy

/-! ### The log -/

/-- How long a reader is waited for, and how long the wait sleeps at the end of the log. -/
def logPollInterval : Duration := .fromMillis 100

/-- The result of a log wait. -/
def WaitLogResult.toExcept : WaitLogResult → Except Error Unit
  | ready => .ok ()
  | io => waitError (.waitLog .io)
  | endOfStream collected => waitError (.waitLog (.endOfStream collected))

namespace LogWaitStrategy

/-- One round; the wait sleeps if no reader had anything. -/
def pollRound (s : LogWaitStrategy) (id : Text) (wait : LogWait) :
    Task (LogWait ⊕ Except Error Unit) := do
  let round ← ask (.pollLogs id s.source)
  match wait.waitRound s round with
  | .inr result => return .inr result.toExcept
  | .inl next =>
      if (wait.poll round).any Pass.progressed then return .inl next
      else
        ask (.sleep logPollInterval)
        return .inl next

/-- The wait. -/
def waitForMessage (s : LogWaitStrategy) (id : Text) (rounds : ℕ) :
    Task (Option (Except Error Unit)) :=
  if s.message = [] then pure (some (.ok ()))
  else iterate (s.pollRound id) rounds (LogWait.start s)

end LogWaitStrategy

/-! ### All conditions -/

/-- Wait for a condition. -/
def WaitFor.waitUntilReady (platform : Platform) (library : HttpLibrary) (id : Text) (rounds : ℕ) :
    WaitFor → Task (Option (Except Error Unit))
  | nothing => pure (some (.ok ()))
  | log s => s.waitForMessage id rounds
  | duration length => do
      ask (.sleep length)
      return some (.ok ())
  | healthcheck s => s.waitUntilReady platform id rounds
  | http s => s.waitUntilReady library id rounds
  | exit s => s.waitUntilReady platform id rounds

/-- Wait for one condition after the other. -/
def blockUntilReady (platform : Platform) (library : HttpLibrary) (id : Text) (rounds : ℕ) :
    List WaitFor → Task (Option (Except Error Unit))
  | [] => pure (some (.ok ()))
  | condition :: conditions => do
      match ← condition.waitUntilReady platform library id rounds with
      | some (.ok ()) => blockUntilReady platform library id rounds conditions
      | other => return other

/-- Wait under a timer. Each round makes a call, so the rounds do not run out before it fires. -/
def timeout (platform : Platform) (library : HttpLibrary) (id : Text) (length : Duration)
    (conditions : List WaitFor) : Task (Except Error Unit) := do
  let awaits ← ask (.timer length)
  match ← (blockUntilReady platform library id (awaits + 1) conditions).within awaits with
  | some (some result) => return result
  | _ => return waitError (.startupTimeout id length)

end ContainerRs
