import ContainerRs.DockerClient
import ContainerRs.StartLinux

/-!
# A Start as the Daemon Sees It

`StartLinux` says what a start asks of the client; `DockerClient` says with which exchanges the
client carries this out. Here the two are put together: the start is a program over requests to
the daemon, and the daemon can keep the ledger of the start from what it is sent and what it
responds. In the protocol below each request is one that carries out an allowed call, with its
body and headers, and a command is started, and asked for its exit code, only under the id that
the daemon has given to the last one.

An abandoned start is a front of the exchanges of a start, which may end between any two of them;
the removal that `Drop` of a handle asks for when the future is dropped is not part of it.

## Main results

* `wp_carryOut`: the exchanges of each call keep to the protocol and leave the ledger of the call.
* `daemonStart_obeys`, `daemonStart_ends`: so does a start, and it ends as it does above.
* `daemonStart_healthy`: a container with a health check is handed out when the daemon has
  called it healthy.
-/

namespace ContainerRs

open Outcomes Programs Program Utf8

/-! ### The protocol -/

/-- The ledger of a start, and the command that was created last, with the end of its output. -/
structure DaemonLedger where
  ledger : Ledger
  command : Option (Text × Bool)

/-- The ledger before a start. -/
def DaemonLedger.initial : DaemonLedger := ⟨.initial, none⟩

/-- The calls that the client carries out. -/
def Call.byClient : Call → Bool
  | .resolveImageDescriptor _ | .pullImage _ _ | .containerState _ | .exec _ _ _ | .stop _ _ => true
  | .remove _ _ | .removeBlocking _ _ | .createContainer _ _ _ | .copyTo _ _ _ => true
  | .startContainer _ | .containerEnv _ | .containerHealth _ => true
  | _ => false

/-- What the daemon says of an image. -/
def ImageLookup.ofResponse : Except TransportError DaemonResponse → ImageLookup
  | .ok response =>
      if response.status = 200 then found else if response.status = 404 then missing else failed
  | .error _ => failed

/-- Has the daemon done what it was asked for? -/
def accepted (tolerated : List UInt16) : Except TransportError DaemonResponse → Bool
  | .ok response => decide (response.status ∈ tolerated) || decide (response.status < 400)
  | .error _ => false

section Protocol

variable {ν : Type} (docker : DockerSurroundings ν) (removal : Command) (host : Host)
  (req : StartRequest)

/-- The id in a response. -/
def createdIn (what empty : String) (reply : Except TransportError DaemonResponse) : Option Text :=
  reply.toOption.bind fun response => (docker.createdId what empty response).toOption

/-- What may be sent to the daemon in a start. -/
def exchangeAllowed (s : DaemonLedger) (payload : Payload) : ApiCall → Prop
  | .resolveImageDescriptor descriptor =>
      linuxAllowed removal host req s.ledger (.resolveImageDescriptor descriptor) ∧
        payload = .empty
  | .pullImage descriptor platform =>
      linuxAllowed removal host req s.ledger (.pullImage descriptor platform) ∧
        payload = docker.pullPayload descriptor
  | .createContainer name platform => ∃ config text,
      linuxAllowed removal host req s.ledger (.createContainer config name platform) ∧
        payload = .json text ∧ Json.parse text = some (document config)
  | .copyTo id dir => ∃ tar,
      linuxAllowed removal host req s.ledger (.copyTo id dir tar) ∧ payload = .tar tar
  | .startContainer id =>
      linuxAllowed removal host req s.ledger (.startContainer id) ∧ payload = .empty
  | .remove id force =>
      (linuxAllowed removal host req s.ledger (.remove id force) ∨
        linuxAllowed removal host req s.ledger (.removeBlocking id force)) ∧ payload = .empty
  | .inspectJson id => s.ledger.Running id ∧ payload = .empty
  | .exec id => s.ledger.Running id ∧ ∃ cmd env, payload = .json (execConfigJson cmd env)
  | .execStart execId =>
      (∃ id, s.ledger.Running id) ∧ s.command = some (execId, false) ∧
        payload = .json execStartConfigJson
  | .execInspect execId =>
      (∃ id, s.ledger.Running id) ∧ s.command = some (execId, true) ∧ payload = .empty
  | _ => False

/-- How the ledger is kept of an exchange. -/
def exchangeAfter (s : DaemonLedger) (reply : Except TransportError DaemonResponse) :
    ApiCall → DaemonLedger
  | .resolveImageDescriptor _ =>
      { s with ledger := { s.ledger with image := .ofResponse reply } }
  | .pullImage _ _ => { s with ledger := { s.ledger with pulls := s.ledger.pulls + 1 } }
  | .createContainer _ _ =>
      { s with
        ledger := { s.ledger with
          container := createdIn docker "failed to create container" "empty response body" reply } }
  | .copyTo _ _ =>
      if accepted [] reply then
        { s with ledger := { s.ledger with copied := s.ledger.copied + 1 } }
      else s
  | .startContainer _ =>
      if accepted [] reply then { s with ledger := { s.ledger with started := true } } else s
  | .remove _ _ =>
      { s with
        ledger := { s.ledger with removals := s.ledger.removals ++ [accepted [404] reply] } }
  | .exec _ =>
      { s with
        command := (createdIn docker "failed to create exec" "empty exec response body" reply).map
          (·, false) }
  | .execStart execId => if accepted [] reply then { s with command := some (execId, true) } else s
  | _ => s

/-- The protocol of a start, as the daemon sees it. Beside the exchanges stand the calls that the
client has no part in. -/
def daemonProtocol : Contract DaemonCall DaemonReply DaemonLedger where
  allowed s
    | .exchange sent payload _ => exchangeAllowed docker removal host req s payload sent
    | .beside op => op.byClient = false ∧ linuxAllowed removal host req s.ledger op
  after s
    | .exchange sent _ _, reply => exchangeAfter docker s reply sent
    | .beside op, reply => { s with ledger := linuxAfter s.ledger op reply }

end Protocol

/-! ### The exchanges of a call -/

section CarryOut

variable {ν : Type} {docker : DockerSurroundings ν} {removal : Command} {host : Host}
  {req : StartRequest} {s : DaemonLedger}

/-- The rule for an exchange. -/
theorem ewp_exchange {σ : Type} {P : Contract DaemonCall DaemonReply σ} {t : σ} {call : ApiCall}
    {payload : Payload} {limit : BodyLimit} {Q : DaemonResponse → σ → Prop} {E : Error → σ → Prop}
    (hallowed : P.allowed t (.exchange call payload limit))
    (hok : ∀ response, Q response (P.after t (.exchange call payload limit) (.ok response)))
    (herror : ∀ e : TransportError,
      E e.toError (P.after t (.exchange call payload limit) (.error e))) :
    ewp P (exchange call payload limit) Q E t := by
  rw [exchange, ewp_mk, wp_bind, wp_request]
  refine ⟨hallowed, ?_⟩
  rintro (e | response)
  · exact herror e
  · exact hok response

/-- The rule for what is made of a response. -/
theorem ewp_conclude {α σ : Type} {P : Contract DaemonCall DaemonReply σ} {t : σ}
    {result : Except Error α} {Q : α → σ → Prop} {E : Error → σ → Prop}
    (hok : ∀ a, result = .ok a → Q a t) (herror : ∀ e, result = .error e → E e t) :
    ewp P (conclude result) Q E t := by
  rw [conclude, ewp_mk]
  cases result with
  | error e => exact herror e rfl
  | ok a => exact hok a rfl

/-- The rule for a method that needs one exchange. -/
theorem wp_exchange_conclude {α σ : Type} {P : Contract DaemonCall DaemonReply σ} {t : σ}
    {call : ApiCall} {payload : Payload} {limit : BodyLimit}
    {result : DaemonResponse → Except Error α} {Q : Except Error α → σ → Prop}
    (hallowed : P.allowed t (.exchange call payload limit))
    (hok : ∀ response,
      Q (result response) (P.after t (.exchange call payload limit) (.ok response)))
    (herror : ∀ e : TransportError,
      Q (.error e.toError) (P.after t (.exchange call payload limit) (.error e))) :
    (exchange call payload limit >>= fun response => conclude (result response)).run.wp P Q t := by
  rw [wp_run, ewp_bind]
  refine ewp_exchange hallowed (fun response => ?_) herror
  exact ewp_conclude (fun a ha => ha ▸ hok response) fun e he => he ▸ hok response

/-- What is settled well is what the daemon has accepted. -/
theorem settle_eq_ok_iff {what : String} {tolerated : List UInt16} {response : DaemonResponse} :
    settle what tolerated response = .ok () ↔ accepted tolerated (.ok response) = true := by
  rw [settle, accepted, Bool.or_eq_true, decide_eq_true_eq, decide_eq_true_eq]
  by_cases htolerated : response.status ∈ tolerated
  · simp [htolerated]
  · by_cases hstatus : response.status ≥ 400
    · simp [htolerated, hstatus]
    · simp [htolerated, hstatus, UInt16.not_le.mp hstatus]

/-- Looking at a container changes nothing. -/
theorem wp_inspect {α : Type} {id : Text} (hs : s.ledger.Running id)
    {result : DaemonResponse → Except Error α} :
    (exchange (.inspectJson id) .empty .unlimited >>= fun response =>
      conclude (result response)).run.wp (daemonProtocol docker removal host req)
        (fun _ t => t.ledger = s.ledger) s :=
  wp_exchange_conclude (P := daemonProtocol docker removal host req) ⟨hs, rfl⟩ (fun _ => rfl)
    fun _ => rfl

/-- A removal is kept in the ledger. A response that is accepted counts as a removal, also
one that says there is no such container. -/
theorem wp_remove {id : Text} {force : Bool}
    (hs : linuxAllowed removal host req s.ledger (.remove id force) ∨
      linuxAllowed removal host req s.ledger (.removeBlocking id force)) :
    (DockerSurroundings.remove id force).run.wp (daemonProtocol docker removal host req)
      (fun r t => t.ledger = linuxAfter s.ledger (.remove id force) r) s := by
  refine wp_exchange_conclude (P := daemonProtocol docker removal host req) ⟨hs, rfl⟩
    (fun response => ?_) fun _ => rfl
  have haccepted : settle "failed to remove container" [404] response = .ok () ↔
      accepted [404] (.ok response) = true := settle_eq_ok_iff
  change { s.ledger with removals := s.ledger.removals ++ [accepted [404] (.ok response)] } = _
  cases hsettled : settle "failed to remove container" [404] response with
  | error e =>
      rw [hsettled] at haccepted
      rw [Bool.eq_false_iff.mpr fun h => absurd (haccepted.mpr h) (by simp)]
      rfl
  | ok u =>
      rw [haccepted.mp hsettled]
      rfl

/-- The questions for an exit code leave the ledger as it is. By induction on the pauses
that are left; each question is allowed, since the output of the command has been read to
its end. -/
theorem ewp_execStates {execId : Text} (hs : ∃ id, s.ledger.Running id)
    (hcommand : s.command = some (execId, true)) (backoff : List UInt64) :
    ewp (daemonProtocol docker removal host req) (docker.execStates execId backoff)
      (fun _ t => t.ledger = s.ledger) (fun _ t => t.ledger = s.ledger) s := by
  have hinspect : ewp (daemonProtocol docker removal host req) (docker.inspectExec execId)
      (fun _ t => t = s) (fun _ t => t = s) s := by
    refine wp_exchange_conclude (P := daemonProtocol docker removal host req)
      ⟨hs, hcommand, rfl⟩ (fun response => ?_) fun _ => rfl
    cases docker.execState response <;> rfl
  induction backoff with
  | nil =>
      rw [DockerSurroundings.execStates, ewp_bind]
      refine ewp_mono hinspect ?_ fun _ _ h => h ▸ rfl
      rintro state t rfl
      exact rfl
  | cons millis backoff ih =>
      rw [DockerSurroundings.execStates, ewp_bind]
      refine ewp_mono hinspect ?_ fun _ _ h => h ▸ rfl
      rintro state t rfl
      split
      · rw [ewp_bind, DockerSurroundings.sleepMillis, ewp_lift, wp_request]
        refine ⟨⟨rfl, trivial⟩, fun _ => ?_⟩
        rw [ewp_bind]
        exact ewp_mono ih (fun _ _ h => h) fun _ _ h => h
      · exact rfl

/-- The start of a command: the one created last, in a container that runs, and the ledger
of the start stays as it is. -/
theorem ewp_startExec {execId : Text} (hs : ∃ id, s.ledger.Running id)
    (hcommand : s.command = some (execId, false)) :
    ewp (daemonProtocol docker removal host req) (docker.startExec execId)
      (fun _ t => t.ledger = s.ledger) (fun _ t => t.ledger = s.ledger) s := by
  have hledger (response : DaemonResponse) :
      (exchangeAfter docker s (.ok response) (.execStart execId)).ledger = s.ledger := by
    rw [exchangeAfter]
    split <;> rfl
  rw [DockerSurroundings.startExec, ewp_bind]
  refine ewp_exchange (P := daemonProtocol docker removal host req) ⟨hs, hcommand, rfl⟩
    (fun started => ?_) fun _ => rfl
  rw [ewp_bind]
  refine ewp_conclude (fun output houtput => ?_) fun _ _ => hledger started
  obtain ⟨⟨⟩, hsettled, -⟩ := bind_eq_ok.mp houtput
  have hended : (exchangeAfter docker s (.ok started) (.execStart execId)).command =
      some (execId, true) := by
    rw [exchangeAfter, if_pos (settle_eq_ok_iff.mp hsettled)]
  rw [ewp_bind]
  refine ewp_mono (ewp_execStates ?_ hended _) (fun _ _ h => h.trans (hledger started))
    fun _ _ h => h.trans (hledger started)
  exact hs.imp fun id h => (hledger started).symm ▸ h

/-- **A command** leaves the ledger as it is. -/
theorem ewp_exec {id : Text} (hs : s.ledger.Running id) (cmd env : List Text) :
    ewp (daemonProtocol docker removal host req) (docker.exec id cmd env)
      (fun _ t => t.ledger = s.ledger) (fun _ t => t.ledger = s.ledger) s := by
  rw [DockerSurroundings.exec, ewp_bind]
  refine ewp_exchange (P := daemonProtocol docker removal host req) ⟨hs, cmd, env, rfl⟩
    (fun created => ?_) fun _ => rfl
  rw [ewp_bind]
  refine ewp_conclude (fun execId hcreated => ?_) fun _ _ => rfl
  refine ewp_startExec ⟨id, hs⟩ ?_
  have hcreatedIn : createdIn docker "failed to create exec" "empty exec response body"
      (.ok created) = some execId := by
    rw [createdIn, Except.toOption, Option.bind_some, hcreated]
    rfl
  exact congrArg (Option.map (·, false)) hcreatedIn

/-- The ports of the configuration of a request are distinct. -/
theorem nodup_ports_of_buildContainerConfig {request : ContainerRequest} {config : ContainerConfig}
    (h : buildContainerConfig request = some config) :
    (config.ports.map PortMapping.containerPort).Nodup := by
  rw [buildContainerConfig, elim_rejectDuplicateMappedPorts] at h
  cases haccepted : rejectDuplicateMappedPorts (request.ports.getD []) with
  | error msg =>
      rw [haccepted] at h
      exact absurd h (by simp)
  | ok u =>
      rw [haccepted] at h
      obtain rfl := Option.some.inj h
      exact (addExposedPorts_spec _ _ (rejectDuplicateMappedPorts_eq_ok_iff.mp haccepted)).1

/-- The text for a configuration is read as its document. With different container ports
this is the faithfulness of the text. -/
theorem parse_createContainerJson {config : ContainerConfig} {text : Text}
    (hports : (config.ports.map PortMapping.containerPort).Nodup)
    (h : DockerSurroundings.createContainerJson config = .ok text) :
    Json.parse text = some (document config) := by
  rw [DockerSurroundings.createContainerJson] at h
  cases hbody : CreateContainerBody.fromConfig config >>= CreateContainerBody.toJsonString with
  | error e =>
      rw [hbody] at h
      exact absurd h (by cases e; simp)
  | ok text' =>
      rw [hbody] at h
      obtain rfl := Except.ok.inj h
      obtain ⟨body, hfrom, hto⟩ := bind_eq_ok.mp hbody
      obtain ⟨text, htext, hdenotes⟩ := denotes_toJsonString hports hfrom
      obtain rfl := Except.ok.inj (hto.symm.trans htext)
      exact hdenotes.parse

/-- A container is created from the document of its configuration. The request is the
document as a body, and an id in the response is the container of the ledger. -/
theorem wp_createContainer {config : ContainerConfig} {name platform : Option Text}
    (hs : linuxAllowed removal host req s.ledger (.createContainer config name platform)) :
    (docker.createContainer config name platform).run.wp (daemonProtocol docker removal host req)
      (fun r t => t.ledger = linuxAfter s.ledger (.createContainer config name platform) r) s := by
  have hnone : s.ledger = { s.ledger with container := none } := by rw [← hs.2.2.2.2]
  rw [wp_run, DockerSurroundings.createContainer, ewp_bind]
  refine ewp_conclude (fun text htext => ?_) fun _ _ => hnone
  have hports := nodup_ports_of_buildContainerConfig hs.1
  have hparse : Json.parse text = some (document config) := parse_createContainerJson hports htext
  rw [ewp_bind]
  refine ewp_exchange (P := daemonProtocol docker removal host req)
    ⟨config, text, hs, rfl, hparse⟩ (fun response => ?_) fun _ => rfl
  have hcreated (r : Except Error Text)
      (hr : docker.createdId "failed to create container" "empty response body" response = r) :
      createdIn docker "failed to create container" "empty response body" (.ok response) =
        r.toOption := by
    rw [createdIn, Except.toOption, Option.bind_some, hr]
  refine ewp_conclude (fun id hid => ?_) fun e he => ?_
  · exact congrArg (fun container => { s.ledger with container }) (hcreated _ hid)
  · exact congrArg (fun container => { s.ledger with container }) (hcreated _ he)

/-- The look for an image says what the daemon says. -/
theorem wp_resolveImageDescriptor {descriptor : Text}
    (hs : linuxAllowed removal host req s.ledger (.resolveImageDescriptor descriptor)) :
    (DockerSurroundings.resolveImageDescriptor descriptor).run.wp
      (daemonProtocol docker removal host req)
      (fun r t => t.ledger = linuxAfter s.ledger (.resolveImageDescriptor descriptor) r) s := by
  refine wp_exchange_conclude (P := daemonProtocol docker removal host req) ⟨hs, rfl⟩
    (fun response => ?_) fun e => ?_
  · refine congrArg (fun image => { s.ledger with image }) ?_
    rw [ImageLookup.ofResponse]
    split
    · rfl
    · split <;> rfl
  · cases e <;> rfl

/-- The rule for a method whose request has an effect if it is accepted. The ledger
changes exactly where the result is good, so both ends of the method follow. -/
theorem wp_settle {call : ApiCall} {payload : Payload} {kept : DaemonLedger}
    {result : DaemonResponse → Except Error Unit} {Q : Except Error Unit → DaemonLedger → Prop}
    (hallowed : exchangeAllowed docker removal host req s payload call)
    (hafter : ∀ reply, exchangeAfter docker s reply call = if accepted [] reply then kept else s)
    (hresult : ∀ response, result response = .ok () ↔ accepted [] (.ok response) = true)
    (hok : Q (.ok ()) kept) (herror : ∀ e, Q (.error e) s) :
    (exchange call payload .unlimited >>= fun response => conclude (result response)).run.wp
      (daemonProtocol docker removal host req) Q s := by
  refine wp_exchange_conclude (P := daemonProtocol docker removal host req) hallowed
    (fun response => ?_) fun e => ?_
  · change Q (result response) (exchangeAfter docker s (.ok response) call)
    rw [hafter]
    cases hresponse : result response with
    | ok u => rwa [if_pos ((hresult response).mp hresponse)]
    | error e =>
        rw [if_neg fun h => absurd ((hresult response).mpr h) (by simp [hresponse])]
        exact herror e
  · change Q (.error e.toError) (exchangeAfter docker s (.error e) call)
    rw [hafter]
    exact herror e.toError

/-- **A call** is carried out by exchanges that keep to the protocol, and the daemon knows as
much behind them as the start. -/
theorem wp_carryOut (op : Call) (hs : linuxAllowed removal host req s.ledger op) :
    (docker.carryOut op).wp (daemonProtocol docker removal host req)
      (fun r t => t.ledger = linuxAfter s.ledger op r) s := by
  cases op with
  | resolveImageDescriptor descriptor => exact wp_resolveImageDescriptor hs
  | pullImage descriptor platform => exact ⟨⟨hs, rfl⟩, fun _ => rfl⟩
  | containerState id | containerEnv id | containerHealth id =>
      obtain ⟨_, hrunning, rfl⟩ := hs
      exact wp_inspect hrunning
  | exec id cmd env =>
      obtain ⟨_, hrunning, rfl⟩ := hs
      refine wp_mono (ewp_exec hrunning cmd env) ?_
      rintro (e | raw) t h <;> exact h
  | stop id timeoutSeconds => exact hs.elim fun _ h => h.2.elim
  | remove id force => exact wp_remove (.inl hs)
  | removeBlocking id force => exact wp_remove (.inr hs)
  | createContainer config name platform => exact wp_createContainer hs
  | copyTo id dir tar =>
      refine wp_settle ⟨tar, hs, rfl⟩ (fun _ => rfl) (fun response => ?_) rfl fun _ => rfl
      by_cases hmissing : response.status = 404
      · simp [hmissing, accepted]
      · simp only [if_neg hmissing]
        exact settle_eq_ok_iff
  | startContainer id =>
      exact wp_settle ⟨hs, rfl⟩ (fun _ => rfl) (fun _ => settle_eq_ok_iff) rfl fun _ => rfl
  | _ => exact ⟨⟨rfl, hs⟩, fun _ => rfl⟩

end CarryOut

/-! ### A start and its exchanges -/

/-- A start, down to what is sent to the daemon. -/
def DockerSurroundings.start {ν : Type} (docker : DockerSurroundings ν)
    (surroundings : Surroundings) (host : Host) (req : StartRequest) :
    DaemonTask (Except Error ContainerAsync) :=
  (startLinux surroundings host req).run.implement docker.carryOut

/-- The exchanges of a start keep to the protocol, and its end is known from them. The
start above keeps to its own protocol, and each of its calls is carried out by exchanges
that keep to this one. -/
theorem wp_daemonStart {ν : Type} {docker : DockerSurroundings ν} {surroundings : Surroundings}
    {host : Host} {req : StartRequest} :
    (docker.start surroundings host req).wp
      (daemonProtocol docker surroundings.command host req)
      (fun r t => StartEnds surroundings.command r t.ledger) .initial := by
  have hstart : (startLinux surroundings host req).run.wp
      (linuxProtocol surroundings.command host req)
      (fun r s => StartEnds surroundings.command r s) .initial := wp_run.mpr ewp_startLinux
  have himpl (u : Ledger) (s : DaemonLedger) (op : Call) (hs : s.ledger = u)
      (hop : linuxAllowed surroundings.command host req u op) :
      (docker.carryOut op).wp (daemonProtocol docker surroundings.command host req)
        (fun r t => t.ledger = linuxAfter u op r) s := by
    subst hs
    exact wp_carryOut op hop
  have hlow : (docker.start surroundings host req).wp
      (daemonProtocol docker surroundings.command host req)
      (fun r t => ∃ u, t.ledger = u ∧ StartEnds surroundings.command r u) .initial :=
    wp_implement himpl hstart rfl
  refine wp_mono hlow ?_
  rintro r t ⟨_, rfl, hend⟩
  exact hend

/-- **What a start sends to the daemon** keeps to the protocol in every front of its exchanges,
also in one that ends between two exchanges of one call: no container is created but from the
document of its configuration and from an image that the daemon has, none is started before it has
accepted all archives, no command is started but the one it has just created, and only the
container of the start is removed. -/
theorem daemonStart_obeys {ν : Type} (docker : DockerSurroundings ν) (surroundings : Surroundings)
    (host : Host) (req : StartRequest) (low : DaemonTrace)
    (h : Reaches (docker.start surroundings host req) low) :
    (daemonProtocol docker surroundings.command host req).Obeys .initial low :=
  h.of_wp wp_daemonStart

/-- A JSON library for the daemon. -/
def daemonJson : DockerJson Json where
  toRawJson := Json.reader
  isObject value := value matches .object _
  toBool
    | .bool b => .ok b
    | _ => .error "not a truth value".toList
  toI64
    | .number q => if q.den = 1 then .ok q.num else .error "not a whole number".toList
    | _ => .error "not a number".toList

/-- What surrounds the client in a start of the web server. -/
def dockerSample : DockerSurroundings Json where
  json := daemonJson
  environment := ⟨fun _ => none, none, fun _ => none⟩
  utf8Error _ := "invalid UTF-8".toList
  displayError _ := "no response".toList

/-- A response with a text. -/
def textResponse (status : UInt16) (text : String) : DaemonResponse :=
  ⟨status, some (utf8 text.toList)⟩

/-- A daemon without the image, which calls the container healthy. -/
def daemonSample (past : DaemonTrace) : (op : DaemonCall) → DaemonReply op
  | .exchange sent _ _ => .ok <|
      match sent with
      | .resolveImageDescriptor _ => ⟨if past.isEmpty then 404 else 200, none⟩
      | .pullImage _ _ => textResponse 200 "\x7b\"status\":\"done\"\x7d\n"
      | .createContainer _ _ => textResponse 201 "\x7b\"Id\":\"c\"\x7d"
      | .inspectJson _ => textResponse 200
          "\x7b\"State\":\x7b\"Running\":true,\"Health\":\x7b\"Status\":\"healthy\"\x7d\x7d\x7d"
      | .exec _ => textResponse 201 "\x7b\"Id\":\"e\"\x7d"
      | .execStart _ => ⟨200, some [1, 0, 0, 0, 0, 0, 0, 2, 111, 107]⟩
      | .execInspect _ => textResponse 200 "\x7b\"Running\":false,\"ExitCode\":0\x7d"
      | _ => ⟨204, none⟩
  | .beside op => obligingReply op

/-- What happens in it. -/
def daemonSampleRun : DaemonTrace × Except Error ContainerAsync :=
  (dockerSample.start surroundingsSample smallHost startSample).answerWith daemonSample []

/-- The sample start has a run that hands out a container: every exchange has its reply
from the sample daemon. -/
theorem runs_daemonSample :
    ∃ low c, Runs (dockerSample.start surroundingsSample smallHost startSample) low (.ok c) := by
  have hok : daemonSampleRun.2.isOk = true := by decide +kernel
  exact exists_runs_ok daemonSample hok

/-- The image is pulled, and a command is run in three exchanges. -/
theorem daemonStart_obeys_sample :
    daemonSampleRun.1.length = 19 ∧
      (daemonProtocol dockerSample .remove smallHost startSample).Obeys .initial
        daemonSampleRun.1 :=
  ⟨by decide +kernel, daemonStart_obeys dockerSample surroundingsSample smallHost startSample _
    (runs_answerWith daemonSample _ []).reaches⟩

/-- **The end of a start, as the daemon sees it**: if a container is handed out, the daemon has
given it its id and accepted its start, and has not been asked to remove it; if the start fails
behind the creation, it has been asked, unless containers are to be kept. -/
theorem daemonStart_ends {ν : Type} (docker : DockerSurroundings ν) (surroundings : Surroundings)
    (host : Host) (req : StartRequest) (low : DaemonTrace) (r : Except Error ContainerAsync)
    (h : Runs (docker.start surroundings host req) low r) :
    StartEnds surroundings.command r
      ((daemonProtocol docker surroundings.command host req).state .initial low).ledger :=
  (h.of_wp wp_daemonStart).2

/-- The web server runs at the end, and the daemon knows it. -/
theorem daemonStart_ends_sample : ∃ low id,
    ((daemonProtocol dockerSample .remove smallHost startSample).state .initial low).ledger.Running
      id := by
  obtain ⟨low, c, hrun⟩ := runs_daemonSample
  exact ⟨low, c.id, daemonStart_ends dockerSample surroundingsSample smallHost startSample low
    (.ok c) hrun⟩

/-- **A container with a health check is handed out when it is healthy**: behind its start, which
it has accepted, the daemon has once said so. The exchanges fall into those that carry out the
calls up to the start of the container and those behind, where the health check is. -/
theorem daemonStart_healthy {ν : Type} (docker : DockerSurroundings ν) (surroundings : Surroundings)
    (host : Host) (req : StartRequest) (low : DaemonTrace) (c : ContainerAsync)
    (strategy : HealthWaitStrategy) (hcondition : .healthcheck strategy ∈ req.readyConditions)
    (h : Runs (docker.start surroundings host req) low (.ok c)) :
    ∃ before behind started response probe,
      low = before ++ ⟨.exchange (.inspectJson c.id) .empty .unlimited, .ok response⟩ :: behind ∧
      ⟨.exchange (.startContainer c.id) .empty .unlimited, .ok started⟩ ∈ before ∧
      started.status < 400 ∧ docker.probeOf c.id response = .ok probe ∧
      probe.health = some .healthy := by
  obtain ⟨tr, hrun, hreal⟩ := runs_implement h
  obtain ⟨front, sequence, rfl, hfront, hplatform, -, hsequence⟩ := runs_startLinux hrun
  obtain ⟨before, awaits, waits, behind, rfl, -, hwaits⟩ := runs_readySequence hsequence
  obtain ⟨low₁, low₂, rfl, hreal₁, hreal₂⟩ := hreal.append
  obtain ⟨part₁, hpart₁, hsub₁⟩ := hreal₁.exists_part hfront
  obtain ⟨started, rfl, hstarted⟩ := runs_exchange_conclude.mp hpart₁
  rw [hplatform] at hwaits
  obtain ⟨observed, hobserved, hsub⟩ := hwaits.of_mem hcondition
  obtain ⟨probe, hhealthy, hprobe⟩ := HealthWaitStrategy.exists_healthy hobserved
  have hasked : (⟨.containerHealth c.id, .ok probe⟩ : Event Call Reply) ∈
      before ++ ⟨.timer (c.startupTimeout.getD defaultStartupTimeout), awaits⟩ :: waits ++
        behind := by
    simp [hsub _ hprobe]
  obtain ⟨part₂, hpart₂, hsub₂⟩ := hreal₂.exists_part hasked
  obtain ⟨response, rfl, hresponse⟩ := runs_exchange_conclude.mp hpart₂
  obtain ⟨low₃, low₄, rfl⟩ := List.append_of_mem (hsub₂ _ (List.mem_singleton_self _))
  refine ⟨low₁ ++ low₃, low₄, started, response, probe, by simp,
    List.mem_append_left _ (hsub₁ _ (List.mem_singleton_self _)), ?_, hresponse, hhealthy⟩
  simpa [accepted] using settle_eq_ok_iff.mp hstarted

/-- The daemon has called the web server healthy. -/
theorem daemonStart_healthy_sample : ∃ id response probe,
    dockerSample.probeOf id response = .ok probe ∧ probe.health = some .healthy := by
  obtain ⟨low, c, hrun⟩ := runs_daemonSample
  obtain ⟨_, _, _, response, probe, -, -, -, hprobe, hhealthy⟩ :=
    daemonStart_healthy dockerSample surroundingsSample smallHost startSample low c
      ⟨.fromSecs 1⟩ (List.mem_singleton_self _) hrun
  exact ⟨c.id, response, probe, hprobe, hhealthy⟩

end ContainerRs
