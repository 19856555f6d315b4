import ContainerRs.ClientCalls
import ContainerRs.FetchLogs
import ContainerRs.Lib.Base64
import ContainerRs.Lib.Outcomes
import ContainerRs.Lib.Utf8

/-!
# The Request of an HTTP Wait

`HttpWaitStrategy` (wait/http_strategy.rs) builds its request once, before it polls. Host,
Connection, and with a body or credentials also Content-Length and Authorization, are the
strategy's own: headers of the user by these names are skipped, in whatever case they are
written.

The HTTP library, which checks methods, targets and headers and encodes requests, is a
parameter.

## Main results

* `HttpLibrary.headersOf_buildRequest`: the values that each name has in the request.
* `Auth.headerValue_basic`: the credentials are read back from the header.
* `buildRequest_spec`: the request as a whole.
-/

namespace ContainerRs

open Outcomes Utf8

/-! ### Requests -/

/-- A request as it is given to the HTTP library, which adds the length of the body. -/
structure HttpRequest where
  method : Text
  target : Text
  headers : List (Text × Text)
  body : Option Bytes
  deriving DecidableEq, Repr

/-- What the HTTP library makes of a method, of a target, of the name of a header, of a header
that is added to a request, and of a request. The errors are texts. -/
structure HttpLibrary where
  method : Text → Except Text Unit
  target : Text → Text → Except Text Unit
  headerName : Text → Bool
  header : HttpRequest → Text × Text → Except Text Unit
  encode : HttpRequest → Except Text Bytes

/-- The credentials of a strategy. -/
inductive Auth
  | basic (username password : Text)
  | bearer (token : Text)
  deriving DecidableEq, Repr

/-- The strategy. -/
structure HttpWaitStrategy where
  path : Text
  port : Option ContainerPort
  method : Text
  headers : List (Text × Text)
  body : Option Bytes
  auth : Option Auth
  responseMatcher : Option (HttpResponse → Bool)
  pollInterval : Duration
  requestTimeout : Duration

namespace HttpWaitStrategy

/-- Is the header the strategy's own? -/
def isReservedHeader (s : HttpWaitStrategy) (name : Text) : Bool :=
  eqIgnoreAsciiCase name "Host".toList ||
    eqIgnoreAsciiCase name "Connection".toList ||
    (s.body.isSome && eqIgnoreAsciiCase name "Content-Length".toList) ||
    (s.auth.isSome && eqIgnoreAsciiCase name "Authorization".toList)

/-- The value of the Host header. -/
def hostHeader (host : Text) (port : UInt16) : Text :=
  if ':' ∈ host then "[".toList ++ host ++ "]:".toList ++ Json.naturalText port.toNat
  else host ++ ":".toList ++ Json.naturalText port.toNat

end HttpWaitStrategy

/-- The value of the Authorization header. -/
def Auth.headerValue : Auth → Text
  | basic username password =>
      "Basic ".toList ++ Base64.encode Base64.standard (utf8 (username ++ ':' :: password))
  | bearer token => "Bearer ".toList ++ token

namespace HttpLibrary

variable (http : HttpLibrary)

/-- Add a header; the error of the library is replaced by the given one. -/
def addHeader (request : HttpRequest) (entry : Text × Text) (error : Text → Text) :
    Except HttpWaitError HttpRequest :=
  match http.header request entry with
  | .ok () => .ok { request with headers := request.headers ++ [entry] }
  | .error text => .error (.requestBuild (error text))

/-- Add a header of the user, unless it is the strategy's own. Its value may be a secret, so an
error shows the name only. -/
def addUserHeader (s : HttpWaitStrategy) (request : HttpRequest) (entry : Text × Text) :
    Except HttpWaitError HttpRequest :=
  if s.isReservedHeader entry.1 then .ok request
  else if http.headerName entry.1 then
    http.addHeader request entry fun _ =>
      "failed to set header `".toList ++ entry.1 ++ "`".toList
  else .error (.requestBuild ("invalid header name: ".toList ++ entry.1))

/-- Add the credentials, if there are any. -/
def addAuthorization (request : HttpRequest) (auth : Option Auth) :
    Except HttpWaitError HttpRequest :=
  match auth with
  | some auth =>
      http.addHeader request ("Authorization".toList, auth.headerValue) fun _ =>
        "failed to set Authorization header".toList
  | none => .ok request

/-- The request of a strategy. The connection is to be closed, or the server would keep it open and
the end of the response would never be read. -/
def buildRequest (s : HttpWaitStrategy) (host : Text) (port : UInt16) :
    Except HttpWaitError HttpRequest := do
  (http.method s.method).mapError .requestBuild
  (http.target s.method s.path).mapError .requestBuild
  let request : HttpRequest := { method := s.method, target := s.path, headers := [], body := none }
  let request ← http.addHeader request ("Host".toList, HttpWaitStrategy.hostHeader host port) id
  let request ← http.addHeader request ("Connection".toList, "close".toList) id
  let request ← s.headers.foldlM (http.addUserHeader s) request
  let request ← http.addAuthorization request s.auth
  return { request with body := s.body }

/-- The request as it is sent. -/
def buildRequestBytes (s : HttpWaitStrategy) (host : Text) (port : UInt16) :
    Except HttpWaitError Bytes := do
  let request ← http.buildRequest s host port
  (http.encode request).mapError .requestBuild

end HttpLibrary

/-! ### The headers of a request -/

/-- The values under a name, in whatever case it is written. -/
def valuesOf (headers : List (Text × Text)) (name : Text) : List Text :=
  (headers.filter fun entry => eqIgnoreAsciiCase entry.1 name).map Prod.snd

section ValuesOf

variable {name name' : Text}

/-- A name equals itself. -/
theorem eqIgnoreAsciiCase_self (name : Text) : eqIgnoreAsciiCase name name = true := by
  simp [eqIgnoreAsciiCase]

/-- Names that are equal up to case are equal to the same names. -/
theorem eqIgnoreAsciiCase_congr {a b : Text} (h : eqIgnoreAsciiCase a b = true) (c : Text) :
    eqIgnoreAsciiCase a c = eqIgnoreAsciiCase b c := by
  rw [eqIgnoreAsciiCase, decide_eq_true_eq] at h
  rw [eqIgnoreAsciiCase, eqIgnoreAsciiCase, h]

/-- Names are compared both ways alike. -/
theorem eqIgnoreAsciiCase_comm (a b : Text) : eqIgnoreAsciiCase a b = eqIgnoreAsciiCase b a := by
  simp only [eqIgnoreAsciiCase, eq_comm]

@[simp] theorem valuesOf_nil : valuesOf [] name = [] := rfl

/-- The values of a header in two lists in a row are those in the first and those in the
second. -/
theorem valuesOf_append (headers headers' : List (Text × Text)) :
    valuesOf (headers ++ headers') name = valuesOf headers name ++ valuesOf headers' name := by
  rw [valuesOf, List.filter_append, List.map_append, ← valuesOf, ← valuesOf]

/-- The values of a header behind another one: its own value, if it is of that name, and
those that follow. -/
theorem valuesOf_cons (header value : Text) (headers : List (Text × Text)) :
    valuesOf ((header, value) :: headers) name =
      (if eqIgnoreAsciiCase header name then [value] else []) ++ valuesOf headers name := by
  simp only [valuesOf, List.filter_cons]
  split <;> rfl

/-- Filtering by name takes all values of a name or none. By induction on the headers,
since the names that equal the given one are taken together or left out together. -/
theorem valuesOf_filter {p : Text → Bool} (hp : ∀ a b, eqIgnoreAsciiCase a b = true → p a = p b)
    (headers : List (Text × Text)) :
    valuesOf (headers.filter fun entry => p entry.1) name =
      if p name then valuesOf headers name else [] := by
  induction headers with
  | nil => simp
  | cons entry headers ih =>
      obtain ⟨header, value⟩ := entry
      rw [List.filter_cons]
      cases hheader : p header with
      | true =>
          rw [if_pos rfl, valuesOf_cons, ih, valuesOf_cons]
          by_cases hname : p name = true
          · rw [if_pos hname, if_pos hname]
          · rw [if_neg hname, if_neg hname, if_neg, List.append_nil]
            intro hcase
            exact hname ((hp _ _ hcase).symm.trans hheader)
      | false =>
          rw [if_neg Bool.false_ne_true, ih, valuesOf_cons]
          by_cases hname : p name = true
          · rw [if_pos hname, if_pos hname, if_neg, List.nil_append]
            intro hcase
            rw [hp _ _ hcase, hname] at hheader
            exact Bool.noConfusion hheader
          · rw [if_neg hname, if_neg hname]

end ValuesOf

namespace HttpWaitStrategy

/-- The reserved names do not depend on case. -/
theorem isReservedHeader_congr (s : HttpWaitStrategy) {a b : Text}
    (h : eqIgnoreAsciiCase a b = true) : s.isReservedHeader a = s.isReservedHeader b := by
  simp only [isReservedHeader, eqIgnoreAsciiCase_congr h]

end HttpWaitStrategy

namespace HttpLibrary

variable {http : HttpLibrary} {s : HttpWaitStrategy} {request request' : HttpRequest}

/-- A header is added exactly if the library accepts it, and it is added at the end. -/
theorem addHeader_eq_ok {entry : Text × Text} {error : Text → Text} :
    http.addHeader request entry error = .ok request' ↔
      http.header request entry = .ok () ∧
        request' = { request with headers := request.headers ++ [entry] } := by
  rw [addHeader]
  cases http.header request entry with
  | ok u => simp [eq_comm]
  | error text => simp

/-- The headers of the user that are not reserved are added in order. By induction on the
headers, each of which is added at the end or passed over. -/
theorem foldlM_addUserHeader {headers : List (Text × Text)}
    (h : headers.foldlM (http.addUserHeader s) request = .ok request') :
    request' = { request with
      headers := request.headers ++ headers.filter fun entry => !s.isReservedHeader entry.1 } := by
  induction headers generalizing request with
  | nil =>
      obtain rfl := Except.ok.inj h
      simp
  | cons entry headers ih =>
      rw [List.foldlM_cons, bind_eq_ok] at h
      obtain ⟨added, hadded, h⟩ := h
      rw [ih h]
      rw [addUserHeader] at hadded
      split at hadded
      · next hreserved =>
          obtain rfl := Except.ok.inj hadded
          simp [hreserved]
      · next hreserved =>
          split at hadded
          · obtain ⟨-, rfl⟩ := addHeader_eq_ok.mp hadded
            simp [hreserved]
          · exact nomatch hadded

/-- The request that is built, as a whole. The steps of the code are taken apart one by
one, from the checks of method and target to the body. -/
theorem buildRequest_eq {host : Text} {port : UInt16}
    (h : http.buildRequest s host port = .ok request) :
    request =
      { method := s.method
        target := s.path
        headers :=
          [("Host".toList, HttpWaitStrategy.hostHeader host port),
            ("Connection".toList, "close".toList)] ++
          (s.headers.filter fun entry => !s.isReservedHeader entry.1) ++
          s.auth.toList.map fun auth => ("Authorization".toList, auth.headerValue)
        body := s.body } := by
  rw [buildRequest] at h
  obtain ⟨-, -, hafterMethod⟩ := bind_eq_ok.mp h
  obtain ⟨-, -, hafterTarget⟩ := bind_eq_ok.mp hafterMethod
  obtain ⟨hosted, hhost, hafterHost⟩ := bind_eq_ok.mp hafterTarget
  obtain ⟨closing, hconnection, hafterConnection⟩ := bind_eq_ok.mp hafterHost
  obtain ⟨users, husers, hafterUsers⟩ := bind_eq_ok.mp hafterConnection
  obtain ⟨authorized, hauth, hrequest⟩ := bind_eq_ok.mp hafterUsers
  obtain rfl := Except.ok.inj hrequest
  obtain ⟨-, rfl⟩ := addHeader_eq_ok.mp hhost
  obtain ⟨-, rfl⟩ := addHeader_eq_ok.mp hconnection
  obtain rfl := foldlM_addUserHeader husers
  cases hsome : s.auth with
  | none =>
      rw [hsome] at hauth
      obtain rfl := Except.ok.inj hauth
      simp
  | some auth =>
      rw [hsome] at hauth
      obtain ⟨-, rfl⟩ := addHeader_eq_ok.mp hauth
      simp

/-- The values of the credentials under a name. -/
theorem valuesOf_authorization (auth : Option Auth) (header name : Text) :
    valuesOf (auth.toList.map fun auth => (header, auth.headerValue)) name =
      if eqIgnoreAsciiCase header name then auth.toList.map Auth.headerValue else [] := by
  cases auth with
  | none => simp
  | some auth => simp [valuesOf_cons]

/-- The values of the headers of the user that are not reserved. -/
theorem valuesOf_unreserved (s : HttpWaitStrategy) (name : Text) :
    valuesOf (s.headers.filter fun entry => !s.isReservedHeader entry.1) name =
      if s.isReservedHeader name then [] else valuesOf s.headers name := by
  rw [valuesOf_filter (p := fun name => !s.isReservedHeader name)
    (fun a b hcase => congrArg _ (s.isReservedHeader_congr hcase))]
  cases s.isReservedHeader name <;> rfl

/-- The values of the parts of a request. -/
theorem valuesOf_buildRequest {host : Text} {port : UInt16}
    (h : http.buildRequest s host port = .ok request) (name : Text) :
    valuesOf request.headers name =
      ((if eqIgnoreAsciiCase "Host".toList name then [HttpWaitStrategy.hostHeader host port]
        else []) ++
      (if eqIgnoreAsciiCase "Connection".toList name then ["close".toList] else [])) ++
      (if s.isReservedHeader name then [] else valuesOf s.headers name) ++
      (if eqIgnoreAsciiCase "Authorization".toList name then s.auth.toList.map Auth.headerValue
        else []) := by
  rw [buildRequest_eq h, valuesOf_append, valuesOf_append, valuesOf_unreserved,
    valuesOf_authorization, valuesOf_cons, valuesOf_cons, valuesOf_nil, List.append_nil]

/-- **The headers of a request**: there is one Host and one Connection, the credentials are the
only Authorization and no length is given with a body; under all other names, and under these
if there are no credentials or no body, stand the values of the user. -/
theorem headersOf_buildRequest {host : Text} {port : UInt16}
    (h : http.buildRequest s host port = .ok request) (name : Text) :
    valuesOf request.headers name =
      if eqIgnoreAsciiCase name "Host".toList then [HttpWaitStrategy.hostHeader host port]
      else if eqIgnoreAsciiCase name "Connection".toList then ["close".toList]
      else if s.body.isSome ∧ eqIgnoreAsciiCase name "Content-Length".toList then []
      else if s.auth.isSome ∧ eqIgnoreAsciiCase name "Authorization".toList then
        s.auth.toList.map Auth.headerValue
      else valuesOf s.headers name := by
  rw [valuesOf_buildRequest h name, eqIgnoreAsciiCase_comm "Host".toList,
    eqIgnoreAsciiCase_comm "Connection".toList, eqIgnoreAsciiCase_comm "Authorization".toList]
  have hother {a b : Text} (ha : eqIgnoreAsciiCase name a = true)
      (hab : eqIgnoreAsciiCase a b = false) : eqIgnoreAsciiCase name b = false :=
    (eqIgnoreAsciiCase_congr ha b).trans hab
  by_cases hhost : eqIgnoreAsciiCase name "Host".toList = true
  · have hconnection := hother hhost (b := "Connection".toList) (by decide)
    have hauthorization := hother hhost (b := "Authorization".toList) (by decide)
    simp only [HttpWaitStrategy.isReservedHeader, hhost, hconnection, hauthorization, Bool.true_or,
      if_true, Bool.false_eq_true, if_false, List.append_nil]
  by_cases hconnection : eqIgnoreAsciiCase name "Connection".toList = true
  · have hauthorization := hother hconnection (b := "Authorization".toList) (by decide)
    simp only [HttpWaitStrategy.isReservedHeader, hhost, hconnection, hauthorization, Bool.or_true,
      Bool.true_or, if_true, Bool.false_eq_true, if_false, List.append_nil, List.nil_append]
  simp only [HttpWaitStrategy.isReservedHeader, hhost, hconnection, Bool.false_or,
    Bool.false_eq_true, if_false, List.nil_append]
  by_cases hlength : eqIgnoreAsciiCase name "Content-Length".toList = true
  · have hauthorization := hother hlength (b := "Authorization".toList) (by decide)
    simp only [hlength, hauthorization, Bool.and_true, Bool.and_false, Bool.or_false, and_true,
      Bool.false_eq_true, and_false, if_false, List.append_nil]
  by_cases hauthorization : eqIgnoreAsciiCase name "Authorization".toList = true
  · simp only [hlength, hauthorization, Bool.and_true, Bool.and_false, Bool.false_or, and_true,
      Bool.false_eq_true, and_false, if_false, if_true]
    cases s.auth with
    | none => simp
    | some auth => simp
  · simp only [hlength, hauthorization, Bool.and_false, Bool.or_false, Bool.false_eq_true,
      and_false, if_false, List.append_nil]

end HttpLibrary

/-- **Basic credentials are read back**: the header is "Basic ", and what follows decodes to the
user name and the password. -/
theorem Auth.headerValue_basic (username password : Text) :
    ∃ credentials, (Auth.basic username password).headerValue = "Basic ".toList ++ credentials ∧
      Base64.decode Base64.standard credentials = some (utf8 (username ++ ':' :: password)) :=
  ⟨_, rfl, Base64.decode_encode _⟩

/-- **The request of an HTTP wait**: method, target and body are those of the strategy, each name
has the values it is to have, and Basic credentials are read back from theirs. -/
theorem buildRequest_spec (http : HttpLibrary) (s : HttpWaitStrategy) (host : Text)
    (port : UInt16) (request : HttpRequest) (h : http.buildRequest s host port = .ok request) :
    (request.method, request.target, request.body) = (s.method, s.path, s.body) ∧
      (∀ name, valuesOf request.headers name =
        if eqIgnoreAsciiCase name "Host".toList then [HttpWaitStrategy.hostHeader host port]
        else if eqIgnoreAsciiCase name "Connection".toList then ["close".toList]
        else if s.body.isSome ∧ eqIgnoreAsciiCase name "Content-Length".toList then []
        else if s.auth.isSome ∧ eqIgnoreAsciiCase name "Authorization".toList then
          s.auth.toList.map Auth.headerValue
        else valuesOf s.headers name) ∧
      ∀ username password, s.auth = some (.basic username password) →
        ∃ credentials, valuesOf request.headers "Authorization".toList =
            ["Basic ".toList ++ credentials] ∧
          Base64.decode Base64.standard credentials =
            some (utf8 (username ++ ':' :: password)) := by
  have hheaders := HttpLibrary.headersOf_buildRequest h
  refine ⟨?_, hheaders, ?_⟩
  · rw [HttpLibrary.buildRequest_eq h]
  · intro username password hauth
    obtain ⟨credentials, hvalue, hdecode⟩ := Auth.headerValue_basic username password
    refine ⟨credentials, ?_, hdecode⟩
    have hhost : eqIgnoreAsciiCase "Authorization".toList "Host".toList = false := by decide
    have hconnection : eqIgnoreAsciiCase "Authorization".toList "Connection".toList = false := by
      decide
    have hlength : eqIgnoreAsciiCase "Authorization".toList "Content-Length".toList = false := by
      decide
    rw [hheaders, hauth, ← hvalue]
    simp only [hhost, hconnection, hlength, eqIgnoreAsciiCase_self, Bool.false_eq_true, and_false,
      if_false, Option.isSome_some, and_self, if_true, Option.toList_some, List.map_singleton]

/-- A library without objections. -/
def lenientHttp : HttpLibrary where
  method _ := .ok ()
  target _ _ := .ok ()
  headerName _ := true
  header _ _ := .ok ()
  encode request := .ok (utf8 (request.method ++ ' ' :: request.target ++
      " HTTP/1.1\r\n".toList ++
      (request.headers.flatMap fun entry => entry.1 ++ ": ".toList ++ entry.2 ++ "\r\n".toList) ++
      (request.body.elim [] fun body =>
        "Content-Length: ".toList ++ Json.naturalText body.length ++ "\r\n".toList) ++
      "\r\n".toList) ++ request.body.getD [])

/-- A strategy whose user sets headers that are its own. -/
def headerStrategy : HttpWaitStrategy where
  path := "/health".toList
  port := none
  method := "GET".toList
  headers := [("host".toList, "user.example".toList), ("X-Id".toList, "1".toList),
    ("authorization".toList, "Bearer user".toList)]
  body := none
  auth := some (.basic "a".toList "b".toList)
  responseMatcher := none
  pollInterval := .fromMillis 100
  requestTimeout := .fromSecs 10

/-- Of the headers of the user, "X-Id" is sent. -/
theorem buildRequest_spec_headerStrategy :
    ∃ request, lenientHttp.buildRequest headerStrategy "localhost".toList 80 = .ok request ∧
      valuesOf request.headers "x-id".toList = ["1".toList] ∧
      valuesOf request.headers "HOST".toList = ["localhost:80".toList] := by
  obtain ⟨-, hheaders, -⟩ :=
    buildRequest_spec lenientHttp headerStrategy "localhost".toList 80 _ rfl
  exact ⟨_, rfl, (hheaders _).trans (by decide), (hheaders _).trans (by decide)⟩

end ContainerRs
