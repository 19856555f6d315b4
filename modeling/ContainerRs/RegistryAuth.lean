import ContainerRs.CreateContainer
import ContainerRs.Lib.Base64
import ContainerRs.Lib.Fields
import ContainerRs.Lib.Paths
import ContainerRs.Lib.PercentEncoding
import ContainerRs.Lib.RawJson
import ContainerRs.Lib.Utf8

/-!
# Registry Credentials

For an image of a private registry `DockerClient::pull_image` sends the credentials that the
Docker configuration holds for it (registry_auth.rs): the entry of `auths` under the image's
key, as JSON text in Base64 in the header `X-Registry-Auth`.

The daemon reads the header as Base64 of the alphabet for URLs, while `extract_auth_entry`
writes it in the standard one. They agree only on text without the values 62 and 63, and these
come about by how the bits of the credentials lie: "ab?" as an identity token is rejected, and
"a?b" is not.

JSON text is read by the library `nojson`, which is a parameter here.

## Main results

* `denotes_headerJson`: the header's text denotes the credentials, whatever their characters.
* `allBelow62_headerJson_iff`: the credentials and their positions decide whether the text of
  the header is the same in both alphabets.
* `registryAuth_carries_iff`: exactly then the daemon reads the credentials.
-/

namespace ContainerRs

open Base64 Json Outcomes Utf8

/-! ### Reading the configuration -/

/-- The key of Docker Hub. -/
def dockerHubAuthKey : Text := "https://index.docker.io/v1/".toList

/-- The key of an image: its registry, or Docker Hub. -/
def authsKey (descriptor : Text) : Text :=
  let first := descriptor.takeWhile (· ≠ '/')
  if '/' ∈ descriptor ∧ ('.' ∈ first ∨ ':' ∈ first ∨ first = "localhost".toList) then
    if first = "docker.io".toList ∨ first = "index.docker.io".toList then dockerHubAuthKey
    else first
  else dockerHubAuthKey

/-- The text up to the first separator and behind it. -/
def splitOnce (separator : Char) (text : Text) : Option (Text × Text) :=
  if separator ∈ text then
    some (text.takeWhile (· ≠ separator), (text.dropWhile (· ≠ separator)).tail)
  else none

/-- The header's text for an identity token. -/
def identityTokenJson (tokenStr : Text) : Text :=
  "\x7b\"identitytoken\":\"".toList ++ escapeJsonValue tokenStr ++ "\"\x7d".toList

/-- The header's text for a user. -/
def loginJson (username password key : Text) : Text :=
  "\x7b\"username\":\"".toList ++ escapeJsonValue username ++ "\",\"password\":\"".toList ++
    escapeJsonValue password ++ "\",\"serveraddress\":\"".toList ++ escapeJsonValue key ++
    "\"\x7d".toList

section Reader

variable {ν : Type} (reader : RawJson ν)

/-- The identity token of an entry that is not empty. -/
def identityToken (entryValue : ν) : Option Text :=
  (reader.optionalText entryValue "identitytoken".toList).filter (· ≠ [])

/-- The header for the entry of `auths` under a key. -/
def extractAuthEntry (configJson key : Text) : Option Text := do
  let value ← (reader.parse configJson).toOption
  let authsValue ← reader.optional value "auths".toList
  let entryValue ← reader.optional authsValue key
  match identityToken reader entryValue with
  | some tokenStr => some (encode standard (utf8 (identityTokenJson tokenStr)))
  | none => do
      let authStr ← reader.optionalText entryValue "auth".toList
      if authStr = [] then none
      else do
        let decodedBytes ← decode standard authStr
        let decoded ← fromUtf8 decodedBytes
        let (username, password) ← splitOnce ':' decoded
        some (encode standard (utf8 (loginJson username password key)))

/-- The environment of the process: its variables, the home directory and the files that can be
read as text. -/
structure Environment where
  var : Text → Option Text
  home : Option Bytes
  readToString : Bytes → Option Text

/-- A path with a name behind it. -/
def pushName (path : Bytes) (name : String) : Bytes := Paths.push 0x2F path (utf8 name.toList)

/-- The text of the configuration. -/
def loadConfigJson (env : Environment) : Option Text :=
  match (env.var "DOCKER_AUTH_CONFIG".toList).filter (· ≠ []) with
  | some json => some json
  | none =>
      match (env.var "DOCKER_CONFIG".toList).filter (· ≠ []) with
      | some dir => env.readToString (pushName (utf8 dir) "config.json")
      | none => env.home.bind fun home =>
          env.readToString (pushName (pushName home ".docker") "config.json")

/-- The header for an image. -/
def xRegistryAuth (env : Environment) (descriptor : Text) : Option Text := do
  let configJson ← loadConfigJson env
  extractAuthEntry reader configJson (authsKey descriptor)

/-! ### Pulling an image -/

/-- The last component of a reference, with its tag. -/
def nameTag (descriptor : Text) : Text := (descriptor.reverse.takeWhile (· ≠ '/')).reverse

/-- The name and the tag of a reference. -/
def splitNameAndTag (descriptor : Text) : Text × Text :=
  match splitOnce ':' (nameTag descriptor) with
  | none => (descriptor, "latest".toList)
  | some (name, tag) =>
      (descriptor.take (descriptor.length - (nameTag descriptor).length + name.length),
        if tag = [] then "latest".toList else tag)

/-- The image and the tag, or the digest, of a reference. -/
def splitPullReference (descriptor : Text) : Text × Text :=
  match splitOnce '@' descriptor with
  | some (left, digest) =>
      ((splitNameAndTag left).1, if digest = [] then "latest".toList else digest)
  | none => splitNameAndTag descriptor

/-- A byte that stands for itself in a query. -/
def IsUnreserved (b : UInt8) : Prop :=
  (0x41 ≤ b ∧ b ≤ 0x5A) ∨ (0x61 ≤ b ∧ b ≤ 0x7A) ∨ (0x30 ≤ b ∧ b ≤ 0x39) ∨
    b = 0x2D ∨ b = 0x5F ∨ b = 0x2E ∨ b = 0x7E

instance (b : UInt8) : Decidable (IsUnreserved b) := inferInstanceAs (Decidable (_ ∨ _))

/-- Text in a query. -/
def percentEncode (s : Text) : Text :=
  (utf8 s).flatMap fun b =>
    if IsUnreserved b then [Char.ofNat b.toNat]
    else
      ['%', PercentEncoding.hexDigits.getD (b.toNat / 16) '0',
        PercentEncoding.hexDigits.getD (b.toNat % 16) '0']

/-- A request as it is handed over to the HTTP library. -/
structure ApiRequest where
  method : Text
  path : Text
  headers : List (Text × Text)

/-- A request without a body. -/
def encodeDockerApiRequestWithHeaders (method path : Text) (extraHeaders : List (Text × Text)) :
    ApiRequest where
  method := method
  path := path
  headers := [("Host".toList, "localhost".toList), ("Connection".toList, "close".toList)] ++
    extraHeaders

/-- The path that pulls an image, for a platform if one is given. -/
def pullPath (descriptor : Text) (platform : Option Text) : Text :=
  "/images/create?fromImage=".toList ++ percentEncode (splitPullReference descriptor).1 ++
    "&tag=".toList ++ percentEncode (splitPullReference descriptor).2 ++
      platform.elim [] fun platform => "&platform=".toList ++ percentEncode platform

/-- The request that pulls an image. -/
def pullImage (env : Environment) (descriptor : Text) (platform : Option Text) : ApiRequest :=
  let authHeader := xRegistryAuth reader env descriptor
  let extraHeaders := (authHeader.map fun v => [("X-Registry-Auth".toList, v)]).getD []
  encodeDockerApiRequestWithHeaders "POST".toList (pullPath descriptor platform) extraHeaders

end Reader

/-! ### Configured credentials -/

/-- What an entry of `auths` holds. -/
inductive Credentials
  | identityToken (token : Text)
  | login (username password : Text)

/-- The JSON object that the daemon expects. -/
def Credentials.document (key : Text) : Credentials → Json
  | identityToken token => .object [("identitytoken".toList, .string token)]
  | login username password =>
      .object [("username".toList, .string username), ("password".toList, .string password),
        ("serveraddress".toList, .string key)]

/-- The entry of `auths` under a key holds the credentials: an identity token that is not
empty, and else a user name and a password with a colon between them in Base64. -/
inductive Configured {ν : Type} (reader : RawJson ν) (configJson key : Text) :
    Credentials → Prop
  | identityToken {value auths entry tokenValue : ν} {token : Text}
      (hparse : reader.parse configJson = .ok value)
      (hauths : reader.optional value "auths".toList = some auths)
      (hentry : reader.optional auths key = some entry)
      (hmember : reader.optional entry "identitytoken".toList = some tokenValue)
      (htoken : reader.toText tokenValue = .ok token) (hne : token ≠ []) :
      Configured reader configJson key (.identityToken token)
  | login {value auths entry authValue : ν} {auth username password : Text}
      (hparse : reader.parse configJson = .ok value)
      (hauths : reader.optional value "auths".toList = some auths)
      (hentry : reader.optional auths key = some entry)
      (hnone : ∀ tokenValue token, reader.optional entry "identitytoken".toList = some tokenValue →
        reader.toText tokenValue = .ok token → token = [])
      (hmember : reader.optional entry "auth".toList = some authValue)
      (hauth : reader.toText authValue = .ok auth)
      (hdecode : decode standard auth = some (utf8 (username ++ ':' :: password)))
      (husername : ':' ∉ username) :
      Configured reader configJson key (.login username password)

/-- The daemon reads a JSON value from a header: the header is Base64 of the alphabet for URLs,
and its bytes are the text of the value. -/
def Carries (header : Text) (document : Json) : Prop :=
  ∃ text, decode urlSafe header = some (utf8 text) ∧ Json.parse text = some document

/-- The bytes of a string in JSON text. -/
def escapedBytes (s : Text) : Bytes := utf8 (escapeJsonValue s)

/-- No six bits of the credentials are 62 or 63, where they stand in the header's text: behind
18 bytes for a token, and behind 13, 14 and 19 bytes for the parts of a login. -/
def Credentials.AvoidSpecial (key : Text) : Credentials → Prop
  | identityToken token => AvoidsFrom 18 (escapedBytes token)
  | login username password =>
      let passwordAt := 13 + (escapedBytes username).length + 14
      AvoidsFrom 13 (escapedBytes username) ∧ AvoidsFrom passwordAt (escapedBytes password) ∧
        AvoidsFrom (passwordAt + (escapedBytes password).length + 19) (escapedBytes key)

instance (key : Text) : (credentials : Credentials) → Decidable (credentials.AvoidSpecial key)
  | .identityToken _ => inferInstanceAs (Decidable (AvoidsFrom _ _))
  | .login _ _ => inferInstanceAs (Decidable (_ ∧ _))

/-- The header's text for credentials. -/
def Credentials.headerJson (key : Text) : Credentials → Text
  | identityToken token => identityTokenJson token
  | login username password => loginJson username password key

/-! ### The header -/

/-- The first separator is where the text is cut. -/
theorem splitOnce_append {separator : Char} {before : Text} (h : separator ∉ before)
    (after : Text) :
    splitOnce separator (before ++ separator :: after) = some (before, after) := by
  rw [splitOnce, if_pos (List.mem_append_right _ List.mem_cons_self),
    Fields.takeWhile_ne_append h, Fields.dropWhile_ne_append h, List.tail_cons]

/-- A text without the separator is not split. -/
theorem splitOnce_eq_none {separator : Char} {text : Text} (h : separator ∉ text) :
    splitOnce separator text = none :=
  if_neg h

/-- Where a text is cut: at its first separator. A text with a separator is a part without
one, a separator and the rest. -/
theorem splitOnce_eq_some_iff {separator : Char} {text before after : Text} :
    splitOnce separator text = some (before, after) ↔
      separator ∉ before ∧ text = before ++ separator :: after := by
  constructor
  · intro h
    by_cases hmem : separator ∈ text
    · obtain ⟨before', after', rfl, hnot⟩ := List.eq_append_cons_of_mem hmem
      rw [splitOnce_append hnot] at h
      obtain ⟨rfl, rfl⟩ := Prod.mk.inj (Option.some.inj h)
      exact ⟨hnot, rfl⟩
    · rw [splitOnce_eq_none hmem] at h
      exact absurd h (by simp)
  · rintro ⟨hnot, rfl⟩
    exact splitOnce_append hnot after

section Reader

variable {ν : Type} {reader : RawJson ν}

/-- A token that is there, is a text and is not empty is the identity token. -/
theorem identityToken_eq_some {entry tokenValue : ν} {token : Text}
    (hmember : reader.optional entry "identitytoken".toList = some tokenValue)
    (htoken : reader.toText tokenValue = .ok token) (hne : token ≠ []) :
    identityToken reader entry = some token := by
  rw [identityToken, RawJson.optionalText, hmember, Option.bind_some, htoken, Except.toOption,
    Option.filter_some, if_pos (by simp [hne])]

/-- There is no identity token where the only one that can be read is empty. -/
theorem identityToken_eq_none {entry : ν}
    (h : ∀ tokenValue token, reader.optional entry "identitytoken".toList = some tokenValue →
      reader.toText tokenValue = .ok token → token = []) :
    identityToken reader entry = none := by
  rw [identityToken, Option.filter_eq_none_iff]
  intro token htoken
  obtain ⟨tokenValue, hmember, htext⟩ := Option.bind_eq_some_iff.mp htoken
  simp [h tokenValue token hmember (toOption_eq_some_iff.mp htext)]

/-- **The header is written for the configured credentials.** One case for each kind of
credentials. -/
theorem extractAuthEntry_of_configured {configJson key : Text} {credentials : Credentials}
    (h : Configured reader configJson key credentials) :
    extractAuthEntry reader configJson key =
      some (encode standard (utf8 (credentials.headerJson key))) := by
  cases h with
  | identityToken hparse hauths hentry hmember htoken hne =>
      have hidentity := identityToken_eq_some hmember htoken hne
      simp only [extractAuthEntry, bind, Option.bind, hparse, Except.toOption, hauths, hentry,
        hidentity]
      rfl
  | @login _ _ _ _ auth username password hparse hauths hentry hnone hmember hauth hdecode
      husername =>
      have hidentity := identityToken_eq_none hnone
      have hne : auth ≠ [] := by
        rintro rfl
        exact utf8_ne_nil (by simp) (Option.some.inj hdecode).symm
      simp only [extractAuthEntry, bind, Option.bind, hparse, Except.toOption, hauths, hentry,
        hidentity, RawJson.optionalText, hmember, hauth, hdecode, fromUtf8_utf8,
        splitOnce_append husername]
      rw [if_neg hne]
      rfl

end Reader

/-! ### The header's text -/

/-- The document of an identity token is an object with one member. -/
theorem identityTokenJson_eq (tokenStr : Text) :
    identityTokenJson tokenStr =
      '{' :: separated [escapeJson "identitytoken".toList ++ ':' :: escapeJson tokenStr] ++
        ['}'] := by
  have htext : ∀ s : Text, "\x7b\"identitytoken\":\"".toList ++ s ++ "\"\x7d".toList =
      '{' :: separated [escapeJson "identitytoken".toList ++ ':' :: ('"' :: s ++ ['"'])] ++
        ['}'] := by
    intro s
    simp [separated_singleton, escapeJson, escapeJsonValue, escapeChar]
  exact htext (escapeJsonValue tokenStr)

/-- The document of a login is an object with three members, whatever is in the texts. -/
theorem loginJson_eq (username password key : Text) :
    loginJson username password key =
      '{' :: separated [escapeJson "username".toList ++ ':' :: escapeJson username,
        escapeJson "password".toList ++ ':' :: escapeJson password,
        escapeJson "serveraddress".toList ++ ':' :: escapeJson key] ++ ['}'] := by
  have htext : ∀ u p k : Text, "\x7b\"username\":\"".toList ++ u ++ "\",\"password\":\"".toList ++
      p ++ "\",\"serveraddress\":\"".toList ++ k ++ "\"\x7d".toList =
      '{' :: separated [escapeJson "username".toList ++ ':' :: ('"' :: u ++ ['"']),
        escapeJson "password".toList ++ ':' :: ('"' :: p ++ ['"']),
        escapeJson "serveraddress".toList ++ ':' :: ('"' :: k ++ ['"'])] ++ ['}'] := by
    intro u p k
    simp [separated_singleton, separated_cons_cons, escapeJson, escapeJsonValue, escapeChar]
  exact htext (escapeJsonValue username) (escapeJsonValue password) (escapeJsonValue key)

/-- A name, a colon and text for a value make a member. -/
theorem denotesMember_escapeJson (name : Text) {text : Text} {value : Json}
    (h : Denotes text value) : DenotesMember (escapeJson name ++ ':' :: text) (name, value) :=
  ⟨_, _, rfl, denotesString_escapeJson name, h⟩

/-- **The header's text denotes the credentials**, whatever their characters. One case for
each kind of credentials. -/
theorem denotes_headerJson (credentials : Credentials) (key : Text) :
    Denotes (credentials.headerJson key) (credentials.document key) := by
  have hmember : ∀ name s : Text,
      DenotesMember (escapeJson name ++ ':' :: escapeJson s) (name, .string s) := fun name s =>
    denotesMember_escapeJson name (denotes_escapeJson s)
  cases credentials with
  | identityToken token =>
      rw [Credentials.headerJson, identityTokenJson_eq]
      exact denotes_object (.cons (hmember _ _) .nil)
  | login username password =>
      rw [Credentials.headerJson, loginJson_eq]
      exact denotes_object (.cons (hmember _ _) (.cons (hmember _ _) (.cons (hmember _ _) .nil)))

/-! ### The bits of the header's text -/

/-- The bytes of a text avoid the two values wherever they stand. -/
def Plain (text : Text) : Prop := ∀ b ∈ utf8 text, b.toNat < 128 ∧ b.toNat % 64 < 62

instance (text : Text) : Decidable (Plain text) := inferInstanceAs (Decidable (∀ _ ∈ _, _))

/-- Text in front of a string: its bytes, of which the last one is a quote. -/
structure Opening (text : Text) (length : ℕ) : Prop where
  plain : Plain text
  quote : (utf8 text).getLast? = some 0x22
  length_eq : (utf8 text).length = length

/-- **A string between quotes** avoids the two values by itself. -/
theorem avoidsFrom_string {position : ℕ} {front s after : Text}
    (hquote : (utf8 front).getLast? = some 0x22) (hafter : Plain after) :
    AvoidsFrom position (utf8 (front ++ s ++ after)) ↔
      AvoidsFrom position (utf8 front) ∧
        AvoidsFrom (position + (utf8 front).length) (utf8 s) := by
  rw [utf8_append, utf8_append, avoidsFrom_append, avoidsFrom_append, and_assoc]
  · exact and_congr_right fun _ => and_iff_left (avoidsFrom_of_forall hafter _)
  · intro last hlast _ _
    rw [hquote] at hlast
    obtain rfl := Option.some.inj hlast
    exact .inl (by decide)
  · exact fun _ _ first hfirst => .inr (hafter first (List.mem_of_head? hfirst)).1

/-- The last byte in front of the string is its quote. -/
theorem Opening.getLast? {text : Text} {n : ℕ} (h : Opening text n) (front : Text) :
    (utf8 (front ++ text)).getLast? = some 0x22 := by
  rw [utf8_append, List.getLast?_append, h.quote]
  rfl

/-- A string between an opening and a closing text. -/
theorem avoidsFrom_one {a d : Text} {n : ℕ} (ha : Opening a n) (hd : Plain d) (s : Text) :
    AvoidsFrom 0 (utf8 (a ++ s ++ d)) ↔ AvoidsFrom n (utf8 s) := by
  rw [avoidsFrom_string ha.quote hd, ha.length_eq, Nat.zero_add]
  exact and_iff_right (avoidsFrom_of_forall ha.plain 0)

/-- Three strings behind an opening text each. -/
theorem avoidsFrom_three {a b c d : Text} {n m l : ℕ} (ha : Opening a n) (hb : Opening b m)
    (hc : Opening c l) (hd : Plain d) (u p k : Text) :
    AvoidsFrom 0 (utf8 (a ++ u ++ b ++ p ++ c ++ k ++ d)) ↔
      AvoidsFrom n (utf8 u) ∧ AvoidsFrom (n + (utf8 u).length + m) (utf8 p) ∧
        AvoidsFrom (n + (utf8 u).length + m + (utf8 p).length + l) (utf8 k) := by
  rw [avoidsFrom_string (hc.getLast? _) hd, avoidsFrom_string (hb.getLast? _) hc.plain,
    avoidsFrom_one ha hb.plain, and_assoc]
  simp only [utf8_append, List.length_append, ha.length_eq, hb.length_eq, hc.length_eq,
    Nat.zero_add]

/-- The text in front of the identity token. -/
theorem opening_identityToken : Opening "\x7b\"identitytoken\":\"".toList 18 :=
  ⟨by decide +kernel, by decide +kernel, by decide +kernel⟩

/-- The text in front of the user name. -/
theorem opening_username : Opening "\x7b\"username\":\"".toList 13 :=
  ⟨by decide +kernel, by decide +kernel, by decide +kernel⟩

/-- The text between the user name and the password. -/
theorem opening_password : Opening "\",\"password\":\"".toList 14 :=
  ⟨by decide +kernel, by decide +kernel, by decide +kernel⟩

/-- The text between the password and the address of the registry. -/
theorem opening_serveraddress : Opening "\",\"serveraddress\":\"".toList 19 :=
  ⟨by decide +kernel, by decide +kernel, by decide +kernel⟩

/-- The text at the end of a document avoids the two values. -/
theorem plain_closing : Plain "\"\x7d".toList := by decide +kernel

/-- **The credentials and their positions decide** whether the text of the header needs one of
the two values. -/
theorem allBelow62_headerJson_iff (credentials : Credentials) (key : Text) :
    AllBelow62 (utf8 (credentials.headerJson key)) ↔ credentials.AvoidSpecial key := by
  rw [allBelow62_iff]
  cases credentials with
  | identityToken token => exact avoidsFrom_one opening_identityToken plain_closing _
  | login username password =>
      exact avoidsFrom_three opening_username opening_password opening_serveraddress
        plain_closing _ _ _

/-! ### What the daemon reads -/

/-- The daemon reads the credentials from Base64 of their text if it needs neither of the two
values, and nothing otherwise. -/
theorem carries_encode_iff (credentials : Credentials) (key : Text) :
    Carries (encode standard (utf8 (credentials.headerJson key))) (credentials.document key) ↔
      credentials.AvoidSpecial key := by
  rw [← allBelow62_headerJson_iff]
  constructor
  · rintro ⟨text, hdecode, -⟩
    exact allBelow62_of_decode (by decide) hdecode
  · intro h
    exact ⟨_, decode_of_allBelow62 h, (denotes_headerJson credentials key).parse⟩

section Reader

variable {ν : Type} {reader : RawJson ν}

/-- The values of the header for credentials in a request. -/
def registryAuthHeaders (request : ApiRequest) : List Text :=
  (request.headers.filter fun header => header.1 = "X-Registry-Auth".toList).map Prod.snd

/-- The request that pulls an image has the header, once, if there is one. -/
theorem registryAuthHeaders_pullImage (env : Environment) (descriptor : Text)
    (platform : Option Text) :
    registryAuthHeaders (pullImage reader env descriptor platform) =
      (xRegistryAuth reader env descriptor).toList := by
  rw [registryAuthHeaders, pullImage, encodeDockerApiRequestWithHeaders]
  cases xRegistryAuth reader env descriptor with
  | none => simp
  | some header => simp

end Reader

/-! ### Configurations with one token -/

/-- A configuration with an identity token for one registry. -/
def tokenConfig (key token : Text) : Text :=
  "\x7b\"auths\":\x7b".toList ++ escapeJson key ++ ":\x7b\"identitytoken\":".toList ++
    escapeJson token ++ "\x7d\x7d\x7d".toList

/-- A configuration with one token parses to the object that it looks like, whatever the
key and the token are. -/
theorem parse_tokenConfig (key token : Text) :
    Json.reader.parse (tokenConfig key token) = .ok (.object [("auths".toList,
      .object [(key, .object [("identitytoken".toList, .string token)])])]) := by
  have htext : ∀ key token : Text, "\x7b\"auths\":\x7b".toList ++ key ++
      ":\x7b\"identitytoken\":".toList ++ token ++ "\x7d\x7d\x7d".toList =
      '{' :: separated [escapeJson "auths".toList ++ ':' ::
        ('{' :: separated [key ++ ':' ::
          ('{' :: separated [escapeJson "identitytoken".toList ++ ':' :: token] ++ ['}'])] ++
            ['}'])] ++ ['}'] := by
    intro key token
    simp [separated_singleton, escapeJson, escapeJsonValue, escapeChar]
  have heq : tokenConfig key token = _ := htext (escapeJson key) (escapeJson token)
  have hentry := denotes_object
    (.cons (denotesMember_escapeJson "identitytoken".toList (denotes_escapeJson token)) .nil)
  have hauths := denotes_object (.cons (denotesMember_escapeJson key hentry) .nil)
  have hconfig := denotes_object (.cons (denotesMember_escapeJson "auths".toList hauths) .nil)
  rw [heq]
  exact Json.parse_reader hconfig

/-- The member of an object that has one. -/
theorem optional_singleton (key : Text) (value : Json) :
    Json.reader.optional (.object [(key, value)]) key = some value := by
  simp [RawJson.optional, Json.reader]

/-- A configuration with one token, which is not empty, gives this token for its
registry. -/
theorem configured_tokenConfig (key : Text) {token : Text} (hne : token ≠ []) :
    Configured Json.reader (tokenConfig key token) key (.identityToken token) :=
  .identityToken (parse_tokenConfig key token) (optional_singleton _ _) (optional_singleton _ _)
    (optional_singleton _ _) rfl hne

/-- The environment of a process that finds the configuration in `DOCKER_AUTH_CONFIG`. -/
def authConfigEnvironment (configJson : Text) : Environment where
  var name := if name = "DOCKER_AUTH_CONFIG".toList then some configJson else none
  home := none
  readToString _ := none

/-- A configuration in `DOCKER_AUTH_CONFIG` is the one that is loaded. -/
theorem loadConfigJson_authConfigEnvironment {configJson : Text} (hne : configJson ≠ []) :
    loadConfigJson (authConfigEnvironment configJson) = some configJson := by
  have hvar : (authConfigEnvironment configJson).var "DOCKER_AUTH_CONFIG".toList =
    some configJson := by
      dsimp only [authConfigEnvironment]
      exact if_pos rfl
  simp only [loadConfigJson, hvar, Option.filter_some, hne, ne_eq, not_false_eq_true,
    decide_true, if_true]

/-- A configuration with one token is not empty. -/
theorem tokenConfig_ne_nil (key token : Text) : tokenConfig key token ≠ [] := by
  have hclose : "\x7d\x7d\x7d".toList ≠ [] := by decide +kernel
  unfold tokenConfig
  exact List.append_ne_nil_of_right_ne_nil _ hclose

/-! ### Which credentials arrive -/

/-- **The daemon reads the configured credentials exactly where the bits allow it.** Both
alphabets give the same text exactly if no six bits of the document are 62 or 63, and
these bits depend on the escaped texts and on where they stand. -/
theorem registryAuth_carries_iff {ν : Type} (reader : RawJson ν) (env : Environment)
    (descriptor : Text) (platform : Option Text) {configJson : Text} {credentials : Credentials}
    (hconfig : loadConfigJson env = some configJson)
    (h : Configured reader configJson (authsKey descriptor) credentials) :
    (∃ header, extractAuthEntry reader configJson (authsKey descriptor) = some header ∧
      xRegistryAuth reader env descriptor = some header ∧
        registryAuthHeaders (pullImage reader env descriptor platform) = [header] ∧
          Carries header (credentials.document (authsKey descriptor))) ↔
      credentials.AvoidSpecial (authsKey descriptor) := by
  have hextract := extractAuthEntry_of_configured h
  have hheader : xRegistryAuth reader env descriptor =
      some (encode standard (utf8 (credentials.headerJson (authsKey descriptor)))) := by
    rw [xRegistryAuth, hconfig]
    exact hextract
  rw [← carries_encode_iff]
  constructor
  · rintro ⟨header, hheader', -, -, hcarries⟩
    obtain rfl := Option.some.inj (hextract.symm.trans hheader')
    exact hcarries
  · intro hcarries
    exact ⟨_, hextract, hheader, by rw [registryAuthHeaders_pullImage, hheader]; rfl, hcarries⟩

/-- The token "a?b" arrives. -/
theorem registryAuth_carries_token :
    ∃ header,
      extractAuthEntry Json.reader
        (tokenConfig (authsKey "ghcr.io/org/app".toList) "a?b".toList)
        (authsKey "ghcr.io/org/app".toList) = some header ∧
      xRegistryAuth Json.reader
        (authConfigEnvironment (tokenConfig (authsKey "ghcr.io/org/app".toList) "a?b".toList))
        "ghcr.io/org/app".toList = some header ∧
      registryAuthHeaders (pullImage Json.reader
        (authConfigEnvironment (tokenConfig (authsKey "ghcr.io/org/app".toList) "a?b".toList))
        "ghcr.io/org/app".toList none) = [header] ∧
      Carries header (Credentials.document (authsKey "ghcr.io/org/app".toList)
        (.identityToken "a?b".toList)) :=
  (registryAuth_carries_iff Json.reader _ "ghcr.io/org/app".toList none
    (loadConfigJson_authConfigEnvironment (tokenConfig_ne_nil _ _))
    (configured_tokenConfig _ (by decide +kernel))).mpr (by decide +kernel)

/-- The token "ab?" does not arrive: its third character makes the six bits of a slash.
The exact condition is evaluated on it. -/
theorem identityToken_not_carried :
    Configured Json.reader (tokenConfig "ghcr.io".toList "ab?".toList)
        (authsKey "ghcr.io/org/app".toList) (.identityToken "ab?".toList) ∧
      ¬ ∃ header, extractAuthEntry Json.reader (tokenConfig "ghcr.io".toList "ab?".toList)
          (authsKey "ghcr.io/org/app".toList) = some header ∧
        Carries header (Credentials.document (authsKey "ghcr.io/org/app".toList)
          (.identityToken "ab?".toList)) := by
  have hkey : authsKey "ghcr.io/org/app".toList = "ghcr.io".toList := by decide +kernel
  have hne : "ab?".toList ≠ [] := by decide +kernel
  have hspecial : ¬ (Credentials.identityToken "ab?".toList).AvoidSpecial "ghcr.io".toList := by
    decide +kernel
  have h := configured_tokenConfig "ghcr.io".toList hne
  rw [hkey]
  refine ⟨h, ?_⟩
  rintro ⟨header, hheader, hcarries⟩
  obtain rfl := Option.some.inj ((extractAuthEntry_of_configured h).symm.trans hheader)
  exact hspecial ((carries_encode_iff _ _).mp hcarries)

end ContainerRs
