import ContainerRs.Lib.PercentEncoding
import ContainerRs.RegistryAuth

/-!
# Encoding Components of URLs

Names, references and paths are put into the targets of requests to the Docker daemon by
`percent_encode` (docker_client.rs), and the path of a kernel into a file URL by
`file_url_string` (xpc_client.rs). The two functions are written separately, with sets of plain
bytes of their own; both are encoders of `Lib.PercentEncoding`.

What the first one is for is said by the targets of all requests: each has a fixed route, with
the caller's texts as segments and values, and the daemon reads just this route from it.

## Main results

* `percentEncode_eq`, `fileUrlString_eq`: the two functions are encoders.
* `target_eq_render`: the target of a request is that of its route.
* `percentEncoders_exact`: both encoders can be undone, and leave no structure in a target.
-/

namespace ContainerRs

open PercentEncoding Utf8

/-! ### The encoders -/

/-- A byte that stands for itself in a file URL. -/
def IsFileUrlPathByte (b : UInt8) : Prop :=
  (0x41 ≤ b ∧ b ≤ 0x5A) ∨ (0x61 ≤ b ∧ b ≤ 0x7A) ∨ (0x30 ≤ b ∧ b ≤ 0x39) ∨
    b = 0x21 ∨ b = 0x24 ∨ b = 0x26 ∨ b = 0x27 ∨ b = 0x28 ∨ b = 0x29 ∨ b = 0x2A ∨ b = 0x2B ∨
    b = 0x2C ∨ b = 0x2D ∨ b = 0x2E ∨ b = 0x2F ∨ b = 0x3A ∨ b = 0x3B ∨ b = 0x3D ∨ b = 0x40 ∨
    b = 0x5F ∨ b = 0x7E

instance (b : UInt8) : Decidable (IsFileUrlPathByte b) := inferInstanceAs (Decidable (_ ∨ _))

/-- The file URL of an absolute path. -/
def fileUrlString (path : Bytes) : Text :=
  "file://".toList ++ path.flatMap fun b =>
    if IsFileUrlPathByte b then [Char.ofNat b.toNat]
    else
      ['%', hexDigits.getD (b >>> 4).toNat '0', hexDigits.getD (b &&& 0x0F).toNat '0']

/-- The characters that a component of a URL is made of without any encoding. -/
def unreserved : Text :=
  "ABCDEFGHIJKLMNOPQRSTUVWXYZabcdefghijklmnopqrstuvwxyz0123456789-._~".toList

/-- The characters that the path of a file URL is made of without any encoding. -/
def fileUrlPathChars : Text :=
  "ABCDEFGHIJKLMNOPQRSTUVWXYZabcdefghijklmnopqrstuvwxyz0123456789!$&'()*+,-./:;=@_~".toList

/-- The bytes that `percent_encode` leaves plain. -/
def plainUnreserved : PlainSet where
  mem b := IsUnreserved b
  ascii b h := by
    simp only [IsUnreserved, UInt8.le_iff_toNat_le, ← UInt8.toNat_inj, decide_eq_true_eq,
      UInt8.reduceToNat] at h
    omega
  percent := by decide

/-- The bytes that `file_url_string` leaves plain. -/
def plainFileUrlPath : PlainSet where
  mem b := IsFileUrlPathByte b
  ascii b h := by
    simp only [IsFileUrlPathByte, UInt8.le_iff_toNat_le, ← UInt8.toNat_inj, decide_eq_true_eq,
      UInt8.reduceToNat] at h
    omega
  percent := by decide

/-- The encoder of components leaves the unreserved characters plain. -/
theorem percentEncode_eq (s : Text) : percentEncode s = encode plainUnreserved (utf8 s) := by
  refine congrArg (List.flatMap · (utf8 s)) (funext fun b => ?_)
  simp only [encodeByte, plainUnreserved, decide_eq_true_eq]
  rfl

/-- The encoder of file paths leaves the slash plain besides. -/
theorem fileUrlString_eq (path : Bytes) :
    fileUrlString path = "file://".toList ++ encode plainFileUrlPath path := by
  refine congrArg (fun f => "file://".toList ++ path.flatMap f) (funext fun b => ?_)
  have hhigh : (b >>> 4).toNat = b.toNat / 16 := by
    simp [Nat.shiftRight_eq_div_pow]
  have hlow : (b &&& 0x0F).toNat = b.toNat % 16 := by
    simpa using Nat.and_two_pow_sub_one_eq_mod b.toNat 4
  simp only [encodeByte, plainFileUrlPath, decide_eq_true_eq, hhigh, hlow]
  rfl

/-- What is left plain in a component is one of the unreserved characters. -/
theorem byteChar_mem_unreserved : ∀ b, plainUnreserved.mem b → byteChar b ∈ unreserved :=
  plainUnreserved.forall_of_lt (by decide +kernel)

/-- What is left plain in a path is one of the characters of a file path. -/
theorem byteChar_mem_fileUrlPathChars :
    ∀ b, plainFileUrlPath.mem b → byteChar b ∈ fileUrlPathChars :=
  plainFileUrlPath.forall_of_lt (by decide +kernel)

/-- What is left plain in a component has no part in the structure of a target. -/
theorem byteChar_notMem_structural : ∀ b, plainUnreserved.mem b → byteChar b ∉ structural :=
  plainUnreserved.forall_of_lt (by decide +kernel)

/-- Different components are encoded differently, since each of them is decoded again. -/
theorem percentEncode_injective : Function.Injective percentEncode := by
  intro s t h
  rw [percentEncode_eq, percentEncode_eq] at h
  have hbytes := congrArg fromUtf8 (encode_injective plainUnreserved h)
  rw [fromUtf8_utf8, fromUtf8_utf8] at hbytes
  exact Option.some.inj hbytes

/-! ### Request targets -/

/-- The requests of the Docker client, by the methods that send them. -/
inductive ApiCall
  | pullImage (descriptor : Text) (platform : Option Text)
  | resolveImageDescriptor (descriptor : Text)
  | createContainer (name platform : Option Text)
  | startContainer (id : Text)
  | stop (id : Text) (timeoutSeconds : Option ℤ)
  | pause (id : Text)
  | unpause (id : Text)
  | remove (id : Text) (force : Bool)
  | waitBlocking (id : Text)
  | exec (id : Text)
  | execStart (execId : Text)
  | execInspect (execId : Text)
  | inspectJson (id : Text)
  | copyFrom (id path : Text)
  | copyTo (id dir : Text)
  | logs (id : Text) (follow : Bool)
  deriving DecidableEq, Repr

namespace ApiCall

/-- The grace period of a stop: 30 seconds unless another one is given. -/
def graceSeconds : Option ℤ → ℕ
  | some t => if t ≥ 0 then t.toNat else 30
  | none => 30

/-- The target of a request. -/
def target : ApiCall → Text
  | pullImage descriptor platform => pullPath descriptor platform
  | resolveImageDescriptor descriptor =>
      "/images/".toList ++ percentEncode descriptor ++ "/json".toList
  | createContainer name platform =>
      let params := (name.map fun name => "name=".toList ++ percentEncode name).toList ++
        (platform.map fun platform => "platform=".toList ++ percentEncode platform).toList
      "/containers/create".toList ++ if params = [] then [] else '?' :: ['&'].intercalate params
  | startContainer id => "/containers/".toList ++ percentEncode id ++ "/start".toList
  | stop id timeoutSeconds =>
      "/containers/".toList ++ percentEncode id ++ "/stop?t=".toList ++
        Json.naturalText (graceSeconds timeoutSeconds)
  | pause id => "/containers/".toList ++ percentEncode id ++ "/pause".toList
  | unpause id => "/containers/".toList ++ percentEncode id ++ "/unpause".toList
  | remove id force =>
      "/containers/".toList ++ percentEncode id ++ "?force=".toList ++ boolText force
  | waitBlocking id =>
      "/containers/".toList ++ percentEncode id ++ "/wait?condition=not-running".toList
  | exec id => "/containers/".toList ++ percentEncode id ++ "/exec".toList
  | execStart execId => "/exec/".toList ++ percentEncode execId ++ "/start".toList
  | execInspect execId => "/exec/".toList ++ percentEncode execId ++ "/json".toList
  | inspectJson id => "/containers/".toList ++ percentEncode id ++ "/json".toList
  | copyFrom id path =>
      "/containers/".toList ++ percentEncode id ++ "/archive?path=".toList ++ percentEncode path
  | copyTo id dir =>
      "/containers/".toList ++ percentEncode id ++ "/archive?path=".toList ++
        percentEncode dir ++ "&copyUIDGID=true".toList
  | logs id follow =>
      "/containers/".toList ++ percentEncode id ++ "/logs?stdout=1&stderr=1&follow=".toList ++
        boolText follow ++ "&tail=all".toList

/-- The route of texts: the path is absolute. -/
def routeOf (segments : List Text) (query : List (Text × Text)) : Route where
  path := [] :: segments.map utf8
  query := query.map fun parameter => (utf8 parameter.1, utf8 parameter.2)

/-- What a request is about. -/
def route : ApiCall → Route
  | pullImage descriptor platform =>
      routeOf ["images".toList, "create".toList]
        ([("fromImage".toList, (splitPullReference descriptor).1),
          ("tag".toList, (splitPullReference descriptor).2)] ++
          (platform.map fun platform => ("platform".toList, platform)).toList)
  | resolveImageDescriptor descriptor =>
      routeOf ["images".toList, descriptor, "json".toList] []
  | createContainer name platform =>
      routeOf ["containers".toList, "create".toList]
        ((name.map fun name => ("name".toList, name)).toList ++
          (platform.map fun platform => ("platform".toList, platform)).toList)
  | startContainer id => routeOf ["containers".toList, id, "start".toList] []
  | stop id timeoutSeconds =>
      routeOf ["containers".toList, id, "stop".toList]
        [("t".toList, Json.naturalText (graceSeconds timeoutSeconds))]
  | pause id => routeOf ["containers".toList, id, "pause".toList] []
  | unpause id => routeOf ["containers".toList, id, "unpause".toList] []
  | remove id force =>
      routeOf ["containers".toList, id] [("force".toList, boolText force)]
  | waitBlocking id =>
      routeOf ["containers".toList, id, "wait".toList]
        [("condition".toList, "not-running".toList)]
  | exec id => routeOf ["containers".toList, id, "exec".toList] []
  | execStart execId => routeOf ["exec".toList, execId, "start".toList] []
  | execInspect execId => routeOf ["exec".toList, execId, "json".toList] []
  | inspectJson id => routeOf ["containers".toList, id, "json".toList] []
  | copyFrom id path =>
      routeOf ["containers".toList, id, "archive".toList] [("path".toList, path)]
  | copyTo id dir =>
      routeOf ["containers".toList, id, "archive".toList]
        [("path".toList, dir), ("copyUIDGID".toList, "true".toList)]
  | logs id follow =>
      routeOf ["containers".toList, id, "logs".toList]
        [("stdout".toList, "1".toList), ("stderr".toList, "1".toList),
          ("follow".toList, boolText follow), ("tail".toList, "all".toList)]

/-- Text of letters, digits and '-' is written as it is. By induction on the text: each
such character is one plain byte in UTF-8. -/
theorem percentEncode_word {s : Text} (h : ∀ c ∈ s, c.isAlphanum ∨ c = '-') :
    percentEncode s = s := by
  have hchar : ∀ c : Char, c.isAlphanum ∨ c = '-' → percentEncode [c] = [c] := by
    have hbelow : ∀ n < 128, (Char.ofNat n).isAlphanum ∨ Char.ofNat n = '-' →
        percentEncode [Char.ofNat n] = [Char.ofNat n] := by decide +kernel
    intro c hc
    have hlt : c.toNat < 128 := by
      rcases hc with hc | rfl
      · delta Char.isAlphanum Char.isAlpha Char.isUpper Char.isLower Char.isDigit at hc
        simp only [Bool.or_eq_true, Bool.and_eq_true, decide_eq_true_eq, UInt32.le_iff_toNat_le,
          ge_iff_le] at hc
        have hZ : 'Z'.val.toNat = 90 := rfl
        have hz : 'z'.val.toNat = 122 := rfl
        have h9 : '9'.val.toNat = 57 := rfl
        rw [Char.toNat]
        omega
      · decide
    have hn := hbelow c.toNat hlt
    rw [Char.ofNat_toNat] at hn
    exact hn hc
  induction s with
  | nil => rfl
  | cons c s ih =>
      have happend : percentEncode (c :: s) = percentEncode [c] ++ percentEncode s := by
        simp only [percentEncode_eq, encode, ← List.flatMap_append, ← utf8_append]
        rfl
      rw [happend, hchar c (h c List.mem_cons_self),
        ih fun d hd => h d (List.mem_cons_of_mem _ hd)]
      rfl

/-- Such a text, where it is closed. -/
theorem percentEncode_of_all {s : Text}
    (h : s.all (fun c => c.isAlphanum || decide (c = '-')) = true) : percentEncode s = s := by
  refine percentEncode_word fun c hc => ?_
  have hchar := List.all_eq_true.mp h c hc
  rwa [Bool.or_eq_true, decide_eq_true_eq] at hchar

/-- The text of a route of texts. -/
theorem render_routeOf (segments : List Text) (query : List (Text × Text)) :
    render plainUnreserved (routeOf segments query) =
      ['/'].intercalate ([] :: segments.map percentEncode) ++
        if query = [] then []
        else '?' :: ['&'].intercalate (query.map fun parameter =>
          percentEncode parameter.1 ++ '=' :: percentEncode parameter.2) := by
  have hencode : percentEncode = fun s => encode plainUnreserved (utf8 s) :=
    funext percentEncode_eq
  simp only [render, routeOf, List.map_cons, List.map_map, List.map_eq_nil_iff, hencode,
    Function.comp_def]
  rfl

/-- The digits of a number are left plain. -/
@[simp] theorem percentEncode_naturalText (n : ℕ) :
    percentEncode (Json.naturalText n) = Json.naturalText n := by
  refine percentEncode_word fun c hc => .inl ?_
  rw [Char.isAlphanum, Json.isDigit_of_mem_naturalText hc, Bool.or_true]

/-- The text of a truth value is left plain. -/
@[simp] theorem percentEncode_boolText (b : Bool) : percentEncode (boolText b) = boolText b :=
  percentEncode_of_all (by cases b <;> decide)

/-- The target of a request is that of its route. -/
theorem target_eq_render (call : ApiCall) :
    call.target = render plainUnreserved call.route := by
  cases call with
  | pullImage descriptor platform =>
      cases platform <;> dsimp only [target, route, pullPath] <;>
        simp (disch := decide) [render_routeOf, percentEncode_of_all, List.intercalate]
  | createContainer name platform =>
      cases name <;> cases platform <;> dsimp only [target, route] <;>
        simp (disch := decide) [render_routeOf, percentEncode_of_all, List.intercalate]
  | resolveImageDescriptor | startContainer | stop | pause | unpause | remove | waitBlocking
  | exec | execStart | execInspect | inspectJson | copyFrom | copyTo | logs =>
      dsimp only [target, route]
      simp (disch := decide) [render_routeOf, percentEncode_of_all, List.intercalate]

/-- **A request is read as what it is about**, whatever the texts in it. -/
theorem parseTarget_target (call : ApiCall) : parseTarget call.target = some call.route := by
  have hpath : call.route.path ≠ [] := by cases call <;> exact List.cons_ne_nil _ _
  rw [target_eq_render, parse_render byteChar_notMem_structural hpath]

end ApiCall

/-! ### Both encoders -/

/-- **Both percent encoders can be undone and keep their text safe.** Whatever the text, what
`percent_encode` writes is unreserved characters and triplets, none of them a '/', '?', '&', '#'
or '+'; it stands for the bytes of the text, for either decoder, and for no other text; and a
request is read as what it is about. Likewise a file URL stands for the bytes of its path and
no others, and is made of path characters and triplets. -/
theorem percentEncoders_exact :
    (∀ s : Text, decode (percentEncode s) = some (utf8 s) ∧
      decodeLoose (percentEncode s) = utf8 s ∧ Escaped unreserved (percentEncode s) ∧
      ∀ c ∈ "/?&#+".toList, c ∉ percentEncode s) ∧
    Function.Injective percentEncode ∧
    (∀ call : ApiCall, parseTarget call.target = some call.route) ∧
    (∀ path : Bytes, ∃ text, fileUrlString path = "file://".toList ++ text ∧
      decode text = some path ∧ decodeLoose text = path ∧ Escaped fileUrlPathChars text) ∧
    Function.Injective fileUrlString := by
  refine ⟨?_, percentEncode_injective, ApiCall.parseTarget_target, ?_, ?_⟩
  · intro s
    have hdecode : decode (percentEncode s) = some (utf8 s) := by
      rw [percentEncode_eq, decode_encode]
    refine ⟨hdecode, decodeLoose_of_decode hdecode, ?_, ?_⟩
    · rw [percentEncode_eq]
      exact escaped_encode _ byteChar_mem_unreserved _
    · have hsubset : "/?&#+".toList ⊆ structural := by decide
      intro c hc
      rw [percentEncode_eq]
      exact notMem_encode byteChar_notMem_structural (hsubset hc) _
  · intro path
    have hdecode := decode_encode plainFileUrlPath path
    exact ⟨_, fileUrlString_eq path, hdecode, decodeLoose_of_decode hdecode,
      escaped_encode _ byteChar_mem_fileUrlPathChars path⟩
  · intro path path' h
    rw [fileUrlString_eq, fileUrlString_eq] at h
    exact encode_injective _ (List.append_cancel_left h)

/-- A path with a space, a '%' and a letter of two bytes. -/
example : fileUrlString (utf8 "/a b%é".toList) = "file:///a%20b%25%C3%A9".toList := by decide

end ContainerRs
