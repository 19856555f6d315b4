import ContainerRs.Lib.Fields
import ContainerRs.Lib.Json
import ContainerRs.Lib.Utf8

/-!
# Percent Encoding

Bytes written into a URL: some of them, all of them ASCII and none of them '%', as the
characters that they are, and the others as a '%' and two hexadecimal digits in capitals. An
encoder is given by the bytes that it leaves plain.

Two decoders read such text: `decode` rejects a '%' that begins no triplet, `decodeLoose` lets
it stand for itself.

Behind the encoding of single components stands that of a whole request target, a path of
segments and a query of named values.

## Main results

* `decode_encode`: encoded bytes are read back, whatever they are.
* `escaped_encode`: encoded text is plain characters and triplets.
* `decodeLoose_of_decode`: on text without a stray '%' the decoders agree.
* `parse_render`: the components of a target are read back, whatever they are.
-/

namespace PercentEncoding

open Fields Utf8
open Json (hexValue)

/-! ### Encoding -/

/-- The digits of a triplet. -/
def hexDigits : List Char := "0123456789ABCDEF".toList

/-- The digit for four bits. -/
def hexDigit (n : ℕ) : Char := hexDigits.getD n '0'

/-- A byte as the character of its number. -/
def byteChar (b : UInt8) : Char := Char.ofNat b.toNat

/-- A byte as a '%' and two digits. -/
def triplet (b : UInt8) : List Char :=
  ['%', hexDigit (b.toNat / 16), hexDigit (b.toNat % 16)]

/-- The bytes that an encoder leaves plain. -/
structure PlainSet where
  mem : UInt8 → Bool
  ascii : ∀ b, mem b → b.toNat < 128
  percent : mem 0x25 = false

variable (plain : PlainSet)

/-- What is written for a byte. -/
def encodeByte (b : UInt8) : List Char :=
  if plain.mem b then [byteChar b] else triplet b

/-- What is written for bytes. -/
def encode (bytes : Bytes) : List Char := bytes.flatMap (encodeByte plain)

/-- Text made of allowed characters and of triplets in capitals. -/
inductive Escaped (allowed : List Char) : List Char → Prop
  | nil : Escaped allowed []
  | plain {c : Char} {text : List Char} : c ∈ allowed → Escaped allowed text →
      Escaped allowed (c :: text)
  | triplet {high low : Char} {text : List Char} : high ∈ hexDigits → low ∈ hexDigits →
      Escaped allowed text → Escaped allowed ('%' :: high :: low :: text)

/-! ### Decoding -/

/-- The byte of two hexadecimal digits. -/
def readByte (high low : Char) : Option UInt8 := do
  let high ← hexValue high
  let low ← hexValue low
  some (UInt8.ofNat (high * 16 + low))

/-- The bytes that text stands for; none if a '%' begins no triplet. -/
def decode : List Char → Option Bytes
  | [] => some []
  | '%' :: high :: low :: text => do
      let b ← readByte high low
      let bytes ← decode text
      some (b :: bytes)
  | c :: text => if c = '%' then none else (decode text).map (String.utf8EncodeChar c ++ ·)

/-- The bytes that text stands for; a '%' that begins no triplet is one. -/
def decodeLoose : List Char → Bytes
  | [] => []
  | '%' :: high :: low :: text =>
      match readByte high low with
      | some b => b :: decodeLoose text
      | none => 0x25 :: decodeLoose (high :: low :: text)
  | c :: text => String.utf8EncodeChar c ++ decodeLoose text

/-! ### Round trip -/

/-- The two digits of a byte are read back: the upper and the lower four bits are below
16, and each is found at its index. -/
theorem readByte_hexDigit (b : UInt8) :
    readByte (hexDigit (b.toNat / 16)) (hexDigit (b.toNat % 16)) = some b := by
  have hdigit : ∀ n < 16, hexValue (hexDigit n) = some n := by decide
  have hlt := b.toNat_lt
  rw [readByte, hdigit _ (by omega), hdigit _ (Nat.mod_lt _ (by omega))]
  simp only [Option.bind_eq_bind, Option.bind_some, Option.some.injEq]
  rw [Nat.div_add_mod', UInt8.ofNat_toNat]

/-- A triplet in front of a text is decoded to its byte. -/
theorem decode_triplet (b : UInt8) (text : List Char) :
    decode (triplet b ++ text) = (decode text).map (b :: ·) := by
  rw [triplet, List.cons_append, List.cons_append, List.cons_append, List.nil_append, decode,
    readByte_hexDigit]
  cases decode text <;> rfl

/-- A plain byte is an ASCII character, and not '%'. -/
theorem byteChar_spec {b : UInt8} (h : b.toNat < 128) :
    String.utf8EncodeChar (byteChar b) = [b] ∧ (byteChar b = '%' → b = 0x25) := by
  have hval : (byteChar b).toNat = b.toNat := by
    rw [byteChar, Char.ofNat, dif_pos (.inl (by omega))]
    rfl
  constructor
  · rw [String.utf8EncodeChar, show (byteChar b).val.toNat = b.toNat from hval,
      if_pos (by omega), UInt8.ofNat_toNat]
  · intro hpercent
    rw [hpercent] at hval
    exact UInt8.toNat_inj.mp hval.symm

/-- A character that is no percent sign stands for its own bytes. -/
theorem decode_cons {c : Char} (h : c ≠ '%') (text : List Char) :
    decode (c :: text) = (decode text).map (String.utf8EncodeChar c ++ ·) := by
  rw [decode]
  · exact if_neg h
  · rintro _ _ _ rfl
    exact absurd rfl h

/-- **The step lemma**: a byte is decoded from what it has been encoded to, a triplet or
itself. -/
theorem decode_encodeByte (b : UInt8) (text : List Char) :
    decode (encodeByte plain b ++ text) = (decode text).map (b :: ·) := by
  rw [encodeByte]
  split
  · next hmem =>
      obtain ⟨hchar, hne⟩ := byteChar_spec (plain.ascii b hmem)
      have hpercent : byteChar b ≠ '%' := by
        intro heq
        rw [hne heq, plain.percent] at hmem
        exact absurd hmem Bool.false_ne_true
      rw [List.singleton_append, decode_cons hpercent, hchar]
      rfl
  · exact decode_triplet b text

/-- **Encoded bytes are read back**, in front of any text. -/
theorem decode_encode_append (bytes : Bytes) (text : List Char) :
    decode (encode plain bytes ++ text) = (decode text).map (bytes ++ ·) := by
  induction bytes with
  | nil => cases h : decode text <;> simp [encode, h]
  | cons b bytes ih =>
      rw [encode, List.flatMap_cons, List.append_assoc, decode_encodeByte, ← encode, ih,
        Option.map_map]
      rfl

/-- **Encoded bytes are read back.** -/
theorem decode_encode (bytes : Bytes) : decode (encode plain bytes) = some bytes := by
  have h := decode_encode_append plain bytes []
  rwa [List.append_nil, decode, Option.map_some, List.append_nil] at h

/-- Different bytes are written differently. -/
theorem encode_injective : Function.Injective (encode plain) := by
  intro bytes bytes' h
  have hdecode := congrArg decode h
  rw [decode_encode, decode_encode] at hdecode
  exact Option.some.inj hdecode

/-- **On text without a stray '%' the decoders agree.** By induction along the strict
decoder, which fails where the loose one would leave a percent sign as it is. -/
theorem decodeLoose_of_decode {text : List Char} {bytes : Bytes} (h : decode text = some bytes) :
    decodeLoose text = bytes := by
  fun_induction decode text generalizing bytes with
  | case1 => exact Option.some.inj h
  | case2 high low text ih =>
      obtain ⟨b, hb, h⟩ := Option.bind_eq_some_iff.mp h
      obtain ⟨bytes', hbytes, h⟩ := Option.bind_eq_some_iff.mp h
      rw [decodeLoose, hb]
      dsimp only
      rw [ih hbytes]
      exact Option.some.inj h
  | case3 => exact absurd h (by simp)
  | case4 c text hnot hne ih =>
      obtain ⟨bytes', hbytes, h⟩ := Option.map_eq_some_iff.mp h
      rw [decodeLoose, ih hbytes]
      · exact h
      · exact hnot

/-! ### What is written -/

/-- A digit of a triplet is one of the sixteen. -/
theorem mem_hexDigits {n : ℕ} (h : n < 16) : hexDigit n ∈ hexDigits := by
  have hmem : ∀ n < 16, hexDigit n ∈ hexDigits := by decide
  exact hmem n h

/-- What holds of the plain bytes among the first 128 numbers holds of all plain bytes. -/
theorem PlainSet.forall_of_lt {P : UInt8 → Prop}
    (h : ∀ n < 128, plain.mem (UInt8.ofNat n) → P (UInt8.ofNat n)) :
    ∀ b, plain.mem b → P b := by
  intro b hb
  have hn := h b.toNat (plain.ascii b hb)
  rw [UInt8.ofNat_toNat] at hn
  exact hn hb

/-- **Encoded text is plain characters and triplets.** By induction on the bytes. -/
theorem escaped_encode {allowed : List Char} (h : ∀ b, plain.mem b → byteChar b ∈ allowed)
    (bytes : Bytes) : Escaped allowed (encode plain bytes) := by
  induction bytes with
  | nil => exact .nil
  | cons b bytes ih =>
      rw [encode, List.flatMap_cons, encodeByte]
      split
      · next hmem => exact .plain (h b hmem) ih
      · have hlt := b.toNat_lt
        exact .triplet (mem_hexDigits (by omega)) (mem_hexDigits (Nat.mod_lt _ (by omega))) ih

/-! ### Request targets -/

/-- The components of a request target: the segments of its path and the names and values of
its query. -/
structure Route where
  path : List Bytes
  query : List (Bytes × Bytes)
  deriving DecidableEq, Repr

/-- The characters that divide a target, or stand for others in it. -/
def structural : List Char := "/?#&=+".toList

/-- The text of a target. -/
def render (route : Route) : List Char :=
  ['/'].intercalate (route.path.map (encode plain)) ++
    if route.query = [] then []
    else '?' :: ['&'].intercalate (route.query.map fun parameter =>
      encode plain parameter.1 ++ '=' :: encode plain parameter.2)

/-- The bytes of a name or a value in a query, where a '+' stands for a space. -/
def decodeForm (text : List Char) : Option Bytes :=
  decode (text.map fun c => if c = '+' then ' ' else c)

/-- A name and a value. -/
def parseParameter (text : List Char) : Option (Bytes × Bytes) := do
  let name ← decodeForm (text.takeWhile (· ≠ '='))
  let value ← decodeForm ((text.dropWhile (· ≠ '=')).drop 1)
  some (name, value)

/-- The names and values of a query. -/
def parseQuery (text : List Char) : Option (List (Bytes × Bytes)) :=
  if text = [] then some [] else (text.splitOn '&').mapM parseParameter

/-- The components of a target; there is none with a fragment. -/
def parseTarget (text : List Char) : Option Route :=
  if '#' ∈ text then none
  else do
    let path ← ((text.takeWhile (· ≠ '?')).splitOn '/').mapM decode
    let query ← parseQuery ((text.dropWhile (· ≠ '?')).drop 1)
    some { path, query }

section

variable {plain}

/-- What an encoder writes has no structure if the bytes that it leaves plain have none. A
triplet is a percent sign and two digits, none of which is structural. -/
theorem notMem_encode (h : ∀ b, plain.mem b → byteChar b ∉ structural) {c : Char}
    (hc : c ∈ structural) (bytes : Bytes) : c ∉ encode plain bytes := by
  have hall : structural.all (fun c => decide (c ≠ '%' ∧ c ∉ hexDigits)) = true := by decide
  have hdigits : ∀ c ∈ structural, c ≠ '%' ∧ c ∉ hexDigits :=
    fun c hc => of_decide_eq_true (List.all_eq_true.mp hall c hc)
  intro hmem
  obtain ⟨b, -, hb⟩ := List.mem_flatMap.mp hmem
  rw [encodeByte] at hb
  split at hb
  · next hplain =>
      obtain rfl := List.mem_singleton.mp hb
      exact h b hplain hc
  · have hlt := b.toNat_lt
    simp only [triplet, List.mem_cons, List.not_mem_nil, or_false] at hb
    rcases hb with rfl | rfl | rfl
    · exact (hdigits _ hc).1 rfl
    · exact (hdigits _ hc).2 (mem_hexDigits (by omega))
    · exact (hdigits _ hc).2 (mem_hexDigits (Nat.mod_lt _ (by omega)))

/-- The decoder of forms, which reads a plus sign as a space, decodes encoded bytes as
well: a plus sign is structural, so none is in them. -/
theorem decodeForm_encode (h : ∀ b, plain.mem b → byteChar b ∉ structural) (bytes : Bytes) :
    decodeForm (encode plain bytes) = some bytes := by
  have hplus : '+' ∉ encode plain bytes := notMem_encode h (by decide) bytes
  have hmap : ((encode plain bytes).map fun c => if c = '+' then ' ' else c) =
      encode plain bytes := by
    refine (List.map_congr_left ?_).trans (List.map_id _)
    intro c hc
    refine if_neg ?_
    rintro rfl
    exact hplus hc
  rw [decodeForm, hmap, decode_encode]

/-- A parameter is read back: the first equals sign is the one between key and value,
since the encoder leaves none plain. -/
theorem parseParameter_encode (h : ∀ b, plain.mem b → byteChar b ∉ structural)
    (parameter : Bytes × Bytes) :
    parseParameter (encode plain parameter.1 ++ '=' :: encode plain parameter.2) =
      some parameter := by
  have hname : '=' ∉ encode plain parameter.1 := notMem_encode h (by decide) _
  rw [parseParameter, takeWhile_ne_append hname, dropWhile_ne_append hname, List.drop_one,
    List.tail_cons, decodeForm_encode h, decodeForm_encode h]
  rfl

/-- If each item is read back, so is the list of them. -/
theorem mapM_map_eq_some {α β : Type} {f : α → β} {g : β → Option α}
    (h : ∀ a, g (f a) = some a) (items : List α) : (items.map f).mapM g = some items := by
  rw [List.mapM_map, show g ∘ f = some from funext h]
  exact List.mapM_pure.trans (congrArg some (List.map_id items))

/-- What divides a path from a query, or ends both, is in neither. -/
theorem notMem_intercalate_encode (h : ∀ b, plain.mem b → byteChar b ∉ structural)
    {c : Char} (hc : c ∈ structural) (hslash : c ≠ '/') (path : List Bytes) :
    c ∉ ['/'].intercalate (path.map (encode plain)) := by
  intro hmem
  rcases mem_intercalate hmem with rfl | ⟨field, hfield, hmem⟩
  · exact hslash rfl
  · obtain ⟨bytes, -, rfl⟩ := List.mem_map.mp hfield
    exact notMem_encode h hc bytes hmem

/-- No character of the structure but '=' is in a parameter. -/
theorem notMem_parameter (h : ∀ b, plain.mem b → byteChar b ∉ structural) {c : Char}
    (hc : c ∈ structural) (hequals : c ≠ '=') (parameter : Bytes × Bytes) :
    c ∉ encode plain parameter.1 ++ '=' :: encode plain parameter.2 := by
  intro hmem
  rcases List.mem_append.mp hmem with hmem | hmem
  · exact notMem_encode h hc _ hmem
  rcases List.mem_cons.mp hmem with rfl | hmem
  · exact hequals rfl
  · exact notMem_encode h hc _ hmem

/-- The text of a query that is not empty. Its text is not empty, the ampersands in it are
those between the parameters, and each parameter is read back from between two of them. -/
theorem query_spec (h : ∀ b, plain.mem b → byteChar b ∉ structural)
    {query : List (Bytes × Bytes)} (hquery : query ≠ []) :
    let text := ['&'].intercalate (query.map fun parameter =>
      encode plain parameter.1 ++ '=' :: encode plain parameter.2)
    '#' ∉ text ∧ parseQuery text = some query := by
  intro text
  have hfields : text.splitOn '&' = query.map fun parameter =>
      encode plain parameter.1 ++ '=' :: encode plain parameter.2 := by
    refine (splitOn_intercalate_iff (List.map_eq_nil_iff.not.mpr hquery)).mpr ?_
    intro field hfield
    obtain ⟨parameter, -, rfl⟩ := List.mem_map.mp hfield
    exact notMem_parameter h (by decide) (by decide) parameter
  have hne : text ≠ [] := by
    intro hnil
    obtain ⟨parameter, query, rfl⟩ := List.exists_cons_of_ne_nil hquery
    rw [hnil, List.splitOn_nil, List.map_cons] at hfields
    exact absurd (List.cons.inj hfields).1.symm (by simp)
  constructor
  · intro hmem
    rcases mem_intercalate hmem with heq | ⟨field, hfield, hmem⟩
    · exact absurd heq (by decide)
    · obtain ⟨parameter, -, rfl⟩ := List.mem_map.mp hfield
      exact notMem_parameter h (by decide) (by decide) parameter hmem
  · rw [parseQuery, if_neg hne, hfields]
    exact mapM_map_eq_some (parseParameter_encode h) query

/-- **The components of a target are read back**, whatever they are, if the encoder leaves no
character of the structure plain. -/
theorem parse_render (h : ∀ b, plain.mem b → byteChar b ∉ structural) {route : Route}
    (hpath : route.path ≠ []) : parseTarget (render plain route) = some route := by
  obtain ⟨path, query⟩ := route
  have hsplit : (['/'].intercalate (path.map (encode plain))).splitOn '/' =
      path.map (encode plain) := by
    refine (splitOn_intercalate_iff (List.map_eq_nil_iff.not.mpr hpath)).mpr ?_
    intro field hfield
    obtain ⟨bytes, -, rfl⟩ := List.mem_map.mp hfield
    exact notMem_encode h (by decide) bytes
  have hsegments : (path.map (encode plain)).mapM decode = some path :=
    mapM_map_eq_some (decode_encode plain) path
  have hquestion := notMem_intercalate_encode h (by decide : '?' ∈ structural) (by decide) path
  have hfragment := notMem_intercalate_encode h (by decide : '#' ∈ structural) (by decide) path
  by_cases hquery : query = []
  · subst hquery
    rw [render, if_pos rfl, List.append_nil, parseTarget, if_neg hfragment,
      takeWhile_ne_self hquestion, dropWhile_ne_self hquestion, hsplit, hsegments]
    rfl
  · obtain ⟨hfragment', hparameters⟩ := query_spec h hquery
    rw [render, if_neg hquery, parseTarget, if_neg, takeWhile_ne_append hquestion,
      dropWhile_ne_append hquestion, hsplit, hsegments, List.drop_one, List.tail_cons,
      hparameters]
    · rfl
    · rw [List.mem_append, List.mem_cons]
      rintro (hmem | heq | hmem)
      · exact hfragment hmem
      · exact absurd heq (by decide)
      · exact hfragment' hmem

end

end PercentEncoding
