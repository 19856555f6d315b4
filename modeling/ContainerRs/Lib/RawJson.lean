import ContainerRs.Lib.Json
import ContainerRs.Lib.SortedMap

/-!
# Raw JSON Values

Programs that read JSON through a library see values of its own, on which the library offers
operations that may fail: a member of an object, its entries, the elements of an array, the
content of a string, a number of a machine type. `RawJson ν` is such a library with values
`ν`; an error is the text that it displays.

What the values mean is said by a relation to the values of `Lib.Json`: a library is
`Faithful` to it if it finds in a raw value what is there. Two members of one name, for which
libraries differ, are left open.

## Main results

* `faithful_reader`: the values of `Lib.Json` themselves are a library.
* `Faithful.member`: a member that is there is found.
-/

/-- A library that reads JSON into values `ν`. -/
structure RawJson (ν : Type) where
  parse : Text → Except Text ν
  /-- A member by its name, if there is one; an error if the value is not an object. -/
  toMember : ν → Text → Except Text (Option ν)
  /-- The error for a member that must be there and is not. -/
  missing : ν → Text → Text
  toArray : ν → Except Text (List ν)
  /-- The names and values of the members. -/
  toObject : ν → Except Text (List (ν × ν))
  toText : ν → Except Text Text
  toU16 : ν → Except Text UInt16

namespace RawJson

section

variable {ν : Type} (reader : RawJson ν)

/-- A member that must be there. -/
def required (value : ν) (name : Text) : Except Text ν := do
  match ← reader.toMember value name with
  | some member => .ok member
  | none => .error (reader.missing value name)

/-- A member if the value is an object that has it. -/
def optional (value : ν) (name : Text) : Option ν :=
  match reader.toMember value name with
  | .ok member => member
  | .error _ => none

/-- The string in a member, if the member is there and is a string. -/
def optionalText (value : ν) (name : Text) : Option Text :=
  (reader.optional value name).bind fun member => (reader.toText member).toOption

/-- The 16-bit number in a member. -/
def optionalU16 (value : ν) (name : Text) : Option UInt16 :=
  (reader.optional value name).bind fun member => (reader.toU16 member).toOption

/-- The library finds in a value what it represents. -/
structure Faithful (represents : ν → Json → Prop) : Prop where
  toMember : ∀ {v : ν} {members : List (Text × Json)} {name : Text} {j : Json},
    represents v (.object members) → (members.map Prod.fst).Nodup → (name, j) ∈ members →
      ∃ w, reader.toMember v name = .ok (some w) ∧ represents w j
  toObject : ∀ {v : ν} {members : List (Text × Json)}, represents v (.object members) →
    ∃ entries, reader.toObject v = .ok entries ∧
      List.Forall₂ (fun entry member => reader.toText entry.1 = .ok member.1 ∧
        represents entry.2 member.2) entries members
  toArray : ∀ {v : ν} {items : List Json}, represents v (.array items) →
    ∃ elements, reader.toArray v = .ok elements ∧ List.Forall₂ represents elements items
  toText : ∀ {v : ν} {s : Text}, represents v (.string s) → reader.toText v = .ok s
  toU16 : ∀ {v : ν} {n : UInt16}, represents v (.number n.toNat) → reader.toU16 v = .ok n

end

end RawJson

namespace Json

open RawJson

/-- The value is an object without repeated names in which the member has the value. -/
def HasMember (doc : Json) (name : String) (value : Json) : Prop :=
  ∃ members, doc = .object members ∧ (members.map Prod.fst).Nodup ∧ (name.toList, value) ∈ members

/-- A whole number of 16 bits. -/
def readU16 : Json → Except Text UInt16
  | .number q =>
      if q.den = 1 ∧ 0 ≤ q.num ∧ q.num < 65536 then .ok (UInt16.ofNat q.num.toNat)
      else .error "not a 16-bit number".toList
  | _ => .error "not a number".toList

/-- The values of `Lib.Json` as a library: the first of several members is found. -/
def reader : RawJson Json where
  parse text := (Json.parse text).elim (.error "invalid JSON".toList) .ok
  toMember
    | .object members, name => .ok ((members.find? fun member => member.1 = name).map Prod.snd)
    | _, _ => .error "not an object".toList
  missing _ name := "required member is missing: ".toList ++ name
  toArray
    | .array items => .ok items
    | _ => .error "not an array".toList
  toObject
    | .object members => .ok (members.map fun member => (.string member.1, member.2))
    | _ => .error "not an object".toList
  toText
    | .string s => .ok s
    | _ => .error "not a string".toList
  toU16 := readU16

theorem toU16_reader : reader.toU16 = readU16 := rfl

/-- Text is read as the value that it denotes. -/
theorem parse_reader {text : Text} {value : Json} (h : Denotes text value) :
    reader.parse text = .ok value := by
  rw [show reader.parse text = (Json.parse text).elim (.error "invalid JSON".toList) .ok from rfl,
    h.parse, Option.elim_some]

/-- A member of an object is the first one of that name, if there is one. -/
theorem toMember_reader (members : List (Text × Json)) (name : Text) :
    reader.toMember (.object members) name =
      .ok ((members.find? fun member => member.1 = name).map Prod.snd) := rfl

/-- A number that is in range is read as itself. -/
theorem readU16_number (n : UInt16) : readU16 (.number n.toNat) = .ok n := by
  have hlt : (n.toNat : ℤ) < 65536 := by
    have := n.toNat_lt
    omega
  rw [readU16, if_pos (by simp [hlt])]
  simp

/-- **The values of `Lib.Json` are a library** that is faithful to themselves: what each
accessor returns is the value itself. -/
theorem faithful_reader : reader.Faithful Eq where
  toMember := by
    rintro _ members name j rfl hkeys hmem
    have hfind := (List.find?_fst_eq_some_iff hkeys).mpr ⟨hmem, rfl⟩
    exact ⟨j, by rw [toMember_reader, hfind, Option.map_some], rfl⟩
  toObject := by
    rintro _ members rfl
    refine ⟨_, rfl, ?_⟩
    rw [List.forall₂_map_left_iff, List.forall₂_same]
    intro member _
    exact ⟨rfl, rfl⟩
  toArray := by
    rintro _ items rfl
    exact ⟨items, rfl, List.forall₂_same.mpr fun _ _ => rfl⟩
  toText := by
    rintro _ s rfl
    rfl
  toU16 := by
    rintro _ n rfl
    rw [toU16_reader, readU16_number]

end Json

namespace RawJson.Faithful

variable {ν : Type} {reader : RawJson ν} {represents : ν → Json → Prop}

/-- **A member that is there is found.** -/
theorem member (h : reader.Faithful represents) {v : ν} {doc value : Json} {name : String}
    (hv : represents v doc) (hmember : doc.HasMember name value) :
    ∃ w, reader.optional v name.toList = some w ∧ represents w value := by
  obtain ⟨members, rfl, hkeys, hmem⟩ := hmember
  obtain ⟨w, hw, hvalue⟩ := h.toMember hv hkeys hmem
  exact ⟨w, by rw [optional, hw], hvalue⟩

/-- The string in a member. -/
theorem optionalText (h : reader.Faithful represents) {v : ν} {doc : Json} {name : String}
    {s : Text} (hv : represents v doc) (hmember : doc.HasMember name (.string s)) :
    reader.optionalText v name.toList = some s := by
  obtain ⟨w, hw, hs⟩ := h.member hv hmember
  rw [RawJson.optionalText, hw, Option.bind_some, h.toText hs]
  rfl

/-- The 16-bit number in a member. -/
theorem optionalU16 (h : reader.Faithful represents) {v : ν} {doc : Json} {name : String}
    {n : UInt16} (hv : represents v doc) (hmember : doc.HasMember name (.number n.toNat)) :
    reader.optionalU16 v name.toList = some n := by
  obtain ⟨w, hw, hn⟩ := h.member hv hmember
  rw [RawJson.optionalU16, hw, Option.bind_some, h.toU16 hn]
  rfl

end RawJson.Faithful
