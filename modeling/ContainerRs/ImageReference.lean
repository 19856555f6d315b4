import ContainerRs.RegistryAuth
import ContainerRs.Lib.RawJson
import Mathlib.Data.List.TakeWhile

/-!
# Fully Qualified Image References

On macOS references are made fully qualified before they are used
(`normalize_image_reference`, xpc_client.rs), and an image is looked up in the list of images
under its reference as written and as qualified (`match_image_descriptor`). Docker's rule is
`canonicalReference`; it goes further than the code where a host is written out.

The registry that a reference belongs to is found a second time for the credentials
(`auths_key`, registry_auth.rs).

The JSON library is a parameter, and so is the text of an error for bytes that are no UTF-8.

## Main results

* `normalizeImageReference_eq_canonical_iff`: which references the code qualifies by Docker's
  rule.
* `findDescriptor_of_mem`: an entry under one of the two references is found.
* `normalizeImageReference_follows_iff`: these references, and no others, are qualified, collapse
  and are found as Docker's rule says.
* `registryHosts_agree`: credentials are looked up for the host of the qualified reference.
-/

namespace ContainerRs

open Utf8

/-! ### Qualifying a reference -/

/-- The fully qualified form of a reference. -/
def normalizeImageReference (image : Text) : Text :=
  match splitOnce '/' image with
  | none => "docker.io/library/".toList ++ image
  | some (first, _) =>
      if '.' ∈ first ∨ ':' ∈ first ∨ first = "localhost".toList then image
      else "docker.io/".toList ++ image

/-- The errors that concern images, among those of a client. -/
inductive ImageClientError
  | imageNotFound (image : Text)
  | json (msg : Text)
  | other (msg : Text)
  deriving DecidableEq, Repr

section Reader

variable {ν : Type} (reader : RawJson ν) (extract : ν → Text) (utf8Error : Bytes → Text)

/-- The first entry under one of two references, as JSON text of its descriptor. -/
def findDescriptor (image dockerRef : Text) : List ν → Except ImageClientError Text
  | [] => .error (.imageNotFound image)
  | item :: items =>
      let refStr := reader.optionalText item "reference".toList
      if refStr = some image ∨ refStr = some dockerRef then
        match reader.required item "descriptor".toList with
        | .ok desc => .ok (extract desc)
        | .error _ => .error (.other ("image ".toList ++ image ++
            ": matched reference but descriptor is missing".toList))
      else findDescriptor image dockerRef items

/-- The descriptor of an image in the list of images. -/
def matchImageDescriptor (data : Bytes) (image : Text) : Except ImageClientError Text :=
  if data = [] then .error (.imageNotFound image)
  else
    match fromUtf8 data with
    | none => .error (.json ("imageDescriptions is not UTF-8: ".toList ++ utf8Error data))
    | some text =>
        match reader.parse text with
        | .error e => .error (.json e)
        | .ok parsed =>
            match reader.toArray parsed with
            | .error e => .error (.json e)
            | .ok items => findDescriptor reader extract image (normalizeImageReference image) items

end Reader

/-! ### Docker's rule -/

/-- The text has a capital letter of ASCII. Docker's rule takes any capital letter for the sign of
a host, but a reference with another one than these is then refused by it. -/
def hasUpper (text : Text) : Bool := text.any Char.isUpper

/-- The domain of a reference as it is written, and what follows it. -/
def splitDockerDomain (image : Text) : Text × Text :=
  match splitOnce '/' image with
  | none => ("docker.io".toList, image)
  | some (first, rest) =>
      if '.' ∉ first ∧ ':' ∉ first ∧ first ≠ "localhost".toList ∧ ¬ hasUpper first then
        ("docker.io".toList, image)
      else (first, rest)

/-- The domain that a domain stands for. -/
def officialDomain (domain : Text) : Text :=
  if domain = "index.docker.io".toList then "docker.io".toList else domain

/-- A domain and what follows it, with the namespace of official images where it is left out. -/
def qualified (domain remainder : Text) : Text :=
  domain ++ '/' ::
    (if domain = "docker.io".toList ∧ '/' ∉ remainder then "library/".toList ++ remainder
    else remainder)

/-- The reference as Docker understands it. -/
def canonicalReference (image : Text) : Text :=
  qualified (officialDomain (splitDockerDomain image).1) (splitDockerDomain image).2

/-- The part in front of the first slash is no host that stands for another one, leaves out the
namespace of official images or is known as a host by a capital letter only. -/
def HostSettled (image : Text) : Prop :=
  ∀ parts ∈ splitOnce '/' image,
    parts.1 ≠ "index.docker.io".toList ∧ ¬ (parts.1 = "docker.io".toList ∧ '/' ∉ parts.2) ∧
      ¬ ('.' ∉ parts.1 ∧ ':' ∉ parts.1 ∧ hasUpper parts.1)

/-! ### When the code follows the rule -/

/-- The part of a text in front of its first slash. -/
theorem splitOnce_slash (image : Text) :
    splitOnce '/' image = none ∧ '/' ∉ image ∨
      ∃ first rest, splitOnce '/' image = some (first, rest) ∧ '/' ∉ first ∧
        image = first ++ '/' :: rest := by
  cases h : splitOnce '/' image with
  | none =>
      refine .inl ⟨rfl, fun hmem => ?_⟩
      rw [splitOnce, if_pos hmem] at h
      exact absurd h (by simp)
  | some parts => exact .inr ⟨parts.1, parts.2, rfl, splitOnce_eq_some_iff.mp h⟩

/-- A domain that is not the old name of the index stands for itself. -/
theorem officialDomain_of_ne {domain : Text} (h : domain ≠ "index.docker.io".toList) :
    officialDomain domain = domain :=
  if_neg h

/-- A remainder with a slash has its namespace already. -/
theorem qualified_of_slash (domain : Text) {remainder : Text} (h : '/' ∈ remainder) :
    qualified domain remainder = domain ++ '/' :: remainder := by
  rw [qualified, if_neg fun hboth => hboth.2 h]

/-- Only the images of docker.io have a namespace that may be left out. -/
theorem qualified_of_ne {domain : Text} (h : domain ≠ "docker.io".toList) (remainder : Text) :
    qualified domain remainder = domain ++ '/' :: remainder := by
  rw [qualified, if_neg fun hboth => h hboth.1]

/-- A reference without a slash is an official image in the code and in the rule. -/
theorem canonicalReference_of_none {image : Text} (h : splitOnce '/' image = none)
    (hslash : '/' ∉ image) : canonicalReference image = "docker.io/library/".toList ++ image := by
  have hindex : officialDomain "docker.io".toList = "docker.io".toList := by decide
  rw [canonicalReference, splitDockerDomain, h]
  dsimp only
  rw [hindex, qualified, if_pos ⟨rfl, hslash⟩]
  rfl

section

variable {image first rest : Text}

/-- Without a dot, a colon or a capital letter the part in front of the slash is no host. -/
theorem canonicalReference_of_user (h : splitOnce '/' image = some (first, rest))
    (hslash : '/' ∈ image) (hdot : '.' ∉ first) (hcolon : ':' ∉ first)
    (hlocal : first ≠ "localhost".toList) (hupper : ¬ hasUpper first) :
    canonicalReference image = "docker.io/".toList ++ image := by
  have hindex : officialDomain "docker.io".toList = "docker.io".toList := by decide
  rw [canonicalReference, splitDockerDomain, h]
  dsimp only
  rw [if_pos ⟨hdot, hcolon, hlocal, hupper⟩, hindex, qualified_of_slash _ hslash]
  rfl

/-- Otherwise it is the domain. -/
theorem canonicalReference_of_host (h : splitOnce '/' image = some (first, rest))
    (hhost : ¬ ('.' ∉ first ∧ ':' ∉ first ∧ first ≠ "localhost".toList ∧ ¬ hasUpper first)) :
    canonicalReference image = qualified (officialDomain first) rest := by
  rw [canonicalReference, splitDockerDomain, h]
  dsimp only
  rw [if_neg hhost]

/-- An image whose first part has a dot, a colon or is `localhost` stays as it is. -/
theorem normalizeImageReference_of_host (h : splitOnce '/' image = some (first, rest))
    (hhost : '.' ∈ first ∨ ':' ∈ first ∨ first = "localhost".toList) :
    normalizeImageReference image = image := by
  rw [normalizeImageReference, h]
  exact if_pos hhost

/-- An image with a slash whose first part is no such host is put behind docker.io. -/
theorem normalizeImageReference_of_user (h : splitOnce '/' image = some (first, rest))
    (hhost : ¬ ('.' ∈ first ∨ ':' ∈ first ∨ first = "localhost".toList)) :
    normalizeImageReference image = "docker.io/".toList ++ image := by
  rw [normalizeImageReference, h]
  exact if_neg hhost

/-- The two domains of the registry of official images have a dot. -/
theorem dot_mem_of_official (h : first = "docker.io".toList ∨ first = "index.docker.io".toList) :
    '.' ∈ first := by
  rcases h with rfl | rfl <;> decide

/-- **What the condition says of an image with a slash**: its first part is not the old
name of the index, not docker.io in front of an official image, and no host by its
capitals alone. -/
theorem hostSettled_iff (h : splitOnce '/' image = some (first, rest)) :
    HostSettled image ↔
      first ≠ "index.docker.io".toList ∧ ¬ (first = "docker.io".toList ∧ '/' ∉ rest) ∧
        ¬ ('.' ∉ first ∧ ':' ∉ first ∧ hasUpper first) := by
  constructor
  · intro hsettled
    exact hsettled (first, rest) h
  · intro hsettled parts hparts
    obtain rfl := Option.some.inj (h.symm.trans hparts)
    exact hsettled

/-- A host that the code sees is right as it is, unless the rule puts another one in its place, as
it does for `index.docker.io`, or adds the namespace of official images. -/
theorem normalizeImageReference_eq_canonical_of_host
    (h : splitOnce '/' image = some (first, rest)) (himage : image = first ++ '/' :: rest)
    (hhost : '.' ∈ first ∨ ':' ∈ first ∨ first = "localhost".toList) :
    normalizeImageReference image = canonicalReference image ↔ HostSettled image := by
  rw [hostSettled_iff h, normalizeImageReference_of_host h hhost, canonicalReference_of_host h
    (fun hnot => hhost.elim hnot.1 fun h => h.elim hnot.2.1 hnot.2.2.1)]
  by_cases hindex : first = "index.docker.io".toList
  · refine iff_of_false ?_ fun h => h.1 hindex
    intro h
    have hofficial : officialDomain first = "docker.io".toList := if_pos hindex
    have hhead := congrArg List.head? h
    rw [hofficial, qualified, himage, hindex, List.head?_append_of_ne_nil _ (by decide),
      List.head?_append_of_ne_nil _ (by decide)] at hhead
    exact absurd hhead (by decide)
  rw [officialDomain_of_ne hindex]
  by_cases hdocker : first = "docker.io".toList ∧ '/' ∉ rest
  · refine iff_of_false ?_ fun h => h.2.1 hdocker
    rw [qualified, if_pos hdocker, himage]
    intro h
    have hrest := (List.cons.inj (List.append_cancel_left h)).2
    exact absurd (List.self_eq_append_left.mp hrest) (by decide)
  · refine iff_of_true ?_ ⟨hindex, hdocker, ?_⟩
    · rw [qualified, if_neg hdocker, himage]
    · rintro ⟨hdot, hcolon, hupper⟩
      have hlocal : first = "localhost".toList :=
        (hhost.resolve_left hdot).resolve_left hcolon
      rw [hlocal] at hupper
      exact absurd hupper (by decide)

/-- A part that is no host to the code is one to the rule only by a capital letter. With
such a letter the rule takes it for a host and leaves it, where the code puts docker.io in
front of it; without one both do the same. -/
theorem normalizeImageReference_eq_canonical_of_user
    (h : splitOnce '/' image = some (first, rest)) (himage : image = first ++ '/' :: rest)
    (hhost : ¬ ('.' ∈ first ∨ ':' ∈ first ∨ first = "localhost".toList)) :
    normalizeImageReference image = canonicalReference image ↔ HostSettled image := by
  rw [hostSettled_iff h, normalizeImageReference_of_user h hhost]
  rw [not_or, not_or] at hhost
  obtain ⟨hdot, hcolon, hlocal⟩ := hhost
  have hofficial : first ≠ "docker.io".toList ∧ first ≠ "index.docker.io".toList :=
    not_or.mp fun h => hdot (dot_mem_of_official h)
  by_cases hupper : hasUpper first
  · refine iff_of_false ?_ fun h => h.2.2 ⟨hdot, hcolon, hupper⟩
    rw [canonicalReference_of_host h fun hnot => hnot.2.2.2 hupper,
      officialDomain_of_ne hofficial.2, qualified_of_ne hofficial.1, ← himage]
    intro h
    exact absurd (List.append_left_eq_self.mp h) (by decide)
  · refine iff_of_true ?_ ⟨hofficial.2, fun h => hofficial.1 h.1, fun h => hupper h.2.2⟩
    have hslash : '/' ∈ image := by
      rw [himage]
      exact List.mem_append_right _ List.mem_cons_self
    rw [canonicalReference_of_user h hslash hdot hcolon hlocal hupper]

end

/-- **Which references the code qualifies by the rule**: those in which a host that is written
out needs no further change. -/
theorem normalizeImageReference_eq_canonical_iff (image : Text) :
    normalizeImageReference image = canonicalReference image ↔ HostSettled image := by
  rcases splitOnce_slash image with ⟨hnone, hslash⟩ | ⟨first, rest, hsome, -, himage⟩
  · refine iff_of_true ?_ ?_
    · rw [normalizeImageReference, hnone, canonicalReference_of_none hnone hslash]
    · intro parts h
      rw [hnone] at h
      exact absurd h (by simp)
  by_cases hhost : '.' ∈ first ∨ ':' ∈ first ∨ first = "localhost".toList
  · exact normalizeImageReference_eq_canonical_of_host hsome himage hhost
  · exact normalizeImageReference_eq_canonical_of_user hsome himage hhost

/-! ### Looking up an image -/

section Reader

variable {ν : Type} (reader : RawJson ν) (extract : ν → Text) (utf8Error : Bytes → Text)

/-- The bytes show a list of images. -/
def ShowsImages (data : Bytes) (items : List ν) : Prop :=
  ∃ text parsed, data ≠ [] ∧ fromUtf8 data = some text ∧ reader.parse text = .ok parsed ∧
    reader.toArray parsed = .ok items

/-- In every list of images that has an entry under the reference, the image is found by the
spelling: the answer is the descriptor of an entry under the reference or under the spelling
itself, if every such entry has one. -/
def FindsImage (image reference : Text) : Prop :=
  ∀ data items, ShowsImages reader data items →
    (∃ item ∈ items, reader.optionalText item "reference".toList = some reference) →
    (∀ item ∈ items, ∀ r, reader.optionalText item "reference".toList = some r →
      r = image ∨ r = reference → ∃ desc, reader.required item "descriptor".toList = .ok desc) →
    ∃ item ∈ items, ∃ r desc, reader.optionalText item "reference".toList = some r ∧
      (r = image ∨ r = reference) ∧ reader.required item "descriptor".toList = .ok desc ∧
      matchImageDescriptor reader extract utf8Error data image = .ok (extract desc)

/-- **An entry under one of the two references is found.** By induction on the entries:
the first that matches has a descriptor, and those before it are passed over. -/
theorem findDescriptor_of_mem {image dockerRef : Text} {items : List ν}
    (hmem : ∃ item ∈ items, reader.optionalText item "reference".toList = some dockerRef)
    (hdesc : ∀ item ∈ items, ∀ r, reader.optionalText item "reference".toList = some r →
      r = image ∨ r = dockerRef →
        ∃ desc, reader.required item "descriptor".toList = .ok desc) :
    ∃ item ∈ items, ∃ r desc, reader.optionalText item "reference".toList = some r ∧
      (r = image ∨ r = dockerRef) ∧ reader.required item "descriptor".toList = .ok desc ∧
      findDescriptor reader extract image dockerRef items = .ok (extract desc) := by
  induction items with
  | nil =>
      obtain ⟨item, hitem, -⟩ := hmem
      exact absurd hitem List.not_mem_nil
  | cons first items ih =>
      by_cases hmatch : reader.optionalText first "reference".toList = some image ∨
          reader.optionalText first "reference".toList = some dockerRef
      · obtain ⟨r, hr, hcase⟩ : ∃ r, reader.optionalText first "reference".toList = some r ∧
            (r = image ∨ r = dockerRef) :=
          hmatch.elim (fun h => ⟨image, h, .inl rfl⟩) fun h => ⟨dockerRef, h, .inr rfl⟩
        obtain ⟨desc, hfirst⟩ := hdesc first List.mem_cons_self r hr hcase
        refine ⟨first, List.mem_cons_self, r, desc, hr, hcase, hfirst, ?_⟩
        rw [findDescriptor, if_pos hmatch, hfirst]
      · have hrest : ∃ item ∈ items,
            reader.optionalText item "reference".toList = some dockerRef := by
          obtain ⟨item, hitem, href⟩ := hmem
          rcases List.mem_cons.mp hitem with rfl | hitem
          · exact absurd (.inr href) hmatch
          · exact ⟨item, hitem, href⟩
        obtain ⟨item, hitem, r, desc, hr, hcase, hreq, hfind⟩ :=
          ih hrest fun item hitem => hdesc item (List.mem_cons_of_mem _ hitem)
        refine ⟨item, List.mem_cons_of_mem _ hitem, r, desc, hr, hcase, hreq, ?_⟩
        rw [findDescriptor, if_neg hmatch, hfind]

/-- An image is found under the fully qualified form of its reference. -/
theorem findsImage_normalized (image : Text) :
    FindsImage reader extract utf8Error image (normalizeImageReference image) := by
  rintro data items ⟨text, parsed, hdata, htext, hparse, harray⟩ hmem hdesc
  obtain ⟨item, hitem, r, desc, hr, hcase, hreq, hfind⟩ :=
    findDescriptor_of_mem reader extract hmem hdesc
  refine ⟨item, hitem, r, desc, hr, hcase, hreq, ?_⟩
  simp only [matchImageDescriptor, if_neg hdata, htext, hparse, harray, hfind]

/-- **Docker's rule is followed exactly for the references with a settled host**: such a
reference becomes the canonical one, as do all of them that Docker treats as the same image,
and the image is found in the list of images under its canonical reference. -/
theorem normalizeImageReference_follows_iff (image : Text) :
    (normalizeImageReference image = canonicalReference image ∧
      (∀ other, HostSettled other → canonicalReference other = canonicalReference image →
        normalizeImageReference other = normalizeImageReference image) ∧
      FindsImage reader extract utf8Error image (canonicalReference image)) ↔
      HostSettled image := by
  rw [← normalizeImageReference_eq_canonical_iff]
  constructor
  · intro h
    exact h.1
  · intro h
    refine ⟨h, ?_, ?_⟩
    · intro other hother hsame
      rw [(normalizeImageReference_eq_canonical_iff other).mpr hother, hsame, h]
    · rw [← h]
      exact findsImage_normalized reader extract utf8Error image

end Reader

/-- The reference "docker.io/nginx" is left as it is. -/
theorem normalizeImageReference_explicit_hub :
    canonicalReference "docker.io/nginx".toList = canonicalReference "nginx".toList ∧
      normalizeImageReference "docker.io/nginx".toList ≠
        normalizeImageReference "nginx".toList ∧
      normalizeImageReference "docker.io/nginx".toList ≠
        canonicalReference "docker.io/nginx".toList := by
  decide

/-! ### Credentials -/

/-- The part of a reference in front of its first slash. -/
def hostPart (image : Text) : Text := image.takeWhile (· ≠ '/')

/-- The host part ends at the first slash. -/
theorem hostPart_append {first : Text} (h : '/' ∉ first) (rest : Text) :
    hostPart (first ++ '/' :: rest) = first :=
  Fields.takeWhile_ne_append h rest

/-- A text with a host in front, as the code recognises one. -/
def HasHost (image : Text) : Prop :=
  ∃ first rest, image = first ++ '/' :: rest ∧ '/' ∉ first ∧
    ('.' ∈ first ∨ ':' ∈ first ∨ first = "localhost".toList)

/-- An image that has a host stays as it is. -/
theorem normalizeImageReference_of_hasHost {image : Text} (h : HasHost image) :
    normalizeImageReference image = image := by
  obtain ⟨first, rest, himage, hfirst, hhost⟩ := h
  exact normalizeImageReference_of_host (splitOnce_eq_some_iff.mpr ⟨hfirst, himage⟩) hhost

/-- The key of a reference with a host is that host, or that of Docker Hub. -/
theorem authsKey_of_hasHost {image : Text} (h : HasHost image) :
    authsKey image =
      if hostPart image = "docker.io".toList ∨ hostPart image = "index.docker.io".toList then
        dockerHubAuthKey
      else hostPart image := by
  obtain ⟨first, rest, rfl, hfirst, hhost⟩ := h
  have hpart := hostPart_append hfirst rest
  have hslash : '/' ∈ first ++ '/' :: rest := List.mem_append_right _ List.mem_cons_self
  rw [authsKey, show (first ++ '/' :: rest).takeWhile (· ≠ '/') = first from hpart,
    if_pos ⟨hslash, hhost⟩, hpart]

/-- Where the two rules part: a reference has a host, or it is one of Docker Hub for both.
The part in front of the first slash decides, if there is a slash. -/
theorem hasHost_or_hub (image : Text) :
    HasHost image ∨ authsKey image = dockerHubAuthKey ∧
      ∃ rest, normalizeImageReference image = "docker.io".toList ++ '/' :: rest := by
  rcases splitOnce_slash image with ⟨hnone, hslash⟩ | ⟨first, rest, hsome, hfirst, himage⟩
  · refine .inr ⟨?_, "library/".toList ++ image, ?_⟩
    · rw [authsKey, if_neg fun h => hslash h.1]
    · rw [normalizeImageReference, hnone]
      rfl
  · by_cases hhost : '.' ∈ first ∨ ':' ∈ first ∨ first = "localhost".toList
    · exact .inl ⟨first, rest, himage, hfirst, hhost⟩
    · refine .inr ⟨?_, image, normalizeImageReference_of_user hsome hhost⟩
      have hpart : image.takeWhile (· ≠ '/') = first := by
        rw [himage]
        exact hostPart_append hfirst rest
      rw [authsKey, hpart, if_neg fun h => hhost h.2]

/-- A reference of Docker Hub has a host. -/
theorem hasHost_hub (rest : Text) : HasHost ("docker.io".toList ++ '/' :: rest) :=
  ⟨_, rest, rfl, by decide, .inl (by decide)⟩

/-- There is no slash in the host part. -/
theorem slash_notMem_hostPart (image : Text) : '/' ∉ hostPart image := by
  intro hmem
  rw [hostPart] at hmem
  have hsatisfies := List.mem_takeWhile_imp hmem
  simp at hsatisfies

/-- The key of Docker Hub is no host. -/
theorem hostPart_ne_hubKey (image : Text) : hostPart image ≠ dockerHubAuthKey := by
  intro h
  have hslash : '/' ∉ dockerHubAuthKey := h ▸ slash_notMem_hostPart image
  exact absurd hslash (by decide)

/-- **The two rules for a registry's host agree**: the key is that of Docker Hub if the host of
the qualified reference is one of its two, and that host otherwise; and a qualified reference
is left as it is and has the same key. -/
theorem registryHosts_agree (image : Text) :
    (authsKey image = dockerHubAuthKey ↔
        hostPart (normalizeImageReference image) = "docker.io".toList ∨
          hostPart (normalizeImageReference image) = "index.docker.io".toList) ∧
      (¬ (hostPart (normalizeImageReference image) = "docker.io".toList ∨
          hostPart (normalizeImageReference image) = "index.docker.io".toList) →
        authsKey image = hostPart (normalizeImageReference image)) ∧
      normalizeImageReference (normalizeImageReference image) = normalizeImageReference image ∧
      authsKey (normalizeImageReference image) = authsKey image := by
  rcases hasHost_or_hub image with hhost | ⟨hkey, rest, hnormal⟩
  · have hkey := authsKey_of_hasHost hhost
    rw [normalizeImageReference_of_hasHost hhost, hkey]
    refine ⟨?_, fun hnot => if_neg hnot, normalizeImageReference_of_hasHost hhost, rfl⟩
    constructor
    · intro h
      by_contra hnot
      rw [if_neg hnot] at h
      exact hostPart_ne_hubKey image h
    · intro h
      exact if_pos h
  · have hhost := hasHost_hub rest
    have hpart : hostPart ("docker.io".toList ++ '/' :: rest) = "docker.io".toList :=
      hostPart_append (by decide) rest
    have hhub : authsKey ("docker.io".toList ++ '/' :: rest) = dockerHubAuthKey := by
      rw [authsKey_of_hasHost hhost, hpart]
      exact if_pos (.inl rfl)
    rw [hnormal, hpart, hkey, hhub]
    exact ⟨iff_of_true rfl (.inl rfl), fun hnot => absurd (.inl rfl) hnot,
      normalizeImageReference_of_hasHost hhost, rfl⟩

end ContainerRs
