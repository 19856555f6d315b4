import ContainerRs.RegistryAuth
import ContainerRs.Lib.ByteOffsets
import ContainerRs.Lib.Checked
import ContainerRs.Lib.Paths

/-!
# The Parts of an Image Reference

To pull an image `split_pull_reference` (docker_client.rs) cuts a reference into the name and
the tag or digest. The digest is what follows the first '@'. A ':' stands in front of a tag
only in the last component of the path, for earlier ones are those of a port, and in a digest.

The code finds the end of the name by its length in bytes, behind the last '/'. Its slices are
those of `Lib.ByteOffsets`, `none` where the program would panic.

## Main results

* `checkedSplitPullReference_eq`: no slice fails, and the parts are those of
  `splitPullReference`.
* `splitPullReference_inverts`: the parts of a reference composed of host, path, tag and digest.
-/

namespace ContainerRs

open ByteOffsets Checked

/-! ### Slices -/

/-- The last component of a reference, with its tag. -/
def checkedNameTag (descriptor : Text) : Option Text :=
  match rfind '/' descriptor with
  | some i => sliceFrom descriptor (i + 1)
  | none => some descriptor

/-- The name and the tag of a reference. -/
def checkedSplitNameAndTag (descriptor : Text) : Option (Text × Text) := do
  let nameTag ← checkedNameTag descriptor
  match splitOnce ':' nameTag with
  | none => some (descriptor, "latest".toList)
  | some (name, tag) => do
      let start ← checkedSub (byteLength descriptor) (byteLength nameTag)
      let fromImage ← ByteOffsets.sliceTo descriptor (start + byteLength name)
      some (fromImage, if tag = [] then "latest".toList else tag)

/-- The image and the tag, or the digest, of a reference. -/
def checkedSplitPullReference (descriptor : Text) : Option (Text × Text) :=
  match splitOnce '@' descriptor with
  | some (left, digest) => do
      let (fromImage, _) ← checkedSplitNameAndTag left
      some (fromImage, if digest = [] then "latest".toList else digest)
  | none => checkedSplitNameAndTag descriptor

/-! ### The last component -/

/-- What stands in front of the last component: nothing, or text that ends in a slash. -/
def IsDirectory (front : Text) : Prop := front = [] ∨ ∃ before, front = before ++ ['/']

/-- The text behind a directory is the last component if it has no slash. A directory is
empty or ends in a slash, and then the last slash is that one. -/
theorem nameTag_append {front last : Text} (hfront : IsDirectory front) (hlast : '/' ∉ last) :
    nameTag (front ++ last) = last ∧ checkedNameTag (front ++ last) = some last := by
  have hreverse : '/' ∉ last.reverse := fun hmem => hlast (List.mem_reverse.mp hmem)
  rcases hfront with rfl | ⟨before, rfl⟩
  · constructor
    · rw [List.nil_append, nameTag, Fields.takeWhile_ne_self hreverse, List.reverse_reverse]
    · rw [List.nil_append, checkedNameTag, rfind_eq_none hlast]
  · constructor
    · rw [nameTag, List.reverse_append, List.reverse_append, List.reverse_singleton,
        List.singleton_append, Fields.takeWhile_ne_append hreverse, List.reverse_reverse]
    · have hslash : byteLength before + 1 = byteLength (before ++ ['/']) := by
        rw [byteLength_append]
        rfl
      rw [checkedNameTag, List.append_assoc, List.singleton_append, rfind_append before hlast]
      dsimp only
      rw [hslash, ← List.singleton_append, ← List.append_assoc]
      exact sliceFrom_append _ _

/-- Every text is a directory and a last component. -/
theorem exists_directory (descriptor : Text) :
    ∃ front last, descriptor = front ++ last ∧ IsDirectory front ∧ '/' ∉ last := by
  by_cases h : '/' ∈ descriptor
  · obtain ⟨last, before, hsplit, hlast⟩ :=
      List.eq_append_cons_of_mem (List.mem_reverse.mpr h)
    refine ⟨before.reverse ++ ['/'], last.reverse, ?_, .inr ⟨_, rfl⟩, ?_⟩
    · rw [← List.reverse_reverse descriptor, hsplit, List.reverse_append, List.reverse_cons]
    · rw [List.mem_reverse]
      exact hlast
  · exact ⟨[], descriptor, rfl, .inl rfl, h⟩

/-! ### Name and tag -/

/-- A last component without a colon has no tag. -/
theorem splitNameAndTag_untagged {front last : Text} (hfront : IsDirectory front)
    (hlast : '/' ∉ last) (hcolon : ':' ∉ last) :
    splitNameAndTag (front ++ last) = (front ++ last, "latest".toList) ∧
      checkedSplitNameAndTag (front ++ last) = some (front ++ last, "latest".toList) := by
  obtain ⟨hname, hchecked⟩ := nameTag_append hfront hlast
  constructor
  · rw [splitNameAndTag, hname, splitOnce_eq_none hcolon]
  · rw [checkedSplitNameAndTag, hchecked]
    simp only [bind, Option.bind, splitOnce_eq_none hcolon]

/-- In the last component the first colon stands in front of the tag. The offset of the
tag is found by subtracting the length of the last component from that of the whole, which
never goes below zero. -/
theorem splitNameAndTag_tagged {front name tag : Text} (hfront : IsDirectory front)
    (hname : '/' ∉ name) (hcolon : ':' ∉ name) (htag : '/' ∉ tag) :
    splitNameAndTag (front ++ name ++ ':' :: tag) =
        (front ++ name, if tag = [] then "latest".toList else tag) ∧
      checkedSplitNameAndTag (front ++ name ++ ':' :: tag) =
        some (front ++ name, if tag = [] then "latest".toList else tag) := by
  have hlast : '/' ∉ name ++ ':' :: tag := by
    simp [hname, htag]
  obtain ⟨hnameTag, hchecked⟩ := nameTag_append hfront hlast
  rw [List.append_assoc]
  constructor
  · have hlength : (front ++ (name ++ ':' :: tag)).length - (name ++ ':' :: tag).length +
        name.length = (front ++ name).length := by
      simp only [List.length_append]
      omega
    rw [splitNameAndTag, hnameTag, splitOnce_append hcolon]
    dsimp only
    rw [hlength, ← List.append_assoc, List.take_left]
  · have hstart : checkedSub (byteLength (front ++ (name ++ ':' :: tag)))
        (byteLength (name ++ ':' :: tag)) = some (byteLength front) := by
      rw [byteLength_append, checkedSub, if_pos (Nat.le_add_left _ _), Nat.add_sub_cancel]
    have hslice : ByteOffsets.sliceTo (front ++ (name ++ ':' :: tag))
        (byteLength front + byteLength name) = some (front ++ name) := by
      rw [← List.append_assoc, ← byteLength_append]
      exact sliceTo_append _ _
    rw [checkedSplitNameAndTag, hchecked]
    simp only [bind, Option.bind, splitOnce_append hcolon, hstart, hslice]

/-- Every text is split by one of the two rules. -/
theorem checkedSplitNameAndTag_eq (descriptor : Text) :
    checkedSplitNameAndTag descriptor = some (splitNameAndTag descriptor) := by
  obtain ⟨front, last, rfl, hfront, hlast⟩ := exists_directory descriptor
  by_cases hcolon : ':' ∈ last
  · obtain ⟨name, tag, rfl, hname⟩ := List.eq_append_cons_of_mem hcolon
    rw [List.mem_append, List.mem_cons, not_or, not_or] at hlast
    obtain ⟨hplain, hchecked⟩ :=
      splitNameAndTag_tagged hfront hlast.1 hname hlast.2.2
    rw [← List.append_assoc, hplain, hchecked]
  · obtain ⟨hplain, hchecked⟩ := splitNameAndTag_untagged hfront hlast hcolon
    rw [hplain, hchecked]

/-- **No slice fails**, and the parts are those that lists of characters have. -/
theorem checkedSplitPullReference_eq (descriptor : Text) :
    checkedSplitPullReference descriptor = some (splitPullReference descriptor) := by
  rw [checkedSplitPullReference, splitPullReference]
  cases splitOnce '@' descriptor with
  | none => exact checkedSplitNameAndTag_eq descriptor
  | some parts =>
      obtain ⟨left, digest⟩ := parts
      simp only [checkedSplitNameAndTag_eq left, bind, Option.bind]

/-- The name is a part of the reference in front. -/
theorem prefix_of_splitNameAndTag {descriptor image tag : Text}
    (h : checkedSplitNameAndTag descriptor = some (image, tag)) : image <+: descriptor := by
  obtain ⟨last, -, h⟩ := Option.bind_eq_some_iff.mp h
  cases hcolon : splitOnce ':' last with
  | none =>
      rw [hcolon] at h
      obtain ⟨rfl, -⟩ := Prod.mk.inj (Option.some.inj h)
      exact List.prefix_rfl
  | some parts =>
      rw [hcolon] at h
      obtain ⟨start, -, h⟩ := Option.bind_eq_some_iff.mp h
      obtain ⟨fromImage, hslice, h⟩ := Option.bind_eq_some_iff.mp h
      obtain ⟨rfl, -⟩ := Prod.mk.inj (Option.some.inj h)
      exact prefix_of_sliceTo hslice

/-- **The image is a part of the reference in front**, whatever the reference. A digest is
cut off first, if there is one. -/
theorem prefix_of_splitPullReference (descriptor : Text) :
    (splitPullReference descriptor).1 <+: descriptor := by
  have hname : ∀ text : Text, (splitNameAndTag text).1 <+: text := fun text =>
    prefix_of_splitNameAndTag (checkedSplitNameAndTag_eq text)
  rw [splitPullReference]
  cases hat : splitOnce '@' descriptor with
  | none => exact hname descriptor
  | some parts =>
      obtain ⟨left, digest⟩ := parts
      dsimp only
      obtain ⟨-, rfl⟩ := splitOnce_eq_some_iff.mp hat
      exact (hname left).trans (List.prefix_append _ _)

/-! ### References -/

/-- The registry of a reference: a host and perhaps a port. -/
structure RegistryPart where
  host : Text
  port : Option Text
  host_free : '/' ∉ host ∧ '@' ∉ host
  port_free : ∀ p ∈ port, '/' ∉ p ∧ '@' ∉ p

/-- A part with the mark in front of it, if there is one. -/
def marked (mark : Char) (part : Option Text) : Text := part.elim [] (mark :: ·)

/-- A part that is absent leaves no mark. -/
@[simp] theorem marked_none (mark : Char) : marked mark none = [] := rfl

/-- A part that is there stands behind its mark. -/
@[simp] theorem marked_some (mark : Char) (part : Text) :
    marked mark (some part) = mark :: part := rfl

/-- The text of a registry, with the slash behind it. -/
def RegistryPart.text (r : RegistryPart) : Text := r.host ++ marked ':' r.port ++ ['/']

/-- The parts of a reference. -/
structure PullReference where
  registry : Option RegistryPart
  components : List Text
  tag : Option Text
  digest : Option Text
  components_ne : components ≠ []
  components_free : ∀ component ∈ components,
    '/' ∉ component ∧ ':' ∉ component ∧ '@' ∉ component
  tag_free : ∀ t ∈ tag, '/' ∉ t ∧ '@' ∉ t

namespace PullReference

/-- The reference without tag and digest. -/
def name (r : PullReference) : Text :=
  r.registry.elim [] RegistryPart.text ++ ['/'].intercalate r.components

/-- The reference. -/
def text (r : PullReference) : Text := r.name ++ marked ':' r.tag ++ marked '@' r.digest

/-- What is pulled: the digest, or the tag, or "latest". -/
def selector (r : PullReference) : Text :=
  match r.digest, r.tag with
  | some digest, _ => if digest = [] then "latest".toList else digest
  | none, some tag => if tag = [] then "latest".toList else tag
  | none, none => "latest".toList

/-- What is in front of the components is a directory without '@'. -/
theorem isDirectory_registry (r : PullReference) :
    IsDirectory (r.registry.elim [] RegistryPart.text) ∧
      '@' ∉ r.registry.elim [] RegistryPart.text := by
  cases r.registry with
  | none => exact ⟨.inl rfl, List.not_mem_nil⟩
  | some registry =>
      refine ⟨.inr ⟨_, rfl⟩, ?_⟩
      have hport : '@' ∉ marked ':' registry.port := by
        cases hp : registry.port with
        | none => exact List.not_mem_nil
        | some port => simp [(registry.port_free port hp).2]
      simp [RegistryPart.text, registry.host_free.2, hport]

/-- The name ends in a component, behind a directory, and has no '@'. The last component
stands alone, behind a registry, or behind the components above it. -/
theorem exists_name (r : PullReference) :
    (∃ front last, r.name = front ++ last ∧ IsDirectory front ∧ '/' ∉ last ∧ ':' ∉ last) ∧
      '@' ∉ r.name := by
  obtain ⟨hdirectory, hat⟩ := r.isDirectory_registry
  constructor
  · obtain ⟨above, last, hsplit⟩ :=
      (List.eq_nil_or_concat' r.components).resolve_left r.components_ne
    obtain ⟨hslash, hcolon, -⟩ := r.components_free last (by rw [hsplit]; simp)
    by_cases habove : above = []
    · refine ⟨_, last, ?_, hdirectory, hslash, hcolon⟩
      rw [name, hsplit, habove, List.nil_append, List.intercalate_singleton]
    · refine ⟨r.registry.elim [] RegistryPart.text ++ (['/'].intercalate above ++ ['/']), last,
        ?_, .inr ⟨r.registry.elim [] RegistryPart.text ++ ['/'].intercalate above, ?_⟩, hslash,
        hcolon⟩
      · rw [name, hsplit, Paths.intercalate_append habove (List.cons_ne_nil _ _),
          List.intercalate_singleton]
        simp
      · rw [List.append_assoc]
  · rw [name, List.mem_append, not_or]
    refine ⟨hat, fun hmem => ?_⟩
    obtain hslash | ⟨component, hcomponent, hmem⟩ := Fields.mem_intercalate hmem
    · exact absurd hslash (by decide)
    · exact (r.components_free component hcomponent).2.2 hmem

/-- The name and the tag of a reference without its digest. -/
theorem checkedSplitNameAndTag_tagged (r : PullReference) :
    checkedSplitNameAndTag (r.name ++ marked ':' r.tag) =
      some (r.name, r.tag.elim "latest".toList fun tag =>
        if tag = [] then "latest".toList else tag) := by
  obtain ⟨⟨front, last, hname, hfront, hslash, hcolon⟩, -⟩ := r.exists_name
  rw [hname]
  cases htag : r.tag with
  | none =>
      rw [marked_none, List.append_nil]
      exact (splitNameAndTag_untagged hfront hslash hcolon).2
  | some tag =>
      exact (splitNameAndTag_tagged hfront hslash hcolon (r.tag_free tag htag).1).2

/-- A reference without its digest has no '@'. -/
theorem at_notMem (r : PullReference) : '@' ∉ r.name ++ marked ':' r.tag := by
  rw [List.mem_append, not_or]
  refine ⟨r.exists_name.2, ?_⟩
  cases htag : r.tag with
  | none => exact List.not_mem_nil
  | some tag => simp [(r.tag_free tag htag).2]

/-- **A composed reference** is split into its name and what is pulled of it. -/
theorem checkedSplitPullReference_text (r : PullReference) :
    checkedSplitPullReference r.text = some (r.name, r.selector) := by
  rw [text, checkedSplitPullReference]
  cases hdigest : r.digest with
  | none =>
      rw [marked_none, List.append_nil, splitOnce_eq_none r.at_notMem]
      dsimp only
      rw [r.checkedSplitNameAndTag_tagged, selector, hdigest]
      cases r.tag <;> rfl
  | some digest =>
      rw [marked_some, splitOnce_append r.at_notMem]
      simp only [bind, Option.bind, r.checkedSplitNameAndTag_tagged, selector, hdigest]

end PullReference

/-- **Splitting inverts composition**: the parts of a composed reference are its name and what
is pulled of it; and for every text no slice fails, and the image is a part of it in front. -/
theorem splitPullReference_inverts :
    (∀ r : PullReference, checkedSplitPullReference r.text = some (r.name, r.selector)) ∧
      ∀ descriptor, ∃ image tag, checkedSplitPullReference descriptor = some (image, tag) ∧
        image <+: descriptor := by
  constructor
  · exact PullReference.checkedSplitPullReference_text
  · intro descriptor
    exact ⟨_, _, checkedSplitPullReference_eq descriptor, prefix_of_splitPullReference descriptor⟩

/-- A registry with a port, a tag and a digest. -/
example : ∃ r : PullReference, r.text = "localhost:5000/nginx:1.25@sha256:ab12cd".toList ∧
    r.name = "localhost:5000/nginx".toList ∧ r.selector = "sha256:ab12cd".toList :=
  ⟨{ registry := some ⟨"localhost".toList, some "5000".toList, by decide, by simp⟩
     components := ["nginx".toList]
     tag := some "1.25".toList
     digest := some "sha256:ab12cd".toList
     components_ne := List.cons_ne_nil _ _
     components_free := by simp
     tag_free := by simp }, by decide, by decide, by decide⟩

end ContainerRs
