import ContainerRs.CreateContainer
import ContainerRs.Lib.Fields

/-!
# Bind Mounts

A bind mount reaches the daemon as the text "source:target:mode" among `HostConfig.Binds`
(`CreateContainerBody::from_config`, docker_client.rs), which the daemon splits at its colons.
Volumes and tmpfs mounts are sent as JSON objects, and a colon in them means nothing; in the
source or the target of a bind mount, where the names of files may well have one, nothing is
done about it.

## Main results

* `readBind_eq_some_iff`: what the daemon reads, if it reads anything.
* `bindMount_readBack_iff`: a bind mount is read back, and has a text of its own, exactly if
  there is no colon in its source and its target.
-/

namespace ContainerRs

open Json

/-- A bind mount that may be written to. -/
def Mount.bindMount (hostPath containerPath : Text) : Mount where
  accessMode := .readWrite
  mountType := .bind
  source := some hostPath
  target := some containerPath
  tmpfsOptions := none

/-- The mount with another access mode. -/
def Mount.withAccessMode (m : Mount) (accessMode : AccessMode) : Mount := { m with accessMode }

/-- The text of a bind mount with this source and target. -/
def bindString (source target : Text) (mode : AccessMode) : Text :=
  source ++ ':' :: target ++ ':' :: mode.display

/-- The daemon's reading of an access mode. -/
def readMode (mode : Text) : Option AccessMode :=
  if mode = "ro".toList then some .readOnly
  else if mode = "rw".toList then some .readWrite
  else none

/-- The daemon's reading of a bind mount: three fields between colons. -/
def readBind (bind : Text) : Option (Text × Text × AccessMode) :=
  match bind.splitOn ':' with
  | [source, target, mode] => (readMode mode).map fun mode => (source, target, mode)
  | _ => none

/-- Each access mode is read back from the text it is written as. -/
theorem readMode_display (mode : AccessMode) : readMode mode.display = some mode := by
  cases mode <;> rfl

/-- An access mode has no colon in it, so the one in front of it is the last of the
bind. -/
theorem notMem_display (mode : AccessMode) : ':' ∉ mode.display := by
  cases mode <;> decide

/-- The text of a bind mount is its fields with colons between them. -/
theorem bindString_eq (source target : Text) (mode : AccessMode) :
    bindString source target mode = [':'].intercalate [source, target, mode.display] := by
  simp [bindString, List.intercalate, List.append_assoc]

variable {source target : Text} {mode : AccessMode}

/-- The text is split into the fields exactly if there is no colon in them. -/
theorem splitOn_bindString_iff :
    (bindString source target mode).splitOn ':' = [source, target, mode.display] ↔
      ':' ∉ source ∧ ':' ∉ target := by
  rw [bindString_eq, Fields.splitOn_intercalate_iff (List.cons_ne_nil _ _)]
  simp [notMem_display]

/-- Three fields are read only where there is no further colon. The text has two colons of
its own, and three fields have two between them. -/
theorem notMem_of_splitOn_bindString {source' target' mode' : Text}
    (h : (bindString source target mode).splitOn ':' = [source', target', mode']) :
    ':' ∉ source ∧ ':' ∉ target := by
  have hnot : ∀ field ∈ [source', target', mode'], field.count ':' = 0 := by
    intro field hfield
    rw [← h] at hfield
    exact List.count_eq_zero.mpr (Fields.notMem_of_mem_splitOn hfield)
  have htext : bindString source target mode = [':'].intercalate [source', target', mode'] := by
    rw [← h, List.intercalate_splitOn]
  have hcount := congrArg (List.count ':') htext
  simp only [bindString, List.intercalate, List.intersperse_cons_cons, List.intersperse_singleton,
    List.flatten_cons, List.flatten_nil, List.append_nil, List.count_append, List.count_cons_self,
    List.count_nil, hnot source' (by simp), hnot target' (by simp), hnot mode' (by simp)] at hcount
  constructor <;> refine List.count_eq_zero.mp ?_ <;> omega

/-- **What the daemon reads**, if anything, are the source, the target and the mode; and it
reads something exactly if there is no further colon. -/
theorem readBind_eq_some_iff {result : Text × Text × AccessMode} :
    readBind (bindString source target mode) = some result ↔
      (':' ∉ source ∧ ':' ∉ target) ∧ result = (source, target, mode) := by
  constructor
  · intro h
    rw [readBind] at h
    split at h
    · next hsplit =>
        have hcolon := notMem_of_splitOn_bindString hsplit
        rw [splitOn_bindString_iff.mpr hcolon] at hsplit
        cases hsplit
        rw [readMode_display] at h
        exact ⟨hcolon, (Option.some.inj h).symm⟩
    · cases h
  · rintro ⟨hcolon, rfl⟩
    rw [readBind, splitOn_bindString_iff.mpr hcolon]
    simp [readMode_display]

/-- **The text is one's own** exactly if there is no colon in the source and the target: one in
the source may as well begin the target, and one in the target end the source. -/
theorem bindString_unique_iff :
    (∀ source' target' mode', bindString source' target' mode' = bindString source target mode →
        (source', target', mode') = (source, target, mode)) ↔
      ':' ∉ source ∧ ':' ∉ target := by
  constructor
  · intro h
    constructor
    · intro hmem
      obtain ⟨pre, post, rfl⟩ := List.append_of_mem hmem
      have heq := h pre (post ++ ':' :: target) mode (by simp [bindString, List.append_assoc])
      have hlength := congrArg (fun fields => fields.1.length) heq
      simp at hlength
    · intro hmem
      obtain ⟨pre, post, rfl⟩ := List.append_of_mem hmem
      have heq := h (source ++ ':' :: pre) post mode (by simp [bindString, List.append_assoc])
      have hlength := congrArg (fun fields => fields.1.length) heq
      simp at hlength
  · intro hcolon source' target' mode' htext
    have hread : readBind (bindString source target mode) = some (source, target, mode) :=
      readBind_eq_some_iff.mpr ⟨hcolon, rfl⟩
    rw [← htext] at hread
    exact (readBind_eq_some_iff.mp hread).2.symm

/-- **Bind mounts without colons are unambiguous, and no others.** A bind mount of a
configuration for which there is a body is among its binds, whose JSON text denotes them. The
daemon reads the source, the target and the mode from it, and no other bind mount has the same
text, each exactly if there is no colon in the source and the target; and it never reads
anything else. -/
theorem bindMount_readBack_iff (config : ContainerConfig) (body : CreateContainerBody)
    (hbody : CreateContainerBody.fromConfig config = .ok body) (source target : Text)
    (mode : AccessMode)
    (hmount : (Mount.bindMount source target).withAccessMode mode ∈ config.mounts) :
    bindString source target mode ∈ body.hostConfig.binds ∧
    Denotes (jsonArray body.hostConfig.binds) (.array (body.hostConfig.binds.map .string)) ∧
    (readBind (bindString source target mode) = some (source, target, mode) ↔
      ':' ∉ source ∧ ':' ∉ target) ∧
    ((∀ source' target' mode', bindString source' target' mode' = bindString source target mode →
        (source', target', mode') = (source, target, mode)) ↔ ':' ∉ source ∧ ':' ∉ target) ∧
    ∀ result, readBind (bindString source target mode) = some result →
      result = (source, target, mode) := by
  obtain ⟨mounts, -, rfl⟩ := fromConfig_spec hbody
  refine ⟨List.mem_filterMap.mpr ⟨_, hmount, rfl⟩, denotes_jsonArray _, ?_,
    bindString_unique_iff, fun result h => (readBind_eq_some_iff.mp h).2⟩
  rw [readBind_eq_some_iff]
  exact and_iff_left rfl

/-- The bind mount of the sample configuration is read back. Neither path has a colon, so
both sides of the condition hold. -/
theorem bindMount_readBack_iff_sample :
    readBind (bindString "/h".toList "/c".toList .readOnly) =
      some ("/h".toList, "/c".toList, .readOnly) := by
  obtain ⟨body, hbody⟩ := exists_fromConfig_sampleConfig
  obtain ⟨-, -, hread, -⟩ := bindMount_readBack_iff sampleConfig body hbody "/h".toList
    "/c".toList .readOnly (by decide)
  exact hread.mpr (by decide)

/-- The directory "/a:/b" at "/c" and the directory "/a" at "/b:/c" have one text, and the daemon
reads nothing from it. -/
theorem bindMount_collision :
    bindText (Mount.bindMount "/a:/b".toList "/c".toList) =
        bindText (Mount.bindMount "/a".toList "/b:/c".toList) ∧
      bindText (Mount.bindMount "/a:/b".toList "/c".toList) = some "/a:/b:/c:rw".toList ∧
      readBind "/a:/b:/c:rw".toList = none := by
  decide +kernel

end ContainerRs
