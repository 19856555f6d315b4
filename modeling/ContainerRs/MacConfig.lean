import ContainerRs.MacPorts

/-!
# The Configuration of a Container on macOS

The parts of the configuration that a container is created with on macOS (container_cfg.rs,
image_config.rs): the command of the first process, its user and the mounts. Docker puts the
command of a request and that of the image together by itself, and finds users and volumes; here
the client does it.

The day of creation, a floating point number, is left out, and so is the rendering as JSON.

## Main results

* `effectiveCommand_spec`: the first process is started with the words of the entry point and of
  the command.
* `parseUser_spec`: the users that are numbers, the names and the errors.
-/

namespace ContainerRs

open Json

/-! ### The command of an image -/

/-- What an image says of its command (`ImageConfig`, image_config.rs). -/
structure ImageConfig where
  entrypoint : Option (List Text)
  cmd : Option (List Text)
  deriving DecidableEq, Repr

/-- An entry point of one empty word stands for none. -/
def isClearedEntrypoint (entrypoint : List Text) : Bool := entrypoint = [[]]

namespace ImageConfig

/-- The entry point that counts. -/
def effectiveEntrypoint (image : ImageConfig) (override : Option Text) : Option (List Text) :=
  let entrypoint :=
    match override with
    | some [] => none
    | some ep => some [ep]
    | none => image.entrypoint
  match entrypoint with
  | some ep => if isClearedEntrypoint ep then none else some ep
  | none => none

/-- The command that counts. -/
def effectiveCmd (image : ImageConfig) (override : List Text) : Option (List Text) :=
  if override.isEmpty then image.cmd else some override

/-- The program and the arguments of the first process. -/
def effectiveCommand (image : ImageConfig) (entrypointOverride : Option Text)
    (cmdOverride : List Text) : Except Text (Text × List Text) :=
  match image.effectiveEntrypoint entrypointOverride, image.effectiveCmd cmdOverride with
  | some (exe :: ep), some (arg :: cmd) => .ok (exe, ep ++ arg :: cmd)
  | some (exe :: ep), _ => .ok (exe, ep)
  | _, some (exe :: cmd) => .ok (exe, cmd)
  | _, _ => .error ("no command specified: Apple container XPC does not resolve the image's " ++
      "default CMD/ENTRYPOINT and none was provided, use with_cmd() or an Image that provides " ++
      "cmd()").toList

/-- The words of an entry point. -/
def entrypointWords (image : ImageConfig) (override : Option Text) : List Text :=
  match override with
  | some ep => if ep = [] then [] else [ep]
  | none => if image.entrypoint = some [[]] then [] else image.entrypoint.getD []

/-- The words of a command. -/
def cmdWords (image : ImageConfig) (override : List Text) : List Text :=
  if override = [] then image.cmd.getD [] else override

/-- The words of the effective entry point, which has none when there is no entry
point. -/
theorem getD_effectiveEntrypoint (image : ImageConfig) (override : Option Text) :
    (image.effectiveEntrypoint override).getD [] = image.entrypointWords override := by
  rcases override with _ | ep
  · cases hentrypoint : image.entrypoint with
    | none => simp [effectiveEntrypoint, entrypointWords, hentrypoint]
    | some ep =>
        by_cases hcleared : ep = [[]] <;>
          simp [effectiveEntrypoint, entrypointWords, hentrypoint, isClearedEntrypoint, hcleared]
  · cases ep <;> simp [effectiveEntrypoint, entrypointWords, isClearedEntrypoint]

/-- The words of the effective command, which has none when there is no command. -/
theorem getD_effectiveCmd (image : ImageConfig) (override : List Text) :
    (image.effectiveCmd override).getD [] = image.cmdWords override := by
  cases override <;> rfl

/-- **The command of the first process** is made of the words of the entry point and of the
command, whichever of the two are empty; it is an error exactly if there are no words at all. -/
theorem effectiveCommand_spec (image : ImageConfig) (entrypointOverride : Option Text)
    (cmdOverride : List Text) :
    (∀ exe args, image.effectiveCommand entrypointOverride cmdOverride = .ok (exe, args) ↔
      exe :: args = image.entrypointWords entrypointOverride ++ image.cmdWords cmdOverride) ∧
    ((∃ e, image.effectiveCommand entrypointOverride cmdOverride = .error e) ↔
      image.entrypointWords entrypointOverride = [] ∧ image.cmdWords cmdOverride = []) := by
  rw [effectiveCommand, ← getD_effectiveEntrypoint, ← getD_effectiveCmd]
  rcases image.effectiveEntrypoint entrypointOverride with _ | _ | ⟨exe, ep⟩ <;>
    rcases image.effectiveCmd cmdOverride with _ | _ | ⟨arg, cmd⟩ <;>
    simp [eq_comm]

end ImageConfig

/-! ### The user -/

/-- The user of the first process. -/
inductive ProcessUser
  | id (uid gid : UInt32)
  | raw (userString : Text)
  deriving DecidableEq, Repr

/-- A number of 32 bits: digits, perhaps behind a plus sign. -/
def parseU32 (s : Text) : Option UInt32 :=
  let digits := if s.head? = some '+' then s.tail else s
  if digits ≠ [] ∧ digits.all Char.isDigit ∧ Nat.ofDigitChars 10 digits 0 < 4294967296 then
    some (UInt32.ofNat (Nat.ofDigitChars 10 digits 0))
  else none

/-- The user of a request. -/
def parseUser (user : Option Text) : Except Text ProcessUser :=
  match user with
  | none => .ok (.id 0 0)
  | some user =>
      if user = [] then .ok (.id 0 0)
      else
        let uidStr := user.takeWhile fun c => c != ':'
        match parseU32 uidStr with
        | some uid =>
            match user.drop (uidStr.length + 1) with
            | [] => .ok (.id uid 0)
            | gidStr =>
                match parseU32 gidStr with
                | some gid => .ok (.id uid gid)
                | none => .error ("invalid gid in user string: ".toList ++ user)
        | none => .ok (.raw user)

/-- The part of a user in front of the first colon, and the part behind it. The first
colon of the whole is the one at the head of the rest, if there is one. -/
theorem parseUser_parts {uidStr rest : Text} (huid : ':' ∉ uidStr)
    (hrest : rest = [] ∨ rest.head? = some ':') :
    (uidStr ++ rest).takeWhile (fun c => c != ':') = uidStr ∧
      (uidStr ++ rest).drop (uidStr.length + 1) = rest.tail := by
  have htake : rest.takeWhile (fun c => c != ':') = [] := by
    rcases hrest with rfl | hcolon
    · rfl
    · obtain ⟨tail, rfl⟩ := List.head?_eq_some_iff.mp hcolon
      rfl
  have hall : ∀ c ∈ uidStr, (c != ':') = true := by
    intro c hc
    rw [bne_iff_ne]
    rintro rfl
    exact huid hc
  refine ⟨?_, ?_⟩
  · rw [List.takeWhile_append_of_pos hall, htake, List.append_nil]
  · rw [List.drop_append, List.drop_of_length_le (Nat.le_succ _), List.nil_append,
      Nat.add_sub_cancel_left, List.drop_one]

/-- **The user of a request**: a number, or two with a colon between them of which the second may
be left out; a name is passed on as it is; a number with a group that is not one is an error. -/
theorem parseUser_spec (uidStr rest : Text) (huid : ':' ∉ uidStr)
    (hrest : rest = [] ∨ rest.head? = some ':') (huser : uidStr ++ rest ≠ []) :
    (∀ uid gid, parseUser (some (uidStr ++ rest)) = .ok (.id uid gid) ↔
      parseU32 uidStr = some uid ∧ (rest.tail = [] ∧ gid = 0 ∨ parseU32 rest.tail = some gid)) ∧
    (∀ s, parseUser (some (uidStr ++ rest)) = .ok (.raw s) ↔
      parseU32 uidStr = none ∧ s = uidStr ++ rest) ∧
    ((∃ e, parseUser (some (uidStr ++ rest)) = .error e) ↔
      (∃ uid, parseU32 uidStr = some uid) ∧ rest.tail ≠ [] ∧ parseU32 rest.tail = none) := by
  obtain ⟨htake, hdrop⟩ := parseUser_parts huid hrest
  have hempty : parseU32 [] = none := rfl
  rw [parseUser, if_neg huser]
  simp only [htake, hdrop]
  generalize "invalid gid in user string: ".toList ++ (uidStr ++ rest) = msg
  cases parseU32 uidStr with
  | none =>
      have hraw : ∀ s, uidStr ++ rest = s ↔ s = uidStr ++ rest := fun s => eq_comm
      simp [hraw]
  | some uid =>
      cases htail : rest.tail with
      | nil =>
          have hzero : ∀ gid : UInt32, 0 = gid ↔ gid = 0 := fun gid => eq_comm
          simp [hempty, hzero]
      | cons c gidStr =>
          cases hgid : parseU32 (c :: gidStr) <;> simp [hgid]

/-- The users of a container: a number with an empty group, and a name. -/
theorem parseUser_spec_sample :
    parseUser (some "1000:".toList) = .ok (.id 1000 0) ∧
      parseUser (some "app:1000".toList) = .ok (.raw "app:1000".toList) := by
  have hnumber := (parseUser_spec "1000".toList ":".toList (by decide) (by decide) (by decide)).1
  have hname := (parseUser_spec "app".toList ":1000".toList (by decide) (by decide) (by decide)).2.1
  exact ⟨(hnumber 1000 0).mpr (by decide), (hname _).mpr (by decide)⟩

/-! ### Mounts -/

/-- A volume behind its name: the path of its image and the file system in it. -/
structure VolumeResolution where
  source : Text
  format : Text
  deriving DecidableEq, Repr

/-- A mount as the service is told of it. -/
structure MountCfg where
  source : Text
  destination : Text
  fsType : Text
  volumeName : Option Text
  volumeFormat : Option Text
  options : List Text
  deriving DecidableEq, Repr

/-- A signed 64-bit number in octal digits, those of its two's complement if it is negative. -/
def octalText (n : Int) : Text := Nat.toDigits 8 (n % 2 ^ 64).toNat

/-- The options of a mount. -/
def mountOptions (m : Mount) : List Text :=
  let access := if m.accessMode = .readOnly then "ro".toList else "rw".toList
  match m.mountType, m.tmpfsOptions with
  | .tmpfs, some tmpfs =>
      access :: ((tmpfs.sizeBytes.map fun size => "size=".toList ++ integerText size).toList ++
        (tmpfs.mode.map fun mode => "mode=".toList ++ octalText mode).toList)
  | _, _ => [access]

/-- A mount; that of a volume has its image as the source, and none if it is not resolved. -/
def mountCfg (resolutions : SortedMap Text VolumeResolution) (m : Mount) : MountCfg :=
  let destination := m.target.getD []
  let options := mountOptions m
  match m.mountType with
  | .bind =>
      { source := m.source.getD [], destination, fsType := "virtiofs".toList, volumeName := none,
        volumeFormat := none, options }
  | .volume =>
      let name := m.source.getD []
      let resolution := resolutions.get? name
      { source := (resolution.map VolumeResolution.source).getD [], destination,
        fsType := "volume".toList, volumeName := some name,
        volumeFormat := resolution.map VolumeResolution.format, options }
  | .tmpfs =>
      { source := "tmpfs".toList, destination, fsType := "tmpfs".toList, volumeName := none,
        volumeFormat := none, options }

/-! ### The configuration -/

/-- The configuration that a container is created with. -/
structure ContainerCfg where
  id : Text
  hostname : Text
  imageRef : Text
  imageDescriptor : Text
  mounts : List MountCfg
  ports : List PortCfg
  initExe : Text
  initArgs : List Text
  initEnv : List Text
  workingDirectory : Text
  useInit : Bool
  capAdd : List Text
  capDrop : List Text
  shmSize : Option UInt64
  user : ProcessUser
  network : Text
  architecture : Text
  rosetta : Bool
  ssh : Bool
  readOnly : Bool
  labels : SortedMap Text Text
  cpus : ℕ
  terminal : Bool
  maskedPaths : Option (List Text)
  readonlyPaths : Option (List Text)

end ContainerRs
