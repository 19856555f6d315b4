import ContainerRs.DockerTar
import ContainerRs.HostTree
import ContainerRs.Lib.Outcomes
import ContainerRs.Lib.Utf8
import Mathlib.Data.List.Sort
import Mathlib.Data.List.Infix

/-!
# Copying to a Container

Before a container starts on Linux, every copy source becomes one ustar archive that is
uploaded to be unpacked at the root of the container (`copy_to_sources_linux`,
async_runner.rs). The archive holds the directories above the target, then the source: data
in memory, a regular file, or a directory of the host with everything below it, which a loop
over a stack of directories collects.

The loop is judged by `Walk`, and the uploads by `ExactUpload`.

## Main results

* `components_of_checkTargetPath`: an accepted target is a rooted path of proper components.
* `walk_refines`: a successful loop makes the append calls of a `Walk`.
* `walk_total`: the loop ends within as many rounds as there are directories.
* `copyToSourcesLinux_exact`: every upload is exact, and nothing irregular is uploaded.
-/

namespace ContainerRs

open Outcomes Paths Slices Ustar Utf8

/-! ### Sources, targets and the host -/

/-- Where and how a source is to be copied. -/
structure CopyTargetOptions where
  path : Bytes
  mode : UInt32
  uid : UInt32
  gid : UInt32
  deriving DecidableEq, Repr

/-- Only the path is given. -/
def CopyTargetOptions.new (path : Bytes) : CopyTargetOptions :=
  { path, mode := 0o644, uid := 0, gid := 0 }

/-- What is to be copied: a path of the host, or data in memory. -/
inductive CopyDataSource
  | file (path : Bytes)
  | data (data : Bytes)
  deriving DecidableEq, Repr

/-- A source with its target. -/
structure CopyToContainer where
  source : CopyDataSource
  target : CopyTargetOptions
  deriving DecidableEq, Repr

/-- The file system of the host. -/
structure Host where
  lookup : Bytes → HostNode
  wellFormed : ∀ path, (lookup path).WellFormed

/-- Why copying the sources fails. -/
inductive CopyToError
  | copy (e : CopyToContainerError)
  /-- An I/O error at a path of the host. -/
  | hostIo (path : Bytes) (msg : String)
  /-- A path error whose message ends in a path of the host. -/
  | hostPath (msg : String) (path : Bytes)
  /-- The upload failed. -/
  | client (msg : String)
  deriving DecidableEq, Repr

/-- A path that is not acceptable. -/
def nameErr (msg : String) : CopyToError := .copy (.pathNameError msg)

/-- A file of the host that is too large. -/
def sizeLimitErr (path : Bytes) : CopyToError :=
  .copy (.sizeLimitExceeded dockerResponseBodyLimit path)

/-- Check the length in the metadata of a file before it is read. -/
def checkFileSizeLimit (path : Bytes) (size : ℕ) : Except CopyToError Unit :=
  if size > dockerResponseBodyLimit then .error (sizeLimitErr path) else .ok ()

/-- Read a file; it may have grown since its metadata was read. -/
def readFileLimited (path : Bytes) : Except String Bytes → Except CopyToError Bytes
  | .error msg => .error (.hostIo path msg)
  | .ok data =>
      if data.length > dockerResponseBodyLimit then .error (sizeLimitErr path) else .ok data

/-! ### Paths -/

/-- Components as text. -/
def joinComponents (path : List Bytes) : Bytes := [slash].intercalate path

/-- A path of the host with a further component. -/
def pushPath (path name : Bytes) : Bytes := Paths.push slash path name

/-- The components of an absolute path as the standard library sees them: empty ones and
single dots are left out. -/
def pathComponents (path : Bytes) : List Bytes :=
  (path.splitOn slash).filter fun c => decide (c ≠ [] ∧ c ≠ [dot])

/-- The last component of a path, unless it names the parent. -/
def fileName (path : Bytes) : Option Bytes :=
  (pathComponents path).getLast?.filter fun c => decide (c ≠ [dot, dot])

/-- The checks of a target path, in order. -/
def checkTargetPath (path : Bytes) : Except CopyToError Unit :=
  if path.head? ≠ some slash then
    .error (nameErr "copy_to target path must be absolute")
  else if path.getLast? = some slash then
    .error (nameErr "copy_to target path must not end with a slash")
  else if [slash, dot] <:+ path then
    .error (nameErr "copy_to target path must not end with a '.'")
  else if [slash, slash] <:+: path then
    .error (nameErr "copy_to target path must not contain '//'")
  else if fileName path = none then
    .error (nameErr "copy_to target path must have a file name")
  else if [dot, dot] ∈ pathComponents path then
    .error (nameErr "copy_to target path must not contain '..'")
  else .ok ()

/-- A path without its leading slashes. -/
def makePathRelative (path : Bytes) : Except CopyToError Bytes :=
  let relative := path.dropWhile fun b => decide (b = slash)
  if relative = [] then .error (nameErr "copy_to target path must not be root only")
  else .ok relative

/-! ### Appending the source -/

/-- Append a directory of the copy. -/
def appendDirectory (builder : UstarBuilder) (path : Bytes) (uid gid : UInt32) :
    Except CopyToError UstarBuilder :=
  (builder.appendDirectory path 0o755 uid gid).mapError .copy

/-- Append a file of the copy. -/
def appendFile (builder : UstarBuilder) (path data : Bytes) (mode uid gid : UInt32) :
    Except CopyToError UstarBuilder :=
  (builder.appendFile path data mode uid gid).mapError .copy

/-- Append a directory for each of the remaining parts; `acc` is the path of the previous
one. -/
def appendAncestors (uid gid : UInt32) :
    List Bytes → Bytes → UstarBuilder → Except CopyToError UstarBuilder
  | [], _, builder => .ok builder
  | part :: parts, acc, builder =>
      if part = [] then appendAncestors uid gid parts acc builder
      else do
        let acc := (if acc = [] then acc else acc ++ [slash]) ++ part
        let builder ← appendDirectory builder (acc ++ [slash]) uid gid
        appendAncestors uid gid parts acc builder

/-- Append the directories above a relative path. -/
def appendAncestorDirectories (builder : UstarBuilder) (relative : Bytes) (uid gid : UInt32) :
    Except CopyToError UstarBuilder :=
  let parts := relative.splitOn slash
  appendAncestors uid gid (parts.take (parts.length - 1)) [] builder

section Walk

variable (hostRoot tarRoot : Bytes) (mode uid gid : UInt32)

/-- The path on the host of what lies below the root of the walk. -/
def hostPathOf (rel : List Bytes) : Bytes := rel.foldl pushPath hostRoot

/-- The path in the archive of what lies below the root of the walk. -/
def tarPathOf (rel : List Bytes) : Except CopyToError Bytes :=
  let relStr := joinComponents rel
  if (fromUtf8 relStr).isNone then
    .error (nameErr "copy_to source path under directory is not valid UTF-8")
  else if relStr = [] then .ok tarRoot
  else .ok (tarRoot ++ slash :: relStr)

/-- Visit a child of the directory at `dir`: append it, and push it if it is a directory. -/
def visitEntry (dir : List Bytes) (state : UstarBuilder × List Pending)
    (entry : Bytes × HostNode) : Except CopyToError (UstarBuilder × List Pending) :=
  let rel := dir ++ [entry.1]
  let path := hostPathOf hostRoot rel
  match entry.2 with
  | .inaccessible msg => .error (.hostIo path msg)
  | .symlink => do
      let _ ← tarPathOf tarRoot rel
      .error (.hostPath "copy_to source contains a symlink: " path)
  | .special => do
      let _ ← tarPathOf tarRoot rel
      .error (nameErr "copy_to source contains a non-regular file")
  | .file len content => do
      let tarPath ← tarPathOf tarRoot rel
      checkFileSizeLimit path len
      let data ← readFileLimited path content
      let builder ← appendFile state.1 tarPath data mode uid gid
      .ok (builder, state.2)
  | node => do
      let tarPath ← tarPathOf tarRoot rel
      let builder ← appendDirectory state.1 (tarPath ++ [slash]) uid gid
      .ok (builder, ⟨rel, node⟩ :: state.2)

/-- List a directory. -/
def readDir (path : Bytes) : HostNode → Except CopyToError (List (Bytes × HostNode))
  | .directory children => .ok children
  | .lockedDirectory msg => .error (.hostIo path msg)
  | _ => .error (.hostIo path "Not a directory")

/-- Children by name, the last one first: what is pushed last is listed first. -/
def visitOrder (children : List (Bytes × HostNode)) : List (Bytes × HostNode) :=
  (children.insertionSort fun a b => a.1 ≤ b.1).reverse

/-- The loop over the stack of directories, with the rounds that it may take; `none` if these
do not suffice. -/
def walk : ℕ → List Pending → UstarBuilder → Option (Except CopyToError UstarBuilder)
  | _, [], builder => some (.ok builder)
  | 0, _ :: _, _ => none
  | rounds + 1, dir :: stack, builder =>
      match readDir (hostPathOf hostRoot dir.path) dir.node with
      | .error e => some (.error e)
      | .ok children =>
          match (visitOrder children).foldlM
              (visitEntry hostRoot tarRoot mode uid gid dir.path) (builder, stack) with
          | .error e => some (.error e)
          | .ok (builder, stack) => walk rounds stack builder

/-- Append everything below a directory of the host. -/
def appendHostDirectory (builder : UstarBuilder) (node : HostNode) :
    Option (Except CopyToError UstarBuilder) :=
  walk hostRoot tarRoot mode uid gid node.directories [⟨[], node⟩] builder

end Walk

/-- Append a directory of the host below its target; an empty one is appended as well. -/
def appendDirectorySource (path relative : Bytes) (target : CopyTargetOptions)
    (node : HostNode) : Option (Except CopyToError UstarBuilder) :=
  let root := do
    let builder ← appendAncestorDirectories .new relative target.uid target.gid
    appendDirectory builder (relative ++ [slash]) target.uid target.gid
  match root with
  | .error e => some (.error e)
  | .ok builder =>
      appendHostDirectory path relative target.mode target.uid target.gid builder node

/-- Append a source below its target. -/
def appendSource (host : Host) (relative : Bytes) (target : CopyTargetOptions) :
    CopyDataSource → Option (Except CopyToError UstarBuilder)
  | .data data => some do
      let builder ← appendAncestorDirectories .new relative target.uid target.gid
      appendFile builder relative data target.mode target.uid target.gid
  | .file path =>
      match host.lookup path with
      | .inaccessible msg => some (.error (.hostIo path msg))
      | .symlink => some (.error (.hostPath "copy_to source is a symlink: " path))
      | .special =>
          some (.error (nameErr "copy_to source is not a regular file or directory"))
      | .file len content => some do
          let builder ← appendAncestorDirectories .new relative target.uid target.gid
          checkFileSizeLimit path len
          let data ← readFileLimited path content
          appendFile builder relative data target.mode target.uid target.gid
      | node => appendDirectorySource path relative target node

/-- Prepare the archive of a source. -/
def prepareArchive (host : Host) (src : CopyToContainer) : Option (Except CopyToError Bytes) :=
  match (do checkTargetPath src.target.path; makePathRelative src.target.path) with
  | .error e => some (.error e)
  | .ok relative =>
      match appendSource host relative src.target src.source with
      | none => none
      | some (.error e) => some (.error e)
      | some (.ok builder) => some (builder.finish.mapError .copy)

/-- An archive and the directory of the container where it is to be unpacked. -/
structure Upload where
  path : Bytes
  tar : Bytes
  deriving DecidableEq, Repr

/-- Prepare and upload the sources one after the other, with the uploads so far; `respond`
is the answer of the daemon to the last of the uploads. -/
def copyToSources (host : Host) (respond : List Upload → Except String Unit) :
    List CopyToContainer → List Upload → Option (List Upload × Except CopyToError Unit)
  | [], uploads => some (uploads, .ok ())
  | src :: sources, uploads =>
      match prepareArchive host src with
      | none => none
      | some (.error e) => some (uploads, .error e)
      | some (.ok tar) =>
          let uploads := uploads ++ [⟨[slash], tar⟩]
          match respond uploads with
          | .error msg => some (uploads, .error (.client msg))
          | .ok () => copyToSources host respond sources uploads

/-- Copy the sources of a request to a container. -/
def copyToSourcesLinux (host : Host) (respond : List Upload → Except String Unit)
    (sources : List CopyToContainer) : Option (List Upload × Except CopyToError Unit) :=
  copyToSources host respond sources []

/-! ### Accepted targets -/

/-- The components of a rooted path, as they are written. -/
def targetComponents (path : Bytes) : List Bytes := path.tail.splitOn slash

/-- What the checks of a target path let through: it is rooted, does not end in a slash,
has none doubled, and no component that leads upwards. -/
theorem checkTargetPath_spec {path : Bytes} {u : Unit} (h : checkTargetPath path = .ok u) :
    path.head? = some slash ∧ path.getLast? ≠ some slash ∧ ¬ [slash, slash] <:+: path ∧
      [dot, dot] ∉ pathComponents path := by
  rw [checkTargetPath] at h
  split at h
  · exact absurd h (by simp)
  next hhead =>
  split at h
  · exact absurd h (by simp)
  next hlast =>
  split at h
  · exact absurd h (by simp)
  split at h
  · exact absurd h (by simp)
  next hdouble =>
  split at h
  · exact absurd h (by simp)
  split at h
  · exact absurd h (by simp)
  next hparent => exact ⟨not_not.mp hhead, hlast, hdouble, hparent⟩

/-- Behind its one leading slash, an accepted path is relative. The checks leave no second
slash behind that one, so all of the rest is kept. -/
theorem makePathRelative_spec {path relative : Bytes} {u : Unit}
    (hcheck : checkTargetPath path = .ok u) (h : makePathRelative path = .ok relative) :
    path = slash :: relative ∧ relative ≠ [] ∧ relative.head? ≠ some slash := by
  obtain ⟨hhead, -, hdouble, -⟩ := checkTargetPath_spec hcheck
  obtain ⟨rest, rfl⟩ := List.head?_eq_some_iff.mp hhead
  have hrest : rest.head? ≠ some slash := by
    intro hslash
    obtain ⟨rest, rfl⟩ := List.head?_eq_some_iff.mp hslash
    exact hdouble ⟨[], rest, rfl⟩
  have hdrop : (slash :: rest).dropWhile (fun b => decide (b = slash)) = rest := by
    rw [List.dropWhile_cons_of_pos (by simp)]
    cases rest with
    | nil => rfl
    | cons b rest => exact List.dropWhile_cons_of_neg (by simpa using hrest)
  rw [makePathRelative, hdrop] at h
  split at h
  · exact absurd h (by simp)
  next hne =>
    obtain rfl := Except.ok.inj h
    exact ⟨rfl, hne, hrest⟩

/-- **An accepted target is a rooted path of proper components.** None of them is empty,
since no slash is doubled or at the end, and a component has no slash in it. -/
theorem components_of_checkTargetPath {path relative : Bytes}
    (h : (do checkTargetPath path; makePathRelative path) = .ok relative) :
    relative = joinComponents (targetComponents path) ∧ targetComponents path ≠ [] ∧
      ∀ c ∈ targetComponents path, IsName c := by
  obtain ⟨u, hcheck, hrelative⟩ := bind_eq_ok.mp h
  obtain ⟨-, hlast, hdouble, hparent⟩ := checkTargetPath_spec hcheck
  obtain ⟨rfl, hne, hhead⟩ := makePathRelative_spec hcheck hrelative
  have hcomponents : targetComponents (slash :: relative) = relative.splitOn slash := rfl
  have hparts : (slash :: relative).splitOn slash = [] :: relative.splitOn slash :=
    List.splitOn_append_cons_self [] relative
  rw [hcomponents]
  refine ⟨(List.intercalate_splitOn slash).symm, List.splitOn_ne_nil _ _, ?_⟩
  intro c hc
  have hcne : c ≠ [] := by
    refine splitOn_ne_nil_of_separated hne hhead (fun hslash => hlast ?_) (fun hmem => hdouble ?_)
      c hc
    · rw [List.getLast?_cons, hslash]
      rfl
    · exact hmem.trans (List.suffix_cons _ _).isInfix
  refine ⟨hcne, Fields.notMem_of_mem_splitOn hc, fun hdots => hparent ?_⟩
  rw [pathComponents, hparts, List.mem_filter]
  subst hdots
  exact ⟨List.mem_cons_of_mem _ hc, by decide⟩

/-! ### Items and append calls -/

@[simp] theorem joinComponents_nil : joinComponents [] = [] := rfl

@[simp] theorem joinComponents_singleton (c : Bytes) : joinComponents [c] = c :=
  List.intercalate_singleton

/-- Two paths in a row are joined by one slash. -/
theorem joinComponents_append {above path : List Bytes} (habove : above ≠ [])
    (hpath : path ≠ []) :
    joinComponents (above ++ path) = joinComponents above ++ slash :: joinComponents path :=
  intercalate_append habove hpath

/-- A path that begins with a proper component is not empty as text. -/
theorem joinComponents_ne_nil {c : Bytes} (hc : c ≠ []) (path : List Bytes) :
    joinComponents (c :: path) ≠ [] := fun hempty =>
  hc (List.prefix_nil.mp (hempty ▸ prefix_intercalate _ c path))

namespace Item

/-- The path of an item in an archive. -/
def text (item : Item) : Bytes :=
  match item.content with
  | .file _ => joinComponents item.path
  | .directory => joinComponents item.path ++ [slash]

/-- The call that appends an item. -/
def call (mode uid gid : UInt32) (item : Item) : AppendCall :=
  match item.content with
  | .file data => .file item.text data mode uid gid
  | .directory => .directory item.text 0o755 uid gid

end Item

/-- Calls in a row: the second ones are made on what the first ones have built. -/
theorem AppendCall.applyAll_append (b : UstarBuilder) (calls calls' : List AppendCall) :
    applyAll b (calls ++ calls') = applyAll b calls >>= fun b => applyAll b calls' := by
  induction calls generalizing b with
  | nil => rfl
  | cons call calls ih =>
      rw [List.cons_append, applyAll, applyAll]
      cases call.apply b with
      | error e => rfl
      | ok b => exact ih b

section Calls

variable {mode uid gid : UInt32} {b b' : UstarBuilder}

/-- Items whose calls succeed one after the other. -/
def Appends (mode uid gid : UInt32) (b : UstarBuilder) (items : List Item)
    (b' : UstarBuilder) : Prop :=
  AppendCall.applyAll b (items.map (Item.call mode uid gid)) = .ok b'

theorem Appends.nil : Appends mode uid gid b [] b := rfl

/-- Items in a row are appended one list after the other. -/
theorem Appends.append {b'' : UstarBuilder} {items items' : List Item}
    (h : Appends mode uid gid b items b') (h' : Appends mode uid gid b' items' b'') :
    Appends mode uid gid b (items ++ items') b'' := by
  rw [Appends] at h h' ⊢
  rw [List.map_append, AppendCall.applyAll_append, h]
  exact h'

/-- A single item is appended by its call. -/
theorem Appends.of_call {item : Item} (h : (item.call mode uid gid).apply b = .ok b') :
    Appends mode uid gid b [item] b' := by
  rw [Appends, List.map_singleton, AppendCall.applyAll, h]
  rfl

/-- A directory is appended under its path, with a slash at the end. -/
theorem appends_directory {path : List Bytes}
    (h : appendDirectory b (joinComponents path ++ [slash]) uid gid = .ok b') :
    Appends mode uid gid b [⟨path, .directory⟩] b' :=
  .of_call (mapError_eq_ok.mp h)

/-- A file is appended under its path, with its data. -/
theorem appends_file {path : List Bytes} {data : Bytes}
    (h : appendFile b (joinComponents path) data mode uid gid = .ok b') :
    Appends mode uid gid b [⟨path, .file data⟩] b' :=
  .of_call (mapError_eq_ok.mp h)

/-! ### Directories above the target -/

/-- The proper ancestors of a path, outermost first. -/
def ancestors (path : List Bytes) : List (List Bytes) := path.dropLast.inits.tail

/-- The ancestors of a path as items. -/
def ancestorItems (path : List Bytes) : List Item :=
  (ancestors path).map fun above => ⟨above, .directory⟩

/-- The loop appends the directories on the way from the previous one down. By
induction on the components still to come, of which the next one is put behind those
that are done. -/
theorem appends_appendAncestors (done : List Bytes) {parts : List Bytes} {acc : Bytes}
    (hacc : acc = joinComponents done) (hparts : ∀ c ∈ parts, c ≠ [])
    (hdone : ∀ c ∈ done, c ≠ [])
    (h : appendAncestors uid gid parts acc b = .ok b') :
    Appends mode uid gid b (parts.inits.tail.map fun below => ⟨done ++ below, .directory⟩)
      b' := by
  induction parts generalizing done acc b with
  | nil =>
      obtain rfl := Except.ok.inj h
      exact .nil
  | cons part parts ih =>
      have hpart : part ≠ [] := hparts part List.mem_cons_self
      rw [appendAncestors, if_neg hpart] at h
      obtain ⟨b₁, hdirectory, hrest⟩ := bind_eq_ok.mp h
      have hnext : (if acc = [] then acc else acc ++ [slash]) ++ part =
          joinComponents (done ++ [part]) := by
        by_cases hnil : done = []
        · subst hnil hacc
          simp
        · have hne : acc ≠ [] := by
            rw [hacc]
            obtain ⟨c, rest, rfl⟩ := List.exists_cons_of_ne_nil hnil
            exact joinComponents_ne_nil (hdone c List.mem_cons_self) rest
          rw [if_neg hne, joinComponents_append hnil (List.cons_ne_nil _ _),
            joinComponents_singleton, hacc, List.append_assoc, List.singleton_append]
      rw [hnext] at hdirectory hrest
      have hbelow := ih _ rfl (fun c hc => hparts c (List.mem_cons_of_mem _ hc)) (fun c hc => by
        rcases List.mem_append.mp hc with hc | hc
        · exact hdone c hc
        · exact List.mem_singleton.mp hc ▸ hpart) hrest
      have hitems : ((part :: parts).inits.tail.map fun below =>
          (⟨done ++ below, .directory⟩ : Item)) = ⟨done ++ [part], .directory⟩ ::
            parts.inits.tail.map fun below => ⟨done ++ [part] ++ below, .directory⟩ := by
        rw [List.inits_cons, List.tail_cons, List.map_map]
        cases parts <;> simp [Function.comp_def]
      rw [hitems]
      exact (appends_directory hdirectory).append hbelow

/-- **The directories above a path are appended**, outermost first. -/
theorem appends_appendAncestorDirectories {path : List Bytes} (hpath : path ≠ [])
    (hnames : ∀ c ∈ path, IsName c)
    (h : appendAncestorDirectories b (joinComponents path) uid gid = .ok b') :
    Appends mode uid gid b (ancestorItems path) b' := by
  have hsplit : (joinComponents path).splitOn slash = path :=
    List.splitOn_intercalate slash (fun c hc => (hnames c hc).2.1) hpath
  rw [appendAncestorDirectories, hsplit, ← List.dropLast_eq_take] at h
  exact appends_appendAncestors [] rfl
    (fun c hc => (hnames c (List.mem_of_mem_dropLast hc)).1) (by simp) h

end Calls

/-! ### The loop over a directory -/

section Walk

variable {hostRoot : Bytes} {mode uid gid : UInt32} {target : List Bytes}

/-- The path of an entry in the archive is the target's with the entry's behind it. -/
theorem tarPathOf_spec {rel : List Bytes} {tarPath : Bytes} (htarget : target ≠ [])
    (hrel : ∃ name above, rel = above ++ [name] ∧ name ≠ [])
    (h : tarPathOf (joinComponents target) rel = .ok tarPath) :
    tarPath = joinComponents (target ++ rel) := by
  obtain ⟨name, above, rfl, hname⟩ := hrel
  have hne : joinComponents (above ++ [name]) ≠ [] := fun hempty =>
    hname (List.suffix_nil.mp (hempty ▸ suffix_intercalate _ above name))
  rw [tarPathOf] at h
  split at h
  · exact absurd h (by simp)
  rw [joinComponents_append htarget (List.append_ne_nil_of_right_ne_nil _ (List.cons_ne_nil _ _))]
  exact (Except.ok.inj h).symm

/-- A file that is read is read in full. -/
theorem readFileLimited_spec {path data : Bytes} {content : Except String Bytes}
    (h : readFileLimited path content = .ok data) : content = .ok data := by
  cases content with
  | error msg => exact absurd h (by simp [readFileLimited])
  | ok data' =>
      rw [readFileLimited] at h
      split at h
      · exact absurd h (by simp)
      · rw [Except.ok.inj h]

/-- **One visit**: what is emitted for the child is appended, and what is reached from it is
pushed. -/
theorem visitEntry_spec {dir : List Bytes} {state state' : UstarBuilder × List Pending}
    {entry : Bytes × HostNode} (htarget : target ≠ []) (hname : entry.1 ≠ [])
    (h : visitEntry hostRoot (joinComponents target) mode uid gid dir state entry =
      .ok state') :
    entry.2.content ≠ none ∧
      Appends mode uid gid state.1 ((Pending.emitted dir entry).map (Item.under target))
        state'.1 ∧
      state'.2 = Pending.reached dir entry ++ state.2 := by
  obtain ⟨name, node⟩ := entry
  have hrel : ∃ last above, dir ++ [name] = above ++ [last] ∧ last ≠ [] := ⟨name, dir, rfl, hname⟩
  rw [visitEntry] at h
  cases node with
  | inaccessible msg => exact absurd h (by simp)
  | symlink | special =>
      obtain ⟨tarPath, -, h⟩ := bind_eq_ok.mp h
      exact absurd h (by simp)
  | file len content =>
      obtain ⟨tarPath, htar, h⟩ := bind_eq_ok.mp h
      obtain ⟨u, -, h⟩ := bind_eq_ok.mp h
      obtain ⟨data, hdata, h⟩ := bind_eq_ok.mp h
      obtain ⟨b, happend, h⟩ := bind_eq_ok.mp h
      obtain rfl := Except.ok.inj h
      obtain rfl := readFileLimited_spec hdata
      rw [tarPathOf_spec htarget hrel htar] at happend
      exact ⟨Option.some_ne_none _, appends_file happend, rfl⟩
  | directory | lockedDirectory =>
      obtain ⟨tarPath, htar, h⟩ := bind_eq_ok.mp h
      obtain ⟨b, happend, h⟩ := bind_eq_ok.mp h
      obtain rfl := Except.ok.inj h
      rw [tarPathOf_spec htarget hrel htar] at happend
      exact ⟨Option.some_ne_none _, appends_directory happend, rfl⟩

/-- A child is reached as one entry of the stack, or as none, so there is nothing to
reverse. -/
theorem Pending.reverse_reached (path : List Bytes) (child : Bytes × HostNode) :
    (reached path child).reverse = reached path child := by
  rw [reached]
  split <;> rfl

/-- **One round**: everything emitted for the children is appended, and everything reached
from them is on top of the stack. -/
theorem foldlM_visitEntry_spec {dir : List Bytes} {state state' : UstarBuilder × List Pending}
    {entries : List (Bytes × HostNode)} (htarget : target ≠ [])
    (hnames : ∀ entry ∈ entries, entry.1 ≠ [])
    (h : entries.foldlM (visitEntry hostRoot (joinComponents target) mode uid gid dir) state =
      .ok state') :
    (∀ entry ∈ entries, entry.2.content ≠ none) ∧
      Appends mode uid gid state.1
        ((entries.flatMap (Pending.emitted dir)).map (Item.under target)) state'.1 ∧
      state'.2 = (entries.flatMap (Pending.reached dir)).reverse ++ state.2 := by
  induction entries generalizing state with
  | nil =>
      obtain rfl := Except.ok.inj h
      exact ⟨fun entry hentry => absurd hentry List.not_mem_nil, .nil, rfl⟩
  | cons entry entries ih =>
      rw [List.foldlM_cons] at h
      obtain ⟨state₁, hvisit, hrest⟩ := bind_eq_ok.mp h
      obtain ⟨hcontent, happend, hpushed⟩ :=
        visitEntry_spec htarget (hnames entry List.mem_cons_self) hvisit
      obtain ⟨hcontents, happends, hstack⟩ :=
        ih (fun entry hentry => hnames entry (List.mem_cons_of_mem _ hentry)) hrest
      refine ⟨List.forall_mem_cons.mpr ⟨hcontent, hcontents⟩, ?_, ?_⟩
      · rw [List.flatMap_cons, List.map_append]
        exact happend.append happends
      · rw [hstack, hpushed, List.flatMap_cons, List.reverse_append, Pending.reverse_reached,
          List.append_assoc]

/-- The order of the visits is one of the children, each of which is visited once. -/
theorem perm_visitOrder (children : List (Bytes × HostNode)) :
    (visitOrder children).Perm children :=
  (List.reverse_perm _).trans (List.perm_insertionSort _ _)

/-- What is listed is a directory. -/
theorem readDir_spec {path : Bytes} {node : HostNode} {children : List (Bytes × HostNode)}
    (h : readDir path node = .ok children) : node = .directory children := by
  cases node with
  | directory children' => rw [Except.ok.inj h]
  | _ => exact absurd h (by simp [readDir])

/-- A pending directory is one, and well-formed. -/
def Pending.Listable (pending : Pending) : Prop :=
  pending.node.isDirectory ∧ pending.node.WellFormed

/-- What a round leaves on the stack can be listed. -/
theorem Pending.listable_of_round {dir : List Bytes} {entries : List (Bytes × HostNode)}
    {stack : List Pending} (hentries : ∀ entry ∈ entries, entry.2.WellFormed)
    (hstack : ∀ pending ∈ stack, pending.Listable) :
    ∀ pending ∈ (entries.flatMap (reached dir)).reverse ++ stack, pending.Listable := by
  intro pending hpending
  rcases List.mem_append.mp hpending with hreached | hold
  · obtain ⟨entry, hentry, hreached⟩ := List.mem_flatMap.mp (List.mem_reverse.mp hreached)
    rw [reached] at hreached
    split at hreached
    · next hdirectory =>
        obtain rfl := List.mem_singleton.mp hreached
        exact ⟨hdirectory, hentries entry hentry⟩
    · exact absurd hreached List.not_mem_nil
  · exact hstack pending hold

/-- A round that succeeds lists a directory: its children can all be copied, what is emitted
for them is appended, and what is reached from them is on top of the stack. -/
theorem round_spec {dir : Pending} {stack : List Pending} {b : UstarBuilder}
    {children : List (Bytes × HostNode)} {state : UstarBuilder × List Pending}
    (htarget : target ≠ []) (hstack : ∀ pending ∈ dir :: stack, pending.Listable)
    (hlist : readDir (hostPathOf hostRoot dir.path) dir.node = .ok children)
    (hround : (visitOrder children).foldlM
      (visitEntry hostRoot (joinComponents target) mode uid gid dir.path) (b, stack) =
      .ok state) :
    dir.node = .directory children ∧
      (∀ entry ∈ visitOrder children, entry.2.content ≠ none) ∧
      Appends mode uid gid b
        (((visitOrder children).flatMap (Pending.emitted dir.path)).map (Item.under target))
        state.1 ∧
      state.2 = ((visitOrder children).flatMap (Pending.reached dir.path)).reverse ++ stack ∧
      ∀ pending ∈ state.2, pending.Listable := by
  have hnode := readDir_spec hlist
  obtain ⟨-, hwf⟩ := hstack dir List.mem_cons_self
  rw [hnode] at hwf
  cases hwf with
  | directory _ hnames hchildren =>
      have hperm := perm_visitOrder children
      obtain ⟨hcontents, happends, hstate⟩ := foldlM_visitEntry_spec htarget
        (fun entry hentry => (hnames entry (hperm.mem_iff.mp hentry)).1) hround
      refine ⟨hnode, hcontents, happends, hstate, ?_⟩
      rw [hstate]
      exact Pending.listable_of_round
        (fun entry hentry => hchildren entry (hperm.mem_iff.mp hentry))
        fun pending hpending => hstack pending (List.mem_cons_of_mem _ hpending)

/-- **The loop walks the tree**: when it succeeds, what it appended is what a walk from its
stack emits. -/
theorem walk_refines {rounds : ℕ} {stack : List Pending} {b b' : UstarBuilder}
    (htarget : target ≠ []) (hstack : ∀ pending ∈ stack, pending.Listable)
    (h : walk hostRoot (joinComponents target) mode uid gid rounds stack b = some (.ok b')) :
    ∃ items, Walk stack items ∧
      Appends mode uid gid b (items.map (Item.under target)) b' := by
  induction rounds generalizing stack b with
  | zero =>
      cases stack with
      | nil =>
          obtain rfl := Except.ok.inj (Option.some.inj h)
          exact ⟨[], .done, .nil⟩
      | cons dir stack => exact absurd h (by simp [walk])
  | succ rounds ih =>
      cases stack with
      | nil =>
          obtain rfl := Except.ok.inj (Option.some.inj h)
          exact ⟨[], .done, .nil⟩
      | cons dir stack =>
          rw [walk] at h
          split at h
          · exact absurd h (by simp)
          next children hlist =>
          split at h
          · exact absurd h (by simp)
          next b₁ stack₁ hround =>
          obtain ⟨hnode, hcontents, happends, rfl, hnext⟩ :=
            round_spec htarget hstack hlist hround
          obtain ⟨items, hwalk, hrest⟩ := ih hnext h
          obtain ⟨path, node⟩ := dir
          obtain rfl := hnode
          refine ⟨_, .list (perm_visitOrder children) hcontents hwalk, ?_⟩
          rw [List.map_append]
          exact happends.append hrest

/-- The directories reached are those below the children. By induction on the children;
one that is no directory counts for nothing. -/
theorem sum_directories_reached (dir : List Bytes) (children : List (Bytes × HostNode)) :
    ((children.flatMap (Pending.reached dir)).map fun p => p.node.directories).sum =
      HostNode.directoriesBelow children := by
  induction children with
  | nil => rfl
  | cons child children ih =>
      have hchild : ((Pending.reached dir child).map fun p => p.node.directories).sum =
          child.2.directories := by
        obtain ⟨name, node⟩ := child
        cases node <;> simp [Pending.reached, HostNode.isDirectory, HostNode.directories]
      rw [List.flatMap_cons, List.map_append, List.sum_append, hchild, ih,
        HostNode.directoriesBelow]

/-- A directory counts for at least one. -/
theorem HostNode.directories_pos {node : HostNode} (h : node.isDirectory) :
    0 < node.directories := by
  cases node with
  | directory children =>
      rw [directories]
      omega
  | lockedDirectory => exact Nat.one_pos
  | _ => exact absurd h (by simp [isDirectory])

/-- **The loop ends** within as many rounds as there are directories on and below its
stack. -/
theorem walk_total {rounds : ℕ} {stack : List Pending} {b : UstarBuilder}
    (htarget : target ≠ []) (hstack : ∀ pending ∈ stack, pending.Listable)
    (hrounds : (stack.map fun pending => pending.node.directories).sum ≤ rounds) :
    ∃ result, walk hostRoot (joinComponents target) mode uid gid rounds stack b =
      some result := by
  induction rounds generalizing stack b with
  | zero =>
      cases stack with
      | nil => exact ⟨_, rfl⟩
      | cons dir stack =>
          have hpos := HostNode.directories_pos (hstack dir List.mem_cons_self).1
          rw [List.map_cons, List.sum_cons] at hrounds
          omega
  | succ rounds ih =>
      cases stack with
      | nil => exact ⟨_, rfl⟩
      | cons dir stack =>
          rw [walk]
          split
          · exact ⟨_, rfl⟩
          next children hlist =>
          split
          · exact ⟨_, rfl⟩
          next b₁ stack₁ hround =>
          obtain ⟨hnode, -, -, rfl, hnext⟩ := round_spec htarget hstack hlist hround
          refine ih hnext ?_
          have hreached : (((visitOrder children).flatMap (Pending.reached dir.path)).map
              fun p => p.node.directories).sum = HostNode.directoriesBelow children := by
            rw [← sum_directories_reached dir.path children]
            exact (((perm_visitOrder children).flatMap_right _).map _).sum_nat
          rw [List.map_cons, List.sum_cons, hnode, HostNode.directories] at hrounds
          rw [List.map_append, List.sum_append, List.map_reverse, List.sum_reverse, hreached]
          omega

end Walk

/-! ### Exact uploads -/

/-- The entry of an item in an archive. -/
def Item.entry (fileMode uid gid : ℕ) (item : Item) : Entry :=
  match item.content with
  | .file data =>
      { header := { path := item.text, kind := .file, size := data.length, mode := fileMode
                    uid, gid }
        data }
  | .directory =>
      { header := { path := item.text, kind := .directory, size := 0, mode := 0o755, uid, gid }
        data := [] }

/-- The components of the path of an entry; that of a directory ends in a slash. -/
def entryComponents (entry : Entry) : List Bytes :=
  match entry.header.kind with
  | .file => entry.header.path.splitOn slash
  | .directory => entry.header.path.dropLast.splitOn slash

/-- What a copy of a source consists of, by path below the target. -/
def sourceItems (host : Host) : CopyDataSource → List Item
  | .data data => [⟨[], .file data⟩]
  | .file path => (host.lookup path).items

/-- A symbolic link or a special file is somewhere in the source. -/
def IrregularSource (host : Host) : CopyDataSource → Prop
  | .data _ => False
  | .file path => (host.lookup path).Irregular

/-- The entries of an archive are exactly the directories above the target and the source
below it, files with mode `fileMode`. -/
structure ExactUpload (host : Host) (src : CopyToContainer) (fileMode : ℕ)
    (entries : List Entry) : Prop where
  /-- No path is rooted. -/
  relative : ∀ entry ∈ entries, entry.header.path.head? ≠ some slash
  /-- No path has an empty component or leads upwards. -/
  proper : ∀ entry ∈ entries, ∀ c ∈ entryComponents entry, c ≠ [] ∧ c ≠ [dot, dot]
  /-- The ancestors of the target come first, and every file and directory of the source is
  there once, and nothing else. -/
  complete : ∃ rest,
    entries = (ancestorItems (targetComponents src.target.path)).map
      (Item.entry fileMode src.target.uid.toNat src.target.gid.toNat) ++ rest ∧
    rest.Perm ((sourceItems host src.source).map fun item =>
      (item.under (targetComponents src.target.path)).entry fileMode src.target.uid.toNat
        src.target.gid.toNat)
  /-- No directory comes behind an entry beneath it. -/
  parentFirst : entries.Pairwise fun entry later =>
    later.header.kind = .directory → ¬ later.header.path <+: entry.header.path
  /-- No path occurs twice. -/
  nodup : (entries.map fun entry => entry.header.path).Nodup

/-- The items of a source in an acceptable order, below the ancestors of its target. -/
structure Listing (host : Host) (target : List Bytes) (source : CopyDataSource)
    (items : List Item) : Prop where
  complete : ∃ rest, items = ancestorItems target ++ rest ∧
    rest.Perm ((sourceItems host source).map (Item.under target))
  parentFirst : ParentFirst (items.map Item.path)

/-- **No two items of a source have one path**: a tree has none twice, and data and a
single file have one item. -/
theorem path_sourceItems_nodup (host : Host) (source : CopyDataSource) :
    ((sourceItems host source).map Item.path).Nodup := by
  cases source with
  | data data => exact List.nodup_singleton _
  | file path => exact (host.wellFormed path).nodup_items

/-- The components of the paths of a source are names: neither empty nor with a slash. -/
theorem isName_of_mem_sourceItems {host : Host} {source : CopyDataSource} {item : Item}
    (hitem : item ∈ sourceItems host source) {name : Bytes} (hname : name ∈ item.path) :
    IsName name := by
  cases source with
  | data data =>
      obtain rfl := List.mem_singleton.mp hitem
      exact absurd hname List.not_mem_nil
  | file path => exact (host.wellFormed path).isName hitem hname

namespace Listing

variable {host : Host} {target : List Bytes} {source : CopyDataSource} {items : List Item}

/-- An item of a listing is an ancestor of the target, or lies at or below the target. -/
theorem mem (h : Listing host target source items) {item : Item} (hitem : item ∈ items) :
    item.path ∈ ancestors target ∨
      ∃ below ∈ sourceItems host source, item = below.under target := by
  obtain ⟨rest, rfl, hperm⟩ := h.complete
  rcases List.mem_append.mp hitem with hitem | hitem
  · obtain ⟨above, habove, rfl⟩ := List.mem_map.mp hitem
    exact .inl habove
  · obtain ⟨below, hbelow, rfl⟩ := List.mem_map.mp (hperm.mem_iff.mp hitem)
    exact .inr ⟨below, hbelow, rfl⟩

/-- Below a target that is not the root every item has a path. -/
theorem path_ne_nil (h : Listing host target source items) (htarget : target ≠ [])
    {item : Item} (hitem : item ∈ items) : item.path ≠ [] := by
  rcases h.mem hitem with habove | ⟨below, -, rfl⟩
  · exact (mem_tail_inits.mp habove).2
  · exact List.append_ne_nil_of_left_ne_nil htarget _

/-- Every component of a listed path is a name. -/
theorem isName (h : Listing host target source items) (hnames : ∀ c ∈ target, IsName c)
    {item : Item} (hitem : item ∈ items) {c : Bytes} (hc : c ∈ item.path) : IsName c := by
  rcases h.mem hitem with habove | ⟨below, hbelow, rfl⟩
  · exact hnames c (List.mem_of_mem_dropLast ((mem_tail_inits.mp habove).1.subset hc))
  · rcases List.mem_append.mp hc with hc | hc
    · exact hnames c hc
    · exact isName_of_mem_sourceItems hbelow hc

/-- **No path is listed twice**: the ancestors of the target are shorter than everything at
or below it. -/
theorem nodup (h : Listing host target source items) (htarget : target ≠ []) :
    (items.map Item.path).Nodup := by
  obtain ⟨rest, rfl, hperm⟩ := h.complete
  have hrest : (rest.map Item.path).Perm
      (((sourceItems host source).map Item.path).map (target ++ ·)) := by
    rw [List.map_map]
    have hpaths := hperm.map Item.path
    rwa [List.map_map] at hpaths
  have hancestors : (ancestorItems target).map Item.path = ancestors target := by
    rw [ancestorItems, List.map_map]
    exact List.map_id _
  rw [List.map_append, hancestors, List.nodup_append]
  refine ⟨nodup_tail_inits _, hrest.nodup_iff.mpr ((path_sourceItems_nodup host source).map
    (List.append_right_injective target)), ?_⟩
  rintro above habove _ hbelow rfl
  obtain ⟨path, -, rfl⟩ := List.mem_map.mp (hrest.mem_iff.mp hbelow)
  have hle := (mem_tail_inits.mp habove).1.length_le
  have hpos := List.length_pos_of_ne_nil htarget
  rw [List.length_dropLast, List.length_append] at hle
  omega

end Listing

/-! ### The text of an item -/

section Text

variable {item item' : Item}

/-- The text of a directory ends in a slash. -/
theorem Item.text_of_directory (h : item.content = .directory) :
    item.text = joinComponents item.path ++ [slash] := by
  rw [text, h]

/-- The text of an item begins with its path. -/
theorem joinComponents_prefix_text (item : Item) : joinComponents item.path <+: item.text := by
  rw [Item.text]
  split
  · exact List.prefix_rfl
  · exact List.prefix_append _ _

/-- The text of an item does not begin with a slash, since its first component is a
name. -/
theorem head?_text (hpath : item.path ≠ []) (hnames : ∀ c ∈ item.path, IsName c) :
    item.text.head? ≠ some slash := by
  obtain ⟨x, hx, hhead⟩ := head?_intercalate hpath
    (fun c hc => (hnames c hc).1) fun c hc => (hnames c hc).2.1
  obtain ⟨rest, hrest⟩ := joinComponents_prefix_text item
  obtain ⟨front, hfront⟩ := List.head?_eq_some_iff.mp hhead
  intro hslash
  rw [← hrest, joinComponents, hfront] at hslash
  exact hx (Option.some.inj hslash)

/-- A path does not end in a slash, since its last component is a name. -/
theorem getLast?_joinComponents (hpath : item.path ≠ []) (hnames : ∀ c ∈ item.path, IsName c) :
    (joinComponents item.path).getLast? ≠ some slash :=
  getLast?_intercalate hpath (fun c hc => (hnames c hc).1) fun c hc => (hnames c hc).2.1

/-- Items with different paths have different text. The text of a directory ends in a
slash, and no name does. -/
theorem path_eq_of_text_eq (hpath : item.path ≠ []) (hpath' : item'.path ≠ [])
    (hnames : ∀ c ∈ item.path, IsName c) (hnames' : ∀ c ∈ item'.path, IsName c)
    (h : item.text = item'.text) : item.path = item'.path := by
  have hinj : joinComponents item.path = joinComponents item'.path → item.path = item'.path :=
    intercalate_injective hpath hpath' (fun c hc => (hnames c hc).2.1)
      fun c hc => (hnames' c hc).2.1
  rw [Item.text, Item.text] at h
  split at h <;> split at h
  · exact hinj h
  · exact absurd (by rw [h, List.getLast?_concat]) (getLast?_joinComponents hpath hnames)
  · exact absurd (by rw [← h, List.getLast?_concat]) (getLast?_joinComponents hpath' hnames')
  · exact hinj (List.append_cancel_right h)

/-- Where the text of an item begins with that of a directory, the directory lies above it or
is the item. -/
theorem path_above_of_text_above (hpath : item.path ≠ []) (hpath' : item'.path ≠ [])
    (hnames : ∀ c ∈ item.path, IsName c) (hnames' : ∀ c ∈ item'.path, IsName c)
    (hdirectory : item'.content = .directory) (h : item'.text <+: item.text) :
    item'.path <+: item.path := by
  have htext : joinComponents item'.path ++ [slash] <+: joinComponents item.path →
      item'.path <+: item.path :=
    above_of_intercalate_above hpath' (fun c hc => (hnames' c hc).2.1) hpath
      fun c hc => (hnames c hc).2.1
  rw [Item.text_of_directory hdirectory, Item.text] at h
  split at h
  · exact htext h
  · rcases List.prefix_concat_iff.mp h with heq | h
    · rw [intercalate_injective hpath' hpath (fun c hc => (hnames' c hc).2.1)
        (fun c hc => (hnames c hc).2.1) (List.append_cancel_right heq)]
    · exact htext h

end Text

/-- An entry has the text of its item as its path. -/
@[simp] theorem Item.path_entry (fileMode uid gid : ℕ) (item : Item) :
    (item.entry fileMode uid gid).header.path = item.text := by
  rw [entry]
  split <;> rfl

/-- An entry is a directory exactly if its item is. -/
theorem Item.kind_entry (fileMode uid gid : ℕ) (item : Item) :
    (item.entry fileMode uid gid).header.kind = .directory ↔ item.content = .directory := by
  rw [entry]
  split <;> simp [*]

/-- **The path of an item is read back from its entry**: the slash of a directory is taken
off, and the names are told apart by the others. -/
theorem entryComponents_entry (fileMode uid gid : ℕ) {item : Item} (hpath : item.path ≠ [])
    (hnames : ∀ c ∈ item.path, IsName c) :
    entryComponents (item.entry fileMode uid gid) = item.path := by
  have hsplit : (joinComponents item.path).splitOn slash = item.path :=
    List.splitOn_intercalate slash (fun c hc => (hnames c hc).2.1) hpath
  rw [entryComponents, Item.entry, Item.text]
  cases item.content with
  | file data => exact hsplit
  | directory =>
      dsimp only
      rw [List.dropLast_concat, hsplit]

/-- The call for an item appends its entry, with the low twelve bits of the mode. -/
theorem Item.entry_call (mode uid gid : UInt32) (item : Item) :
    (item.call mode uid gid).entry = item.entry (mode &&& 0o7777).toNat uid.toNat gid.toNat := by
  rw [call, entry]
  split <;> rfl

/-- **The entries of a listing are exact.** Each of the parts of the statement is a fact
about the items, carried over to the entries that are made of them. -/
theorem Listing.exactUpload {host : Host} {src : CopyToContainer} {items : List Item}
    (h : Listing host (targetComponents src.target.path) src.source items)
    (htarget : targetComponents src.target.path ≠ [])
    (hnames : ∀ c ∈ targetComponents src.target.path, IsName c) (fileMode : ℕ) :
    ExactUpload host src fileMode
      (items.map (Item.entry fileMode src.target.uid.toNat src.target.gid.toNat)) := by
  have hne : ∀ item ∈ items, item.path ≠ [] := fun item hitem => h.path_ne_nil htarget hitem
  have hname : ∀ item ∈ items, ∀ c ∈ item.path, IsName c := fun item hitem c hc =>
    h.isName hnames hitem hc
  have hnodup := h.nodup htarget
  constructor
  case relative =>
    intro entry hentry
    obtain ⟨item, hitem, rfl⟩ := List.mem_map.mp hentry
    rw [Item.path_entry]
    exact head?_text (hne item hitem) (hname item hitem)
  case proper =>
    intro entry hentry c hc
    obtain ⟨item, hitem, rfl⟩ := List.mem_map.mp hentry
    rw [entryComponents_entry _ _ _ (hne item hitem) (hname item hitem)] at hc
    obtain ⟨hcne, -, hdots⟩ := hname item hitem c hc
    exact ⟨hcne, hdots⟩
  case complete =>
    obtain ⟨rest, rfl, hperm⟩ := h.complete
    refine ⟨_, List.map_append, ?_⟩
    have hentries := hperm.map
      (Item.entry fileMode src.target.uid.toNat src.target.gid.toNat)
    rwa [List.map_map] at hentries
  case parentFirst =>
    have hpairs := h.parentFirst.pairwise hnodup fun hmem => by
      obtain ⟨item, hitem, hnil⟩ := List.mem_map.mp hmem
      exact hne item hitem hnil
    rw [List.pairwise_map] at hpairs ⊢
    refine hpairs.imp_of_mem ?_
    intro item later hitem hlater hnot hkind htext
    rw [Item.kind_entry] at hkind
    rw [Item.path_entry, Item.path_entry] at htext
    exact hnot (path_above_of_text_above (hne item hitem) (hne later hlater)
      (hname item hitem) (hname later hlater) hkind htext)
  case nodup =>
    rw [List.map_map]
    refine (List.Nodup.of_map _ hnodup).map_on ?_
    intro item hitem item' hitem' htext
    simp only [Function.comp_apply, Item.path_entry] at htext
    exact List.inj_on_of_nodup_map hnodup hitem hitem' (path_eq_of_text_eq (hne item hitem)
      (hne item' hitem') (hname item hitem) (hname item' hitem') htext)

/-! ### Sources -/

section Sources

variable {host : Host} {target : List Bytes}

/-- The items above a target are at its ancestors. -/
theorem map_path_ancestorItems (target : List Bytes) :
    (ancestorItems target).map Item.path = ancestors target := by
  rw [ancestorItems, List.map_map]
  exact List.map_id _

/-- The ancestors of a path and the path itself are in order. -/
theorem parentFirst_target (htarget : target ≠ []) :
    ParentFirst (ancestors target ++ [target]) := by
  have hinits := ParentFirst.inits target
  rwa [← List.dropLast_append_getLast htarget, tail_inits_concat,
    List.dropLast_append_getLast htarget] at hinits

/-- The root of a source is put at the target itself. -/
theorem Item.under_root (target : List Bytes) (content : Content) :
    (Item.mk [] content).under target = ⟨target, content⟩ := by
  rw [under, List.append_nil]

/-- A source without a tree is listed by itself. -/
theorem listing_single (htarget : target ≠ []) {source : CopyDataSource} {content : Content}
    (hsource : sourceItems host source = [⟨[], content⟩]) :
    Listing host target source (ancestorItems target ++ [⟨target, content⟩]) where
  complete := ⟨_, rfl, by rw [hsource, List.map_singleton, Item.under_root]⟩
  parentFirst := by
    rw [List.map_append, map_path_ancestorItems]
    exact parentFirst_target htarget

/-- A directory is listed by itself, then as a walk from it emits what lies below. The
walk emits the items below in some order, parents first, and all of them are put below the
target. -/
theorem listing_directory (htarget : target ≠ []) {path : Bytes} {items : List Item}
    (hcontent : (host.lookup path).content = some .directory)
    (hwalk : Walk [⟨[], host.lookup path⟩] items) :
    Listing host target (.file path)
      (ancestorItems target ++ [⟨target, .directory⟩] ++ items.map (Item.under target)) where
  complete := by
    refine ⟨⟨target, .directory⟩ :: items.map (Item.under target), by simp, ?_⟩
    have hbelow : items.Perm (HostNode.itemsBelow (host.lookup path).children) := by
      have hperm := hwalk.perm
      rwa [List.flatMap_singleton, Pending.items, show Item.under [] = id from rfl,
        List.map_id] at hperm
    rw [sourceItems, HostNode.items_eq, hcontent, Option.map_some, Option.toList_some,
      List.singleton_append, List.map_cons, Item.under_root]
    exact (hbelow.map _).cons _
  parentFirst := by
    have hunder := hwalk.under target
    rw [List.map_append, List.map_append, map_path_ancestorItems]
    refine hunder.parentFirst (parentFirst_target htarget) ?_
    intro pending hpending
    obtain rfl := List.mem_singleton.mp hpending
    exact List.mem_append_right _ (by simp [Pending.under])

/-- A directory that is appended is listed below its target, and nothing in it is
irregular. -/
theorem appendDirectorySource_spec {opts : CopyTargetOptions} {path : Bytes}
    {b : UstarBuilder} (htarget : target ≠ []) (hnames : ∀ c ∈ target, IsName c)
    (hdirectory : (host.lookup path).isDirectory)
    (h : appendDirectorySource path (joinComponents target) opts (host.lookup path) =
      some (.ok b)) :
    (∃ items, Listing host target (.file path) items ∧
      Appends opts.mode opts.uid opts.gid .new items b) ∧
      ¬ (host.lookup path).Irregular := by
  have hcontent : (host.lookup path).content = some .directory := by
    revert hdirectory
    cases host.lookup path <;> simp [HostNode.isDirectory, HostNode.content]
  have hlistable : ∀ pending ∈ [⟨[], host.lookup path⟩], Pending.Listable pending := by
    intro pending hpending
    obtain rfl := List.mem_singleton.mp hpending
    exact ⟨hdirectory, host.wellFormed path⟩
  rw [appendDirectorySource] at h
  split at h
  · exact absurd h (by simp)
  next b₁ hroot =>
  obtain ⟨b₀, hancestors, htop⟩ := bind_eq_ok.mp hroot
  obtain ⟨items, hwalk, happends⟩ := walk_refines htarget hlistable h
  exact ⟨⟨_, listing_directory htarget hcontent hwalk,
    ((appends_appendAncestorDirectories htarget hnames hancestors).append
      (appends_directory htop)).append happends⟩,
    hwalk.not_irregular List.mem_cons_self⟩

/-- **A source that is appended** is listed below its target, and nothing in it is
irregular. -/
theorem appendSource_spec {opts : CopyTargetOptions} {source : CopyDataSource}
    {b : UstarBuilder} (htarget : target ≠ []) (hnames : ∀ c ∈ target, IsName c)
    (h : appendSource host (joinComponents target) opts source = some (.ok b)) :
    (∃ items, Listing host target source items ∧
      Appends opts.mode opts.uid opts.gid .new items b) ∧ ¬ IrregularSource host source := by
  cases source with
  | data data =>
      obtain ⟨b₁, hancestors, hfile⟩ := bind_eq_ok.mp (Option.some.inj h)
      exact ⟨⟨_, listing_single htarget rfl,
        (appends_appendAncestorDirectories htarget hnames hancestors).append
          (appends_file hfile)⟩, id⟩
  | file path =>
      rw [appendSource] at h
      split at h
      case h_4 len content hnode =>
          obtain ⟨b₁, hancestors, h⟩ := bind_eq_ok.mp (Option.some.inj h)
          obtain ⟨u, -, h⟩ := bind_eq_ok.mp h
          obtain ⟨data, hdata, hfile⟩ := bind_eq_ok.mp h
          obtain rfl := readFileLimited_spec hdata
          refine ⟨⟨_, listing_single htarget ?_,
            (appends_appendAncestorDirectories htarget hnames hancestors).append
              (appends_file hfile)⟩, ?_⟩
          · rw [sourceItems, hnode]
            rfl
          · rw [IrregularSource, hnode]
            rintro ⟨⟩
      case h_5 hinaccessible hsymlink hspecial hfile =>
          exact appendDirectorySource_spec htarget hnames
            (HostNode.isDirectory_of_ne hinaccessible hsymlink hspecial hfile) h
      all_goals exact absurd h (by simp)

/-- Appending a source comes to an end. Only the walk through a directory could go on, and
each of its rounds leaves fewer directories to visit. -/
theorem appendSource_total (host : Host) (opts : CopyTargetOptions) (source : CopyDataSource)
    (htarget : target ≠ []) :
    ∃ result, appendSource host (joinComponents target) opts source = some result := by
  cases source with
  | data data => exact ⟨_, rfl⟩
  | file path =>
      rw [appendSource]
      split
      case h_5 hinaccessible hsymlink hspecial hfile =>
          rw [appendDirectorySource]
          split
          · exact ⟨_, rfl⟩
          · refine walk_total htarget ?_ (by simp)
            intro pending hpending
            obtain rfl := List.mem_singleton.mp hpending
            exact ⟨HostNode.isDirectory_of_ne hinaccessible hsymlink hspecial hfile,
              host.wellFormed path⟩
      all_goals exact ⟨_, rfl⟩

/-- **A prepared archive is exact**, and nothing in its source is irregular. The target
has been checked, the source is listed, and what the calls have appended reads back as
their entries. -/
theorem prepareArchive_spec {src : CopyToContainer} {archive : Bytes}
    (h : prepareArchive host src = some (.ok archive)) :
    (∃ entries, readArchive archive = some entries ∧
      ExactUpload host src (src.target.mode &&& 0o7777).toNat entries) ∧
      ¬ IrregularSource host src.source := by
  rw [prepareArchive] at h
  split at h
  · exact absurd h (by simp)
  next relative htarget =>
  obtain ⟨rfl, hne, hnames⟩ := components_of_checkTargetPath htarget
  split at h
  · exact absurd h (by simp)
  · exact absurd h (by simp)
  next b hsource =>
  have hfinish := mapError_eq_ok.mp (Option.some.inj h)
  obtain ⟨⟨items, hlisting, happends⟩, hregular⟩ := appendSource_spec hne hnames hsource
  refine ⟨⟨_, AppendCall.readArchive_finish happends hfinish, ?_⟩, hregular⟩
  have hentries : (items.map (Item.call src.target.mode src.target.uid src.target.gid)).map
      AppendCall.entry = items.map (Item.entry (src.target.mode &&& 0o7777).toNat
        src.target.uid.toNat src.target.gid.toNat) := by
    rw [List.map_map]
    exact List.map_congr_left fun item _ => Item.entry_call _ _ _ item
  rw [hentries]
  exact hlisting.exactUpload hne hnames _

/-- Preparing an archive comes to an end. -/
theorem prepareArchive_total (host : Host) (src : CopyToContainer) :
    ∃ result, prepareArchive host src = some result := by
  rw [prepareArchive]
  split
  · exact ⟨_, rfl⟩
  next relative htarget =>
  obtain ⟨rfl, hne, -⟩ := components_of_checkTargetPath htarget
  obtain ⟨result, hresult⟩ := appendSource_total host src.target src.source hne
  rw [hresult]
  cases result <;> exact ⟨_, rfl⟩

/-- **An irregular source is refused.** -/
theorem prepareArchive_irregular {src : CopyToContainer}
    (h : IrregularSource host src.source) : ∃ e, prepareArchive host src = some (.error e) := by
  obtain ⟨result, hresult⟩ := prepareArchive_total host src
  cases result with
  | error e => exact ⟨e, hresult⟩
  | ok archive => exact absurd h (prepareArchive_spec hresult).2

end Sources

/-! ### All sources -/

/-- An upload that holds exactly its source, to be unpacked at the root. -/
def UploadOf (host : Host) (upload : Upload) (src : CopyToContainer) : Prop :=
  upload.path = [slash] ∧ ∃ entries, readArchive upload.tar = some entries ∧
    ExactUpload host src (src.target.mode &&& 0o7777).toNat entries

/-- **A run over sources**: uploads are added for the first sources, in order, up to one that
fails. -/
theorem copyToSources_spec (host : Host) (respond : List Upload → Except String Unit)
    (sources : List CopyToContainer) (uploads : List Upload) :
    ∃ new result, copyToSources host respond sources uploads = some (uploads ++ new, result) ∧
      List.Forall₂ (UploadOf host) new (sources.take new.length) ∧
      (result = .ok () → new.length = sources.length) ∧
      ∀ i src, sources[i]? = some src → IrregularSource host src.source →
        new.length ≤ i ∧ ∃ e, result = .error e := by
  induction sources generalizing uploads with
  | nil =>
      refine ⟨[], .ok (), by rw [List.append_nil]; rfl, .nil, fun _ => rfl, ?_⟩
      intro i src hi
      exact absurd hi (by simp)
  | cons src sources ih =>
      rw [copyToSources]
      obtain ⟨prepared, hprepared⟩ := prepareArchive_total host src
      rw [hprepared]
      cases prepared with
      | error e =>
          exact ⟨[], .error e, by rw [List.append_nil], .nil, fun h => absurd h (by simp),
            fun i _ _ _ => ⟨Nat.zero_le i, e, rfl⟩⟩
      | ok tar =>
          obtain ⟨hexact, hregular⟩ := prepareArchive_spec hprepared
          have hupload : UploadOf host ⟨[slash], tar⟩ src := ⟨rfl, hexact⟩
          dsimp only
          cases respond (uploads ++ [⟨[slash], tar⟩]) with
          | error msg =>
              refine ⟨[⟨[slash], tar⟩], .error (.client msg), rfl, .cons hupload .nil,
                fun h => absurd h (by simp), fun i later hi hirregular => ⟨?_, _, rfl⟩⟩
              cases i with
              | zero =>
                  obtain rfl := Option.some.inj hi
                  exact absurd hirregular hregular
              | succ i => exact Nat.succ_pos i
          | ok u =>
              obtain ⟨new, result, hrun, hall, hdone, hstop⟩ := ih (uploads ++ [⟨[slash], tar⟩])
              refine ⟨⟨[slash], tar⟩ :: new, result, ?_, .cons hupload hall,
                fun h => congrArg (· + 1) (hdone h), ?_⟩
              · rw [List.append_assoc, List.singleton_append] at hrun
                exact hrun
              · intro i later hi hirregular
                cases i with
                | zero =>
                    obtain rfl := Option.some.inj hi
                    exact absurd hirregular hregular
                | succ i =>
                    obtain ⟨hle, herror⟩ := hstop i later hi hirregular
                    exact ⟨Nat.succ_le_succ hle, herror⟩

/-- **Uploads are exact.** Copying the sources of a request comes to an end; its uploads are
those of the first sources, in order, and of all of them if it succeeds. Each of them is to
be unpacked at the root and reads back as exactly the directories above the target and the
source below it, files with the low twelve bits of the requested mode. A source with a
symbolic link or a special file anywhere in it is refused, and nothing is uploaded for it. -/
theorem copyToSourcesLinux_exact (host : Host) (respond : List Upload → Except String Unit)
    (sources : List CopyToContainer) :
    ∃ uploads result, copyToSourcesLinux host respond sources = some (uploads, result) ∧
      List.Forall₂ (fun upload src => upload.path = [slash] ∧
        ∃ entries, readArchive upload.tar = some entries ∧
          ExactUpload host src (src.target.mode &&& 0o7777).toNat entries)
        uploads (sources.take uploads.length) ∧
      (result = .ok () → uploads.length = sources.length) ∧
      ∀ i src, sources[i]? = some src → IrregularSource host src.source →
        (∃ e, prepareArchive host src = some (.error e)) ∧ uploads.length ≤ i ∧
          ∃ e, result = .error e := by
  obtain ⟨uploads, result, hrun, hall, hdone, hstop⟩ := copyToSources_spec host respond sources []
  exact ⟨uploads, result, hrun, hall, hdone, fun i src hi hirregular =>
    ⟨prepareArchive_irregular hirregular, hstop i src hi hirregular⟩⟩

/-- A directory "d" with a directory that holds a file, beside a symbolic link "l". -/
def smallHost : Host where
  lookup path :=
    if path = [100] then
      .directory [([98], .file 1 (.ok [120])), ([97], .directory [([99], .file 0 (.ok []))])]
    else if path = [108] then .symlink
    else .inaccessible "No such file or directory"
  wellFormed path := by
    split
    · refine .directory (by decide) (by simp [IsName, slash, dot]) ?_
      simp only [List.forall_mem_cons, List.not_mem_nil, IsEmpty.forall_iff, implies_true,
        and_true]
      exact ⟨.file, .directory (by decide) (by simp [IsName, slash, dot]) (by
        simpa using HostNode.WellFormed.file)⟩
    · split
      · exact .symlink
      · exact .inaccessible

/-- The directory to "/o/t", data to "/f", then the link. -/
def smallSources : List CopyToContainer :=
  [⟨.file [100], .new [47, 111, 47, 116]⟩, ⟨.data [1, 2], .new [47, 102]⟩,
    ⟨.file [108], .new [47, 103]⟩]

/-- Two exact uploads, and none for the link. The link is the first source that fails, so
nothing behind it is uploaded. -/
theorem copyToSourcesLinux_exact_smallHost :
    ∃ first second e,
      copyToSourcesLinux smallHost (fun _ => .ok ()) smallSources =
        some ([first, second], .error e) ∧
      (∃ entries, readArchive first.tar = some entries ∧
        ExactUpload smallHost ⟨.file [100], .new [47, 111, 47, 116]⟩ 0o644 entries) ∧
      ∃ e, prepareArchive smallHost ⟨.file [108], .new [47, 103]⟩ = some (.error e) := by
  have hcount : (copyToSourcesLinux smallHost (fun _ => .ok ()) smallSources).map
      (fun run => run.1.length) = some 2 := by decide +kernel
  obtain ⟨uploads, result, hrun, hall, -, hstop⟩ :=
    copyToSourcesLinux_exact smallHost (fun _ => .ok ()) smallSources
  rw [hrun] at hcount
  obtain ⟨first, second, rfl⟩ := List.length_eq_two.mp (Option.some.inj hcount)
  obtain ⟨hrefused, -, e, rfl⟩ := hstop 2 _ rfl .symlink
  cases hall with
  | cons hfirst _ => exact ⟨first, second, e, hrun, hfirst.2, hrefused⟩

/-- No data to "/f", with a mode that says beside the permissions that this is a file. -/
def fullMode : CopyToContainer :=
  ⟨.data [], { path := [47, 102], mode := 0o100644, uid := 0, gid := 0 }⟩

/-- The requested mode is not archived where it has more than twelve bits. The mode that
is read back is not above twelve bits, and the one asked for is. -/
theorem not_exactUpload_fullMode :
    ∃ archive entries, prepareArchive smallHost fullMode = some (.ok archive) ∧
      readArchive archive = some entries ∧
      ¬ ExactUpload smallHost fullMode fullMode.target.mode.toNat entries := by
  have hread : ((prepareArchive smallHost fullMode).bind Except.toOption).bind readArchive =
      some [{ header := { path := [102], kind := .file, size := 0, mode := 0o644, uid := 0
                          gid := 0 }
              data := [] }] := by decide +kernel
  obtain ⟨archive, harchive, hentries⟩ := Option.bind_eq_some_iff.mp hread
  obtain ⟨result, hprepared, hresult⟩ := Option.bind_eq_some_iff.mp harchive
  cases result with
  | error e => exact absurd hresult (by simp [Except.toOption])
  | ok archive' =>
      obtain rfl := Option.some.inj hresult
      refine ⟨_, _, hprepared, hentries, ?_⟩
      intro hexact
      obtain ⟨rest, hall, hperm⟩ := hexact.complete
      have hmem : (Item.mk [[102]] (.file [])).entry 0o100644 0 0 ∈ rest :=
        hperm.mem_iff.mpr List.mem_cons_self
      have hmode := congrArg (fun entry : Entry => entry.header.mode)
        (List.mem_singleton.mp (hall ▸ List.mem_append_right _ hmem))
      exact absurd hmode (by decide)

end ContainerRs
