import ContainerRs.Lib.Bytes
import ContainerRs.Lib.Paths
import ContainerRs.Lib.Ustar
import Mathlib.Data.List.Perm.Basic

/-!
# The Tree on the Host

What a path of the host holds: a regular file, a directory with named children, or something
that cannot be copied. `HostNode.items` says what a copy of it consists of: every file and
directory once, by its path below the root.

A copy lists a directory when it takes it from a frontier of directories seen and not yet
listed: its children are emitted, in some order, and those that are directories join the
frontier. `Walk` is this process without regard to archives.

## Main results

* `HostNode.WellFormed.nodup_items`: no path occurs twice in a tree.
* `Walk.perm`: a walk emits exactly what lies below the directories of its frontier.
* `Walk.parentFirst`: and emits every directory before anything beneath it.
* `Walk.not_irregular`: nothing that cannot be copied lies below the frontier of a walk.
-/

namespace ContainerRs

open Paths Ustar

/-- What a path of the host holds. -/
inductive HostNode
  /-- A regular file: its length by its metadata, and what reading it gives. -/
  | file (len : ℕ) (content : Except String Bytes)
  /-- A directory with its children by name. -/
  | directory (children : List (Bytes × HostNode))
  /-- A directory that cannot be listed. -/
  | lockedDirectory (msg : String)
  | symlink
  /-- A device, a socket or a named pipe. -/
  | special
  /-- Something without metadata. -/
  | inaccessible (msg : String)

/-- The byte of a dot. -/
def dot : UInt8 := 46

/-- A component that names something: it is not empty, is one component and does not lead
upwards. -/
def IsName (name : Bytes) : Prop := name ≠ [] ∧ slash ∉ name ∧ name ≠ [dot, dot]

/-- What a copy holds at a path. -/
inductive Content
  | file (data : Bytes)
  | directory
  deriving DecidableEq, Repr

/-- A file or a directory of a copy, with the components of its path. -/
structure Item where
  path : List Bytes
  content : Content
  deriving DecidableEq, Repr

/-- An item as seen from further up. -/
def Item.under (above : List Bytes) (item : Item) : Item :=
  { item with path := above ++ item.path }

/-- An item that is put below two directories in turn is put below the path of both. -/
theorem Item.under_under (above above' : List Bytes) (item : Item) :
    (item.under above').under above = item.under (above ++ above') := by
  rw [Item.under, Item.under, Item.under, List.append_assoc]

namespace HostNode

/-- Names of one directory are distinct, and every name is one. -/
inductive WellFormed : HostNode → Prop
  | file {len : ℕ} {content : Except String Bytes} : WellFormed (.file len content)
  | directory {children : List (Bytes × HostNode)} :
      (children.map Prod.fst).Nodup → (∀ child ∈ children, IsName child.1) →
      (∀ child ∈ children, WellFormed child.2) → WellFormed (.directory children)
  | lockedDirectory {msg : String} : WellFormed (.lockedDirectory msg)
  | symlink : WellFormed .symlink
  | special : WellFormed .special
  | inaccessible {msg : String} : WellFormed (.inaccessible msg)

/-- A symbolic link or a special file is there. -/
inductive Irregular : HostNode → Prop
  | symlink : Irregular .symlink
  | special : Irregular .special
  | child {children : List (Bytes × HostNode)} {child : Bytes × HostNode} :
      child ∈ children → Irregular child.2 → Irregular (.directory children)

/-- Whether this is a directory. -/
def isDirectory : HostNode → Bool
  | .directory _ | .lockedDirectory _ => true
  | _ => false

/-- What a copy holds in place of the node itself, if it can be copied. -/
def content : HostNode → Option Content
  | .file _ (.ok data) => some (.file data)
  | .directory _ | .lockedDirectory _ => some .directory
  | _ => none

mutual

/-- What a copy of the node consists of, by path below the node. -/
def items : HostNode → List Item
  | .file _ (.ok data) => [⟨[], .file data⟩]
  | .directory children => ⟨[], .directory⟩ :: itemsBelow children
  | .lockedDirectory _ => [⟨[], .directory⟩]
  | _ => []

/-- What a copy of the children of a directory consists of. -/
def itemsBelow : List (Bytes × HostNode) → List Item
  | [] => []
  | (name, node) :: children => node.items.map (Item.under [name]) ++ itemsBelow children

end

mutual

/-- The number of directories in a tree. -/
def directories : HostNode → ℕ
  | .directory children => 1 + directoriesBelow children
  | .lockedDirectory _ => 1
  | _ => 0

/-- The number of directories below a directory. -/
def directoriesBelow : List (Bytes × HostNode) → ℕ
  | [] => 0
  | (_, node) :: children => node.directories + directoriesBelow children

end

/-- The children of a directory, none for anything else. -/
def children : HostNode → List (Bytes × HostNode)
  | .directory children => children
  | _ => []

/-- The items below a directory are those of its children, each put below the name of the
child. -/
theorem itemsBelow_eq (children : List (Bytes × HostNode)) :
    itemsBelow children =
      children.flatMap fun child => child.2.items.map (Item.under [child.1]) := by
  induction children with
  | nil => rfl
  | cons child children ih => rw [itemsBelow, ih, List.flatMap_cons]

/-- A copy of a node is the node itself and what lies below it. -/
theorem items_eq (node : HostNode) :
    node.items = (node.content.map (Item.mk [])).toList ++ itemsBelow node.children := by
  cases node with
  | file len content => cases content <;> rfl
  | _ => rfl

/-- What is no directory has no children. -/
theorem children_eq_nil {node : HostNode} (h : ¬ node.isDirectory) : node.children = [] := by
  cases node with
  | directory children => exact absurd rfl h
  | _ => rfl

/-- What is none of the other kinds of node is a directory. -/
theorem isDirectory_of_ne {node : HostNode} (hinaccessible : ∀ msg, node ≠ .inaccessible msg)
    (hsymlink : node ≠ .symlink) (hspecial : node ≠ .special)
    (hfile : ∀ len content, node ≠ .file len content) : node.isDirectory := by
  cases node with
  | directory | lockedDirectory => rfl
  | inaccessible msg => exact absurd rfl (hinaccessible msg)
  | symlink => exact absurd rfl hsymlink
  | special => exact absurd rfl hspecial
  | file len content => exact absurd rfl (hfile len content)

/-- What is no directory and yet cannot be copied has no content. -/
theorem Irregular.content_or_isDirectory {node : HostNode} (h : node.Irregular) :
    node.content = none ∨ node.isDirectory := by
  cases h with
  | symlink | special => exact .inl rfl
  | child => exact .inr rfl

/-- Every component of a path in a tree is a name, by induction on the tree: the first one
is the name of a child, the others are in its tree. -/
theorem WellFormed.isName {node : HostNode} (h : node.WellFormed) {item : Item}
    (hitem : item ∈ node.items) {name : Bytes} (hname : name ∈ item.path) : IsName name := by
  induction h generalizing item with
  | @file len content =>
      cases content with
      | error msg => exact absurd hitem List.not_mem_nil
      | ok data =>
          obtain rfl := List.mem_singleton.mp hitem
          exact absurd hname List.not_mem_nil
  | @directory children _ hnames _ ih =>
      rw [items, itemsBelow_eq] at hitem
      rcases List.mem_cons.mp hitem with rfl | hitem
      · exact absurd hname List.not_mem_nil
      · obtain ⟨child, hchild, hitem⟩ := List.mem_flatMap.mp hitem
        obtain ⟨below, hbelow, rfl⟩ := List.mem_map.mp hitem
        rcases List.mem_cons.mp hname with rfl | hname
        · exact hnames child hchild
        · exact ih child hchild hbelow hname
  | lockedDirectory =>
      obtain rfl := List.mem_singleton.mp hitem
      exact absurd hname List.not_mem_nil
  | symlink | special | inaccessible => exact absurd hitem List.not_mem_nil

/-- **No path occurs twice in a tree**: below one child by induction, and the paths below two
children differ in their first component. -/
theorem WellFormed.nodup_items {node : HostNode} (h : node.WellFormed) :
    (node.items.map Item.path).Nodup := by
  induction h with
  | @file len content => cases content <;> simp [items]
  | @directory children hdistinct _ _ ih =>
      have hbelow : ((itemsBelow children).map Item.path) =
          children.flatMap fun child =>
            (child.2.items.map Item.path).map (List.cons child.1) := by
        rw [itemsBelow_eq, List.map_flatMap]
        simp only [List.map_map]
        rfl
      rw [items, List.map_cons, List.nodup_cons, hbelow, List.nodup_flatMap]
      refine ⟨?_, ?_, ?_⟩
      · intro hmem
        obtain ⟨child, -, hmem⟩ := List.mem_flatMap.mp hmem
        obtain ⟨path, -, hpath⟩ := List.mem_map.mp hmem
        exact List.cons_ne_nil _ _ hpath
      · intro child hchild
        exact (ih child hchild).map fun _ _ heq => (List.cons.inj heq).2
      · rw [List.nodup_iff_pairwise_ne, List.pairwise_map] at hdistinct
        refine hdistinct.imp ?_
        intro child child' hne
        refine List.disjoint_left.mpr ?_
        rintro path hpath hpath'
        obtain ⟨rest, -, rfl⟩ := List.mem_map.mp hpath
        obtain ⟨rest', -, heq⟩ := List.mem_map.mp hpath'
        exact hne (List.cons.inj heq).1.symm
  | lockedDirectory => simp [items]
  | symlink | special | inaccessible => exact List.nodup_nil

end HostNode

/-! ### Walking a tree -/

/-- A directory that was seen and not yet listed, with its path. -/
structure Pending where
  path : List Bytes
  node : HostNode

namespace Pending

/-- What a copy holds below a pending directory. -/
def items (pending : Pending) : List Item :=
  (HostNode.itemsBelow pending.node.children).map (Item.under pending.path)

/-- What is emitted for a child of a listed directory. -/
def emitted (path : List Bytes) (child : Bytes × HostNode) : List Item :=
  (child.2.content.map (Item.mk (path ++ [child.1]))).toList

/-- What joins the frontier for a child of a listed directory. -/
def reached (path : List Bytes) (child : Bytes × HostNode) : List Pending :=
  if child.2.isDirectory then [⟨path ++ [child.1], child.2⟩] else []

/-- A pending directory as seen from further up. -/
def under (above : List Bytes) (pending : Pending) : Pending :=
  { pending with path := above ++ pending.path }

/-- What is emitted for a child is put below a directory with its path. -/
theorem emitted_under (above path : List Bytes) (child : Bytes × HostNode) :
    (emitted path child).map (Item.under above) = emitted (above ++ path) child := by
  rw [emitted, emitted]
  cases child.2.content with
  | none => rfl
  | some content => simp [Item.under]

/-- What is reached from a child is put below a directory with its path. -/
theorem reached_under (above path : List Bytes) (child : Bytes × HostNode) :
    (reached path child).map (under above) = reached (above ++ path) child := by
  rw [reached, reached]
  split
  · simp [under]
  · rfl

/-- What a child of a listed directory adds to the copy is what is emitted for it and what
lies below it. -/
theorem items_child (path : List Bytes) (child : Bytes × HostNode) :
    (child.2.items.map (Item.under [child.1])).map (Item.under path) =
      emitted path child ++ (reached path child).flatMap items := by
  rw [List.map_map, show Item.under path ∘ Item.under [child.1] =
    Item.under (path ++ [child.1]) from funext (Item.under_under _ _), HostNode.items_eq,
    List.map_append]
  congr 1
  · rw [emitted]
    cases child.2.content with
    | none => rfl
    | some content => simp [Item.under]
  · rw [reached]
    split
    · rw [List.flatMap_singleton, items]
    · next h => rw [HostNode.children_eq_nil (by simpa using h)]; rfl

end Pending

/-- A walk lists every directory of its frontier, and of what it reaches, and emits what can
be copied. -/
inductive Walk : List Pending → List Item → Prop
  | done : Walk [] []
  /-- The children are visited in some order, and all of them can be copied. -/
  | list {path : List Bytes} {children visited : List (Bytes × HostNode)}
      {frontier : List Pending} {items : List Item} :
      visited.Perm children → (∀ child ∈ visited, child.2.content ≠ none) →
      Walk ((visited.flatMap (Pending.reached path)).reverse ++ frontier) items →
      Walk (⟨path, .directory children⟩ :: frontier)
        (visited.flatMap (Pending.emitted path) ++ items)

namespace Walk

variable {frontier : List Pending} {items : List Item}

/-- A walk may be seen from further up. By induction on the walk. -/
theorem under (h : Walk frontier items) (above : List Bytes) :
    Walk (frontier.map (Pending.under above)) (items.map (Item.under above)) := by
  induction h with
  | done => exact .done
  | @list path children visited frontier items hperm hregular _ ih =>
      rw [List.map_append, List.map_reverse, List.map_flatMap] at ih
      rw [List.map_cons, List.map_append, List.map_flatMap]
      simp only [Pending.reached_under] at ih
      simp only [Pending.emitted_under]
      exact .list hperm hregular ih

/-- **A walk is exact**: it emits what lies below the directories of its frontier, every item
once. -/
theorem perm (h : Walk frontier items) : items.Perm (frontier.flatMap Pending.items) := by
  induction h with
  | done => exact List.Perm.refl _
  | @list path children visited frontier items hperm _ _ ih =>
      have hbelow : Pending.items ⟨path, .directory children⟩ =
          children.flatMap fun child => Pending.emitted path child ++
            (Pending.reached path child).flatMap Pending.items := by
        rw [Pending.items, HostNode.children, HostNode.itemsBelow_eq, List.map_flatMap]
        exact List.flatMap_congr fun child _ => Pending.items_child path child
      have hvisited : (visited.flatMap (Pending.emitted path) ++
          (visited.flatMap (Pending.reached path)).reverse.flatMap Pending.items).Perm
            (Pending.items ⟨path, .directory children⟩) := by
        rw [hbelow]
        refine .trans (.append_left _ ((List.reverse_perm _).flatMap_right _)) ?_
        rw [List.flatMap_assoc]
        exact (List.flatMap_append_perm visited _ _).trans (hperm.flatMap_right _)
      rw [List.flatMap_append] at ih
      rw [List.flatMap_cons]
      refine .trans (.append_left _ ih) ?_
      rw [← List.append_assoc]
      exact hvisited.append_right _

/-- **A walk is in order**: behind a listing that holds the directories of its frontier, it
emits every directory before anything beneath it. -/
theorem parentFirst (h : Walk frontier items) {listed : List (List Bytes)}
    (hlisted : ParentFirst listed) (hfrontier : ∀ pending ∈ frontier, pending.path ∈ listed) :
    ParentFirst (listed ++ items.map Item.path) := by
  induction h generalizing listed with
  | done => rwa [List.map_nil, List.append_nil]
  | @list path children visited frontier items _ hregular _ ih =>
      have hchild : ∀ child ∈ visited, ∀ item ∈ Pending.emitted path child,
          item.path = path ++ [child.1] := by
        intro child _ item hitem
        rw [Pending.emitted, Option.mem_toList, Option.map_eq_some_iff] at hitem
        obtain ⟨content, -, rfl⟩ := hitem
        rfl
      have hpath : path ∈ listed := hfrontier _ List.mem_cons_self
      rw [List.map_append, ← List.append_assoc]
      refine ih (hlisted.append_children hpath ?_) ?_
      · intro below hbelow
        obtain ⟨item, hitem, rfl⟩ := List.mem_map.mp hbelow
        obtain ⟨child, hvisited, hitem⟩ := List.mem_flatMap.mp hitem
        rw [hchild child hvisited item hitem, List.dropLast_concat]
      · intro pending hpending
        rcases List.mem_append.mp hpending with hreached | hold
        · obtain ⟨child, hvisited, hreached⟩ :=
            List.mem_flatMap.mp (List.mem_reverse.mp hreached)
          rw [Pending.reached] at hreached
          split at hreached
          · obtain rfl := List.mem_singleton.mp hreached
            obtain ⟨content, hcontent⟩ := Option.ne_none_iff_exists'.mp (hregular child hvisited)
            refine List.mem_append_right _ (List.mem_map.mpr ⟨⟨path ++ [child.1], content⟩,
              List.mem_flatMap.mpr ⟨child, hvisited, ?_⟩, rfl⟩)
            rw [Pending.emitted, hcontent]
            exact List.mem_singleton_self _
          · exact absurd hreached List.not_mem_nil
        · exact List.mem_append_left _ (hfrontier pending (List.mem_cons_of_mem _ hold))

/-- **A walk meets no link and no special file.** By induction on the walk: each child of
a directory was looked at when the directory was listed, or is still to be met. -/
theorem not_irregular (h : Walk frontier items) {pending : Pending}
    (hpending : pending ∈ frontier) : ¬ pending.node.Irregular := by
  induction h generalizing pending with
  | done => exact absurd hpending List.not_mem_nil
  | @list path children visited frontier items hperm hregular _ ih =>
      rcases List.mem_cons.mp hpending with rfl | hold
      · rintro ⟨⟩
        rename_i child hirregular hchild
        have hvisited : child ∈ visited := hperm.mem_iff.mpr hchild
        rcases hirregular.content_or_isDirectory with hnone | hdir
        · exact hregular child hvisited hnone
        · have hreached : ⟨path ++ [child.1], child.2⟩ ∈ Pending.reached path child := by
            rw [Pending.reached, if_pos hdir]
            exact List.mem_singleton_self _
          exact ih (List.mem_append_left _ (List.mem_reverse.mpr
            (List.mem_flatMap.mpr ⟨child, hvisited, hreached⟩))) hirregular
      · exact ih (List.mem_append_right _ hold)

end Walk

end ContainerRs
