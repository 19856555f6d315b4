import ContainerRs.Lib.Fields
import Mathlib.Data.List.Basic
import Mathlib.Data.List.Nodup
import Mathlib.Data.List.Infix
import Mathlib.Data.List.Induction

/-!
# Paths as Lists of Components

A path is the list of its components, outermost first; written out, the components stand
with a separator between them (`List.intercalate`) and are read back by cutting at every
separator (`List.splitOn`).

A listing of paths is `ParentFirst` if every path comes behind the one it lies directly in.

## Main results

* `splitOn_ne_nil_of_separated`: cutting text with no leading, trailing or doubled separator
  yields no empty component.
* `above_of_intercalate_above`: a prefix of the text that ends in a separator is a prefix
  of the path.
* `ParentFirst.mem_of_above`: a listing that is parent-first holds everything above a path.
* `ParentFirst.pairwise`: without repetitions, nothing comes before something above it.
-/

namespace Paths

variable {α : Type*}

/-- A path as text with a further component, behind a separator if none is there yet. -/
def push [DecidableEq α] (sep : α) (path name : List α) : List α :=
  if path = [] ∨ path.getLast? = some sep then path ++ name else path ++ sep :: name

/-! ### Paths as text -/

section Text

variable {sep : α} {above path : List (List α)}

/-- Two paths in a row are written with a separator between them. By induction on the path
in front. -/
theorem intercalate_append (habove : above ≠ []) (hpath : path ≠ []) :
    [sep].intercalate (above ++ path) =
      [sep].intercalate above ++ sep :: [sep].intercalate path := by
  induction above with
  | nil => exact absurd rfl habove
  | cons c above ih =>
      by_cases hnil : above = []
      · subst hnil
        rw [List.singleton_append, List.intercalate_cons_of_ne_nil hpath,
          List.intercalate_singleton, List.append_assoc, List.singleton_append]
      · have hne : above ++ path ≠ [] := List.append_ne_nil_of_left_ne_nil hnil _
        rw [List.cons_append, List.intercalate_cons_of_ne_nil hne, ih hnil,
          List.intercalate_cons_of_ne_nil hnil, List.append_assoc, List.append_assoc,
          List.append_assoc, List.singleton_append]

/-- The text of a nonempty path begins with its first component. -/
theorem prefix_intercalate (sep : α) (c : List α) (path : List (List α)) :
    c <+: [sep].intercalate (c :: path) := by
  by_cases hpath : path = []
  · rw [hpath, List.intercalate_singleton]
  · rw [List.intercalate_cons_of_ne_nil hpath, List.append_assoc]
    exact List.prefix_append _ _

/-- The text of a path with no empty component is not empty and does not begin with a
separator. -/
theorem head?_intercalate {sep : α} (hpath : path ≠ []) (hne : ∀ c ∈ path, c ≠ [])
    (hsep : ∀ c ∈ path, sep ∉ c) :
    ∃ x, x ≠ sep ∧ ([sep].intercalate path).head? = some x := by
  obtain ⟨c, path, rfl⟩ := List.exists_cons_of_ne_nil hpath
  obtain ⟨x, c, rfl⟩ := List.exists_cons_of_ne_nil (hne c List.mem_cons_self)
  obtain ⟨rest, hrest⟩ := prefix_intercalate sep (x :: c) path
  refine ⟨x, ?_, by rw [← hrest]; rfl⟩
  rintro rfl
  exact hsep _ List.mem_cons_self List.mem_cons_self

/-- The text of a path ends with its last component. -/
theorem suffix_intercalate (sep : α) (path : List (List α)) (c : List α) :
    c <:+ [sep].intercalate (path ++ [c]) := by
  by_cases hpath : path = []
  · rw [hpath, List.nil_append, List.intercalate_singleton]
  · rw [intercalate_append hpath (List.cons_ne_nil _ _), List.intercalate_singleton]
    exact (List.suffix_cons _ _).trans (List.suffix_append _ _)

/-- The text of a path with no empty component does not end in a separator. -/
theorem getLast?_intercalate (hpath : path ≠ []) (hne : ∀ c ∈ path, c ≠ [])
    (hsep : ∀ c ∈ path, sep ∉ c) : ([sep].intercalate path).getLast? ≠ some sep := by
  intro hlast
  obtain ⟨path, c, rfl⟩ := List.eq_nil_or_concat' path |>.resolve_left hpath
  have hmem : c ∈ path ++ [c] := List.mem_append_right _ List.mem_cons_self
  obtain ⟨front, hfront⟩ := suffix_intercalate sep path c
  rw [← hfront, List.getLast?_append_of_ne_nil _ (hne c hmem)] at hlast
  exact hsep c hmem (List.mem_of_getLast? hlast)

variable [DecidableEq α]

/-- Paths of components without separators are told apart by their text. -/
theorem intercalate_injective {path' : List (List α)} (hpath : path ≠ []) (hpath' : path' ≠ [])
    (hsep : ∀ c ∈ path, sep ∉ c) (hsep' : ∀ c ∈ path', sep ∉ c)
    (h : [sep].intercalate path = [sep].intercalate path') : path = path' := by
  rw [← List.splitOn_intercalate sep hsep hpath, h, List.splitOn_intercalate sep hsep' hpath']

/-- Where the text of a path begins with the text of another and a separator, the other path
lies above. -/
theorem above_of_intercalate_above (habove : above ≠ []) (hsep : ∀ c ∈ above, sep ∉ c)
    (hpath : path ≠ []) (hsep' : ∀ c ∈ path, sep ∉ c)
    (h : [sep].intercalate above ++ [sep] <+: [sep].intercalate path) : above <+: path := by
  obtain ⟨rest, hrest⟩ := h
  refine ⟨rest.splitOn sep, ?_⟩
  rw [← List.splitOn_intercalate sep hsep' hpath, ← hrest, List.append_assoc,
    List.singleton_append, List.splitOn_append_cons_self,
    List.splitOn_intercalate sep hsep habove]

/-- Text with no leading, trailing or doubled separator has no empty component. An empty
component would stand at the start, at the end, or between two separators. -/
theorem splitOn_ne_nil_of_separated {text : List α} (hne : text ≠ [])
    (hhead : text.head? ≠ some sep) (hlast : text.getLast? ≠ some sep)
    (hdouble : ¬ [sep, sep] <:+: text) : ∀ c ∈ text.splitOn sep, c ≠ [] := by
  rintro c hc rfl
  have htext : [sep].intercalate (text.splitOn sep) = text := List.intercalate_splitOn sep
  obtain ⟨before, after, hparts⟩ := List.append_of_mem hc
  rw [hparts] at htext
  by_cases hbefore : before = [] <;> by_cases hafter : after = []
  · subst hbefore hafter
    exact hne htext.symm
  · rw [hbefore, List.nil_append, List.intercalate_cons_of_ne_nil hafter] at htext
    exact hhead (by rw [← htext]; rfl)
  · rw [hafter, intercalate_append hbefore (List.cons_ne_nil _ _)] at htext
    exact hlast (by rw [← htext]; simp)
  · rw [intercalate_append hbefore (List.cons_ne_nil _ _),
      List.intercalate_cons_of_ne_nil hafter] at htext
    exact hdouble ⟨[sep].intercalate before, [sep].intercalate after, by simpa using htext⟩

end Text

/-! ### Listings -/

/-- Without the empty one, the initial segments of a longer path are those of the path and
the longer path itself. -/
theorem tail_inits_concat (path : List α) (x : α) :
    (path ++ [x]).inits.tail = path.inits.tail ++ [path ++ [x]] := by
  cases path <;> simp [List.inits_append]

/-- The nonempty prefixes of a path are its inits without the first one. -/
theorem mem_tail_inits {above path : List α} :
    above ∈ path.inits.tail ↔ above <+: path ∧ above ≠ [] := by
  cases path with
  | nil =>
      constructor
      · intro h
        exact absurd h List.not_mem_nil
      · rintro ⟨hlies, hne⟩
        exact absurd (List.prefix_nil.mp hlies) hne
  | cons x path =>
      rw [← List.mem_inits, List.inits_cons, List.tail_cons, List.mem_cons]
      constructor
      · intro h
        refine ⟨.inr h, ?_⟩
        rintro rfl
        obtain ⟨rest, -, hrest⟩ := List.mem_map.mp h
        exact List.cons_ne_nil _ _ hrest
      · rintro ⟨rfl | h, hne⟩
        · exact absurd rfl hne
        · exact h

/-- No prefix of a path is counted twice, for they are of different lengths. By induction
on the path, from its end. -/
theorem nodup_tail_inits (path : List α) : path.inits.tail.Nodup := by
  induction path using List.reverseRecOn with
  | nil => exact List.nodup_nil
  | append_singleton path x ih =>
      rw [tail_inits_concat, List.nodup_append]
      refine ⟨ih, List.nodup_singleton _, ?_⟩
      rintro above habove _ hlonger rfl
      obtain rfl := List.mem_singleton.mp hlonger
      have hle := (mem_tail_inits.mp habove).1.length_le
      rw [List.length_append, List.length_singleton] at hle
      omega

/-- A listing in which every path comes behind the one it lies directly in. -/
inductive ParentFirst : List (List α) → Prop
  | nil : ParentFirst []
  | snoc {paths : List (List α)} {path : List α} :
      ParentFirst paths → path.dropLast = [] ∨ path.dropLast ∈ paths →
      ParentFirst (paths ++ [path])

namespace ParentFirst

variable {paths : List (List α)}

/-- **Everything above a listed path is listed.** By induction on the list: a path is old,
and then what is above it is listed already, or it is the one added last, whose parents
had to be there. -/
theorem mem_of_above (h : ParentFirst paths) {path above : List α} (hpath : path ∈ paths)
    (habove : above <+: path) (hne : above ≠ []) : above ∈ paths := by
  induction h generalizing path above with
  | nil => exact absurd hpath List.not_mem_nil
  | @snoc paths last _ hparent ih =>
      rcases List.mem_append.mp hpath with hold | hlast
      · exact List.mem_append_left _ (ih hold habove hne)
      · obtain rfl := List.mem_singleton.mp hlast
        have hpne : path ≠ [] := by
          rintro rfl
          exact hne (List.prefix_nil.mp habove)
        rw [← List.dropLast_append_getLast hpne] at habove
        rcases List.prefix_concat_iff.mp habove with heq | habove
        · rw [heq, List.dropLast_append_getLast hpne]
          exact hpath
        · rcases hparent with hnil | hmem
          · rw [hnil] at habove
            exact absurd (List.prefix_nil.mp habove) hne
          · exact List.mem_append_left _ (ih hmem habove hne)

/-- **Nothing comes before something above it**: without repetitions, no later path is above
or at an earlier one. -/
theorem pairwise (h : ParentFirst paths) (hnodup : paths.Nodup) (hne : [] ∉ paths) :
    paths.Pairwise fun path later => ¬ later <+: path := by
  induction h with
  | nil => exact List.Pairwise.nil
  | @snoc paths last hbefore _ ih =>
      rw [List.nodup_append] at hnodup
      obtain ⟨hnodup, -, hfresh⟩ := hnodup
      rw [List.mem_append, not_or, List.mem_singleton] at hne
      refine List.pairwise_append.mpr ⟨ih hnodup hne.1, List.pairwise_singleton _ _, ?_⟩
      intro path hpath later hlater hlies
      obtain rfl := List.mem_singleton.mp hlater
      exact hfresh _ (hbefore.mem_of_above hpath hlies (Ne.symm hne.2)) _ hlater rfl

/-- What lies directly in a listed path may be listed in any order. By induction on the
children, whose parent stays listed. -/
theorem append_children (h : ParentFirst paths) {parent : List α} (hparent : parent ∈ paths)
    {children : List (List α)} (hchildren : ∀ path ∈ children, path.dropLast = parent) :
    ParentFirst (paths ++ children) := by
  induction children generalizing paths with
  | nil => rwa [List.append_nil]
  | cons path children ih =>
      have hpath : path.dropLast ∈ paths := by
        rw [hchildren path List.mem_cons_self]
        exact hparent
      rw [List.append_cons]
      exact ih (h.snoc (.inr hpath)) (List.mem_append_left _ hparent)
        fun path hmem => hchildren path (List.mem_cons_of_mem _ hmem)

/-- The nonempty initial segments of a path, shortest first. By induction on the path,
from its end. -/
theorem inits (path : List α) : ParentFirst path.inits.tail := by
  induction path using List.reverseRecOn with
  | nil => exact .nil
  | append_singleton path x ih =>
      rw [tail_inits_concat]
      refine ih.snoc ?_
      rw [List.dropLast_concat]
      by_cases hpath : path = []
      · exact .inl hpath
      · exact .inr (mem_tail_inits.mpr ⟨List.prefix_rfl, hpath⟩)

end ParentFirst

end Paths
