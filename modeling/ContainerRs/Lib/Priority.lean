import Mathlib.Logic.Basic

/-!
# Choice by Classes

Classes of elements are listed in the order of preference. The choice from a list is the
first element of the first class that has one in the list.

## Main results

* `choose_eq_some_iff`: what is chosen.
* `choose_eq_none_iff`: nothing is chosen exactly if all classes are empty.
-/

namespace Priority

variable {α : Type*}

/-- The first element of the first class that is not empty. -/
def choose (classes : List (α → Bool)) (items : List α) : Option α :=
  classes.findSome? fun c => items.find? c

/-- The first element of a class. -/
def IsFirst (c : α → Bool) (items : List α) (x : α) : Prop :=
  ∃ before after, items = before ++ x :: after ∧ c x ∧ ∀ y ∈ before, ¬ c y

/-- The first element of a class that is not empty, all classes above it being empty. -/
def IsChoice (classes : List (α → Bool)) (items : List α) (x : α) : Prop :=
  ∃ above c below, classes = above ++ c :: below ∧ (∀ c' ∈ above, ∀ y ∈ items, ¬ c' y) ∧
    IsFirst c items x

/-- The first element of a class is an element, and of the class. -/
theorem IsFirst.mem {c : α → Bool} {items : List α} {x : α} (h : IsFirst c items x) :
    x ∈ items ∧ c x := by
  obtain ⟨before, after, rfl, hx, -⟩ := h
  exact ⟨List.mem_append_right _ List.mem_cons_self, hx⟩

/-- What `find?` returns is the first element of the class. -/
theorem find?_eq_some_iff {c : α → Bool} {items : List α} {x : α} :
    items.find? c = some x ↔ IsFirst c items x := by
  rw [List.find?_eq_some_iff_append]
  constructor
  · rintro ⟨hx, before, after, hitems, hbefore⟩
    exact ⟨before, after, hitems, hx, fun y hy => by simpa using hbefore y hy⟩
  · rintro ⟨before, after, hitems, hx, hbefore⟩
    exact ⟨hx, before, after, hitems, fun y hy => by simpa using hbefore y hy⟩

/-- **What is chosen**: the first element of the first class that has one. -/
theorem choose_eq_some_iff {classes : List (α → Bool)} {items : List α} {x : α} :
    choose classes items = some x ↔ IsChoice classes items x := by
  rw [choose, List.findSome?_eq_some_iff]
  constructor
  · rintro ⟨above, c, below, hclasses, hc, habove⟩
    exact ⟨above, c, below, hclasses, fun c' hc' => List.find?_eq_none.mp (habove c' hc'),
      find?_eq_some_iff.mp hc⟩
  · rintro ⟨above, c, below, hclasses, habove, hc⟩
    exact ⟨above, c, below, hclasses, find?_eq_some_iff.mpr hc,
      fun c' hc' => List.find?_eq_none.mpr (habove c' hc')⟩

/-- **Nothing is chosen** exactly if all classes are empty. -/
theorem choose_eq_none_iff {classes : List (α → Bool)} {items : List α} :
    choose classes items = none ↔ ∀ c ∈ classes, ∀ x ∈ items, ¬ c x := by
  rw [choose, List.findSome?_eq_none_iff]
  exact forall₂_congr fun c _ => List.find?_eq_none

/-- A choice is in the list and in one of the classes. -/
theorem IsChoice.mem {classes : List (α → Bool)} {items : List α} {x : α}
    (h : IsChoice classes items x) : x ∈ items ∧ ∃ c ∈ classes, c x := by
  obtain ⟨above, c, below, rfl, -, hfirst⟩ := h
  obtain ⟨hx, hc⟩ := hfirst.mem
  exact ⟨hx, c, List.mem_append_right _ List.mem_cons_self, hc⟩

end Priority
