import Mathlib.Data.List.Basic

/-!
# Fields Between Separators

Fields written one after the other with a separator between them, and read back by splitting
at the separators. The reading is right for exactly those fields that do not have the
separator in them.

## Main results

* `takeWhile_ne_append`: a field is what stands in front of the first separator.
* `mem_intercalate`: what is written is separators and symbols of the fields.
* `notMem_of_mem_splitOn`: no field that is read has the separator.
* `splitOn_intercalate_iff`: the fields that are written are read back exactly if none has it.
-/

namespace Fields

variable {α : Type*}

/-- What is written is separators and symbols of the fields, by induction on the
fields. -/
theorem mem_intercalate {separator c : α} {fields : List (List α)}
    (h : c ∈ [separator].intercalate fields) : c = separator ∨ ∃ field ∈ fields, c ∈ field := by
  induction fields with
  | nil => exact absurd h List.not_mem_nil
  | cons field fields ih =>
      by_cases hnil : fields = []
      · rw [hnil, List.intercalate_singleton] at h
        exact .inr ⟨field, List.mem_cons_self, h⟩
      · rw [List.intercalate_cons_of_ne_nil hnil, List.append_assoc, List.singleton_append,
          List.mem_append, List.mem_cons] at h
        rcases h with h | rfl | h
        · exact .inr ⟨field, List.mem_cons_self, h⟩
        · exact .inl rfl
        · obtain hsep | ⟨other, hother, hmem⟩ := ih h
          · exact .inl hsep
          · exact .inr ⟨other, List.mem_cons_of_mem _ hother, hmem⟩

section

variable [DecidableEq α] {separator : α} {field : List α}

/-- A field is what stands in front of the first separator. -/
theorem takeWhile_ne_append (h : separator ∉ field) (rest : List α) :
    (field ++ separator :: rest).takeWhile (fun c => decide (c ≠ separator)) = field := by
  induction field with
  | nil => simp
  | cons c field ih =>
      rw [List.mem_cons, not_or] at h
      rw [List.cons_append, List.takeWhile_cons_of_pos (by simp [Ne.symm h.1]), ih h.2]

/-- Without a separator the text is one field. -/
theorem takeWhile_ne_self (h : separator ∉ field) :
    field.takeWhile (fun c => decide (c ≠ separator)) = field := by
  induction field with
  | nil => rfl
  | cons c field ih =>
      rw [List.mem_cons, not_or] at h
      rw [List.takeWhile_cons_of_pos (by simp [Ne.symm h.1]), ih h.2]

/-- A field without the separator is skipped as a whole. -/
theorem dropWhile_ne_self (h : separator ∉ field) :
    field.dropWhile (fun c => decide (c ≠ separator)) = [] := by
  induction field with
  | nil => rfl
  | cons c field ih =>
      rw [List.mem_cons, not_or] at h
      rw [List.dropWhile_cons_of_pos (by simp [Ne.symm h.1]), ih h.2]

/-- Behind the field the text goes on with the separator. -/
theorem dropWhile_ne_append (h : separator ∉ field) (rest : List α) :
    (field ++ separator :: rest).dropWhile (fun c => decide (c ≠ separator)) =
      separator :: rest := by
  induction field with
  | nil => simp
  | cons c field ih =>
      rw [List.mem_cons, not_or] at h
      rw [List.cons_append, List.dropWhile_cons_of_pos (by simp [Ne.symm h.1]), ih h.2]

end

variable [BEq α] [LawfulBEq α]

/-- **No field that is read has the separator.** By induction on the text: a separator
begins a new field, and any other symbol is put in front of the first one. -/
theorem notMem_of_mem_splitOn {separator : α} {text field : List α}
    (h : field ∈ text.splitOn separator) : separator ∉ field := by
  induction text generalizing field with
  | nil =>
      obtain rfl := List.mem_singleton.mp h
      exact List.not_mem_nil
  | cons c text ih =>
      rw [List.splitOn_cons_eq_if_modifyHead] at h
      split at h
      · rcases List.mem_cons.mp h with rfl | h
        · exact List.not_mem_nil
        · exact ih h
      · next hc =>
          obtain ⟨first, fields, hsplit⟩ :=
            List.exists_cons_of_ne_nil (List.splitOn_ne_nil separator text)
          rw [hsplit] at h ih
          rcases List.mem_cons.mp h with rfl | h
          · intro hmem
            rcases List.mem_cons.mp hmem with rfl | hmem
            · exact hc BEq.rfl
            · exact ih List.mem_cons_self hmem
          · exact ih (List.mem_cons_of_mem _ h)

/-- **The fields that are written are read back** exactly if none has the separator. -/
theorem splitOn_intercalate_iff {separator : α} {fields : List (List α)} (hne : fields ≠ []) :
    ([separator].intercalate fields).splitOn separator = fields ↔
      ∀ field ∈ fields, separator ∉ field := by
  constructor
  · intro h field hfield
    rw [← h] at hfield
    exact notMem_of_mem_splitOn hfield
  · intro h
    exact List.splitOn_intercalate separator h hne

end Fields
