import Mathlib.Data.List.Lex
import Mathlib.Data.List.Nodup
import Mathlib.Data.List.Sort

/-!
# Sorted Maps

A finite map kept as the list of its entries in increasing order of their keys, as an ordered
map of a standard library is iterated over.

## Main results

* `SortedMap.nodup_keys`: no key occurs twice.
* `SortedMap.get?_insert`: an insertion changes what is found under its key, and nothing else.
* `SortedMap.get?_ofList_eq_some_iff`: of entries with the same key the last one is found.
* `SortedMap.filter_foldl_insert`: insertions leave alone the entries with other keys.
* `SortedMap.entries_ofList`: inserting entries with distinct keys sorts them.
-/

/-- What is found in a list of entries with distinct keys. -/
theorem List.find?_fst_eq_some_iff {κ β : Type*} [DecidableEq κ] {entries : List (κ × β)} {key : κ}
    {entry : κ × β} (hkeys : (entries.map Prod.fst).Nodup) :
    (entries.find? fun entry => entry.1 = key) = some entry ↔ entry ∈ entries ∧ entry.1 = key := by
  constructor
  · intro hfind
    exact ⟨List.mem_of_find?_eq_some hfind, of_decide_eq_true (List.find?_some hfind :)⟩
  · rintro ⟨hmem, rfl⟩
    obtain ⟨found, hfound⟩ : ∃ found, (entries.find? fun e => e.1 = entry.1) = some found :=
      Option.isSome_iff_exists.mp (List.find?_isSome.mpr ⟨_, hmem, decide_eq_true rfl⟩)
    have hkey : found.1 = entry.1 := of_decide_eq_true (List.find?_some hfound :)
    rw [hfound, List.inj_on_of_nodup_map hkeys (List.mem_of_find?_eq_some hfound) hmem hkey]

namespace SortedMap

variable {κ β : Type*}

/-- The entry is in the list, and behind it none with its key. -/
def IsLast (entry : κ × β) (entries : List (κ × β)) : Prop :=
  ∃ pre post, entries = pre ++ entry :: post ∧ entry.1 ∉ post.map Prod.fst

/-- The last entry at a key is the first one of the list, if its key does not occur again,
or is the last one of the rest. -/
theorem isLast_cons {entry head : κ × β} {entries : List (κ × β)} :
    IsLast entry (head :: entries) ↔
      head = entry ∧ entry.1 ∉ entries.map Prod.fst ∨ IsLast entry entries := by
  constructor
  · rintro ⟨pre, post, heq, hpost⟩
    cases pre with
    | nil =>
        obtain ⟨rfl, rfl⟩ := List.cons.inj heq
        exact .inl ⟨rfl, hpost⟩
    | cons first pre => exact .inr ⟨pre, post, (List.cons.inj heq).2, hpost⟩
  · rintro (⟨rfl, hentries⟩ | ⟨pre, post, rfl, hpost⟩)
    · exact ⟨[], entries, rfl, hentries⟩
    · exact ⟨head :: pre, post, rfl, hpost⟩

/-- A last entry is an entry. -/
theorem IsLast.mem {entry : κ × β} {entries : List (κ × β)} (h : IsLast entry entries) :
    entry ∈ entries := by
  obtain ⟨pre, post, rfl, -⟩ := h
  exact List.mem_append_right _ List.mem_cons_self

/-- With distinct keys every entry is a last one. -/
theorem isLast_iff_mem {entry : κ × β} {entries : List (κ × β)}
    (h : (entries.map Prod.fst).Nodup) : IsLast entry entries ↔ entry ∈ entries := by
  refine ⟨IsLast.mem, ?_⟩
  intro hmem
  obtain ⟨pre, post, rfl⟩ := List.append_of_mem hmem
  rw [List.map_append, List.map_cons] at h
  exact ⟨pre, post, rfl, (List.nodup_cons.mp h.of_append_right).1⟩

/-- The last entry with its key among those that are made of some items. By induction on
the items: the first one is passed over, or its entry is the last of its key, or a later
one is. -/
theorem isLast_filterMap {α : Type*} {f : α → Option (κ × β)} {entry : κ × β} {items : List α} :
    IsLast entry (items.filterMap f) ↔
      ∃ pre item post, items = pre ++ item :: post ∧ f item = some entry ∧
        ∀ later ∈ post, ∀ e, f later = some e → e.1 ≠ entry.1 := by
  have hnot : ∀ items : List α, entry.1 ∉ (items.filterMap f).map Prod.fst ↔
      ∀ later ∈ items, ∀ e, f later = some e → e.1 ≠ entry.1 := by
    intro items
    constructor
    · intro h later hlater e he heq
      exact h (heq ▸ List.mem_map_of_mem (List.mem_filterMap.mpr ⟨later, hlater, he⟩))
    · intro h hmem
      obtain ⟨e, he, heq⟩ := List.mem_map.mp hmem
      obtain ⟨later, hlater, hf⟩ := List.mem_filterMap.mp he
      exact h later hlater e hf heq
  induction items with
  | nil => simp [IsLast]
  | cons first items ih =>
      have hcons : (∃ pre item post, first :: items = pre ++ item :: post ∧ f item = some entry ∧
            ∀ later ∈ post, ∀ e, f later = some e → e.1 ≠ entry.1) ↔
          (f first = some entry ∧ entry.1 ∉ (items.filterMap f).map Prod.fst) ∨
            IsLast entry (items.filterMap f) := by
        rw [hnot]
        constructor
        · rintro ⟨pre, item, post, heq, hf, hpost⟩
          cases pre with
          | nil =>
              obtain ⟨rfl, rfl⟩ := List.cons.inj heq
              exact .inl ⟨hf, hpost⟩
          | cons _ pre => exact .inr (ih.mpr ⟨pre, item, post, (List.cons.inj heq).2, hf, hpost⟩)
        · rintro (⟨hf, hitems⟩ | hlast)
          · exact ⟨[], first, items, rfl, hf, hitems⟩
          · obtain ⟨pre, item, post, rfl, hf, hpost⟩ := ih.mp hlast
            exact ⟨first :: pre, item, post, rfl, hf, hpost⟩
      rw [hcons]
      cases hfirst : f first with
      | none => simp [List.filterMap_cons_none hfirst]
      | some e => rw [List.filterMap_cons_some hfirst, isLast_cons, Option.some.injEq]

end SortedMap

/-- A finite map as the sorted list of its entries. -/
structure SortedMap (κ β : Type*) [LinearOrder κ] where
  entries : List (κ × β)
  sorted : entries.Pairwise fun entry later => entry.1 < later.1

namespace SortedMap

variable {κ β : Type*} [LinearOrder κ]

/-- The map without entries. -/
def empty : SortedMap κ β := ⟨[], .nil⟩

/-- Put an entry in its place; it replaces one with the same key. -/
def insertEntry (key : κ) (value : β) : List (κ × β) → List (κ × β)
  | [] => [(key, value)]
  | entry :: entries =>
      if key < entry.1 then (key, value) :: entry :: entries
      else if entry.1 < key then entry :: insertEntry key value entries
      else (key, value) :: entries

/-- An entry behind an insertion is the new one or was there before. By induction on the
list. -/
theorem mem_insertEntry {key : κ} {value : β} {entries : List (κ × β)} {entry : κ × β}
    (h : entry ∈ insertEntry key value entries) : entry = (key, value) ∨ entry ∈ entries := by
  induction entries with
  | nil => exact .inl (List.mem_singleton.mp h)
  | cons head entries ih =>
      rw [insertEntry] at h
      split at h
      · exact List.mem_cons.mp h
      split at h
      · rcases List.mem_cons.mp h with rfl | h
        · exact .inr List.mem_cons_self
        · exact (ih h).imp_right (List.mem_cons_of_mem _)
      · exact (List.mem_cons.mp h).imp_right (List.mem_cons_of_mem _)

/-- **An insertion keeps the keys in order**, by induction on the entries in front of the
place of the new one. -/
theorem sorted_insertEntry {key : κ} {value : β} {entries : List (κ × β)}
    (h : entries.Pairwise fun entry later => entry.1 < later.1) :
    (insertEntry key value entries).Pairwise fun entry later => entry.1 < later.1 := by
  induction entries with
  | nil => exact List.pairwise_singleton _ _
  | cons head entries ih =>
      obtain ⟨hhead, hentries⟩ := List.pairwise_cons.mp h
      rw [insertEntry]
      split
      · next hlt =>
          refine List.pairwise_cons.mpr ⟨?_, h⟩
          intro later hlater
          rcases List.mem_cons.mp hlater with rfl | hlater
          · exact hlt
          · exact hlt.trans (hhead later hlater)
      · next hge =>
          split
          · next hlt =>
              refine List.pairwise_cons.mpr ⟨?_, ih hentries⟩
              intro later hlater
              rcases mem_insertEntry hlater with rfl | hlater
              · exact hlt
              · exact hhead later hlater
          · next hle =>
              have hkey : key = head.1 := le_antisymm (not_lt.mp hle) (not_lt.mp hge)
              refine List.pairwise_cons.mpr ⟨?_, hentries⟩
              intro later hlater
              rw [hkey]
              exact hhead later hlater

/-- Insert an entry. -/
def insert (map : SortedMap κ β) (key : κ) (value : β) : SortedMap κ β :=
  ⟨insertEntry key value map.entries, sorted_insertEntry map.sorted⟩

/-- Insert entries one after the other. -/
def ofList (entries : List (κ × β)) : SortedMap κ β :=
  entries.foldl (fun map entry => map.insert entry.1 entry.2) empty

/-- The value under a key. -/
def get? (map : SortedMap κ β) (key : κ) : Option β :=
  (map.entries.find? fun entry => entry.1 = key).map Prod.snd

/-- A map is given by its entries. -/
theorem eq_of_entries {map map' : SortedMap κ β} (h : map.entries = map'.entries) :
    map = map' := by
  obtain ⟨entries, hsorted⟩ := map
  obtain ⟨entries', hsorted'⟩ := map'
  obtain rfl : entries = entries' := h
  rfl

/-- **No key occurs twice.** -/
theorem nodup_keys (map : SortedMap κ β) : (map.entries.map Prod.fst).Nodup := by
  rw [List.nodup_iff_pairwise_ne, List.pairwise_map]
  exact map.sorted.imp ne_of_lt

/-- What is found is an entry. -/
theorem get?_eq_some_iff {map : SortedMap κ β} {key : κ} {value : β} :
    map.get? key = some value ↔ (key, value) ∈ map.entries := by
  rw [get?, Option.map_eq_some_iff]
  constructor
  · rintro ⟨entry, hfind, rfl⟩
    obtain ⟨hmem, rfl⟩ := (List.find?_fst_eq_some_iff map.nodup_keys).mp hfind
    exact hmem
  · intro hmem
    exact ⟨_, (List.find?_fst_eq_some_iff map.nodup_keys).mpr ⟨hmem, rfl⟩, rfl⟩

@[simp] theorem get?_empty (key : κ) : (empty : SortedMap κ β).get? key = none := rfl

/-- **An insertion changes what is found under its key, and nothing else.** By induction
on the entries: the new one is put in front of them, goes further back, or takes the place
of the one under its key. -/
theorem get?_insert (map : SortedMap κ β) (key key' : κ) (value : β) :
    (map.insert key value).get? key' = if key' = key then some value else map.get? key' := by
  obtain ⟨entries, hsorted⟩ := map
  simp only [get?, insert]
  induction entries with
  | nil =>
      by_cases h : key' = key
      · simp [insertEntry, h]
      · simp [insertEntry, h, Ne.symm h]
  | cons head entries ih =>
      have ih := ih (List.pairwise_cons.mp hsorted).2
      rw [insertEntry]
      split
      · by_cases h : key' = key
        · simp [h]
        · simp [h, List.find?_cons, Ne.symm h]
      · split
        · next hlt =>
            by_cases h : head.1 = key'
            · have hne : key' ≠ key := h ▸ hlt.ne
              simp [h, hne]
            · simpa [List.find?_cons, h] using ih
        · next hge hle =>
            obtain rfl : key = head.1 := le_antisymm (not_lt.mp hle) (not_lt.mp hge)
            by_cases h : key' = head.1
            · simp [h]
            · simp [h, Ne.symm h]

/-- What is found after insertions: the last one under the key, or what was there. By
induction on the insertions, of which the next may be of another key. -/
theorem get?_foldl_insert {entries : List (κ × β)} (map : SortedMap κ β) {key : κ} {value : β} :
    (entries.foldl (fun map entry => map.insert entry.1 entry.2) map).get? key = some value ↔
      IsLast (key, value) entries ∨ key ∉ entries.map Prod.fst ∧ map.get? key = some value := by
  induction entries generalizing map with
  | nil => simp [IsLast]
  | cons head entries ih =>
      obtain ⟨key', value'⟩ := head
      rw [List.foldl_cons, ih, get?_insert, isLast_cons, List.map_cons, List.mem_cons]
      by_cases hkey : key = key'
      · subst hkey
        simp only [if_pos, Prod.mk.injEq, true_and, Option.some.injEq, true_or, not_true_eq_false,
          false_and, or_false]
        tauto
      · simp [hkey, Ne.symm hkey]

/-- **Of entries with the same key the last one is found.** -/
theorem get?_ofList_eq_some_iff {entries : List (κ × β)} {key : κ} {value : β} :
    (ofList entries).get? key = some value ↔ IsLast (key, value) entries := by
  rw [ofList, get?_foldl_insert, get?_empty]
  simp

/-- The entries of a map built from a list are the last ones with their keys. -/
theorem mem_entries_ofList {entries : List (κ × β)} {entry : κ × β} :
    entry ∈ (ofList entries).entries ↔ IsLast entry entries := by
  rw [← get?_eq_some_iff, get?_ofList_eq_some_iff]

/-- An insertion leaves alone the entries with other keys, by induction on the entries
that it passes. -/
theorem filter_insertEntry {p : κ → Bool} {key : κ} (hkey : p key = false) (value : β)
    (entries : List (κ × β)) :
    (insertEntry key value entries).filter (fun entry => p entry.1) =
      entries.filter fun entry => p entry.1 := by
  induction entries with
  | nil => exact List.filter_cons_of_neg (by simp [hkey])
  | cons head entries ih =>
      rw [insertEntry]
      split
      · exact List.filter_cons_of_neg (by simp [hkey])
      next hge =>
        split
        · rw [List.filter_cons, ih, List.filter_cons]
        next hle =>
          obtain rfl : key = head.1 := le_antisymm (not_lt.mp hle) (not_lt.mp hge)
          rw [List.filter_cons_of_neg (by simp [hkey]), List.filter_cons_of_neg (by simp [hkey])]

/-- **Insertions leave alone the entries with other keys.** By induction on what is
inserted. -/
theorem filter_foldl_insert {p : κ → Bool} {entries : List (κ × β)} (map : SortedMap κ β)
    (hkeys : ∀ entry ∈ entries, p entry.1 = false) :
    (entries.foldl (fun map entry => map.insert entry.1 entry.2) map).entries.filter
        (fun entry => p entry.1) =
      map.entries.filter fun entry => p entry.1 := by
  induction entries generalizing map with
  | nil => rfl
  | cons entry entries ih =>
      rw [List.forall_mem_cons] at hkeys
      rw [List.foldl_cons, ih _ hkeys.2]
      exact filter_insertEntry hkeys.1 entry.2 map.entries

/-- The entries of a second list are inserted behind those of the first. -/
theorem ofList_append (entries entries' : List (κ × β)) :
    ofList (entries ++ entries') =
      entries'.foldl (fun map entry => map.insert entry.1 entry.2) (ofList entries) :=
  List.foldl_append

/-- An entry with a new key is added. By induction on the list: the key is not there to be
replaced. -/
theorem perm_insertEntry {key : κ} {value : β} {entries : List (κ × β)}
    (h : key ∉ entries.map Prod.fst) :
    (insertEntry key value entries).Perm ((key, value) :: entries) := by
  induction entries with
  | nil => exact List.Perm.refl _
  | cons head entries ih =>
      rw [List.map_cons, List.mem_cons, not_or] at h
      rw [insertEntry]
      split
      · exact List.Perm.refl _
      next hge =>
        rw [if_pos (lt_of_le_of_ne (not_lt.mp hge) (Ne.symm h.1))]
        exact ((ih h.2).cons _).trans (List.Perm.swap _ _ _)

/-- Entries with new and distinct keys are added. By induction on them: each is new to
those that are there, the ones inserted before it included. -/
theorem perm_foldl_insert {entries : List (κ × β)} (map : SortedMap κ β)
    (hnodup : (entries.map Prod.fst).Nodup)
    (hnew : ∀ entry ∈ entries, entry.1 ∉ map.entries.map Prod.fst) :
    (entries.foldl (fun map entry => map.insert entry.1 entry.2) map).entries.Perm
      (entries ++ map.entries) := by
  induction entries generalizing map with
  | nil => exact List.Perm.refl _
  | cons entry entries ih =>
      rw [List.map_cons, List.nodup_cons] at hnodup
      have hadded : (map.insert entry.1 entry.2).entries.Perm (entry :: map.entries) :=
        perm_insertEntry (hnew entry List.mem_cons_self)
      refine (ih (map.insert entry.1 entry.2) hnodup.2 ?_).trans ?_
      · intro later hlater hmem
        rw [(hadded.map Prod.fst).mem_iff, List.map_cons, List.mem_cons] at hmem
        rcases hmem with heq | hmem
        · exact hnodup.1 (heq ▸ List.mem_map_of_mem hlater)
        · exact hnew later (List.mem_cons_of_mem _ hlater) hmem
      · exact (hadded.append_left entries).trans List.perm_middle

/-- Entries in order of their keys. -/
def sortByKey (entries : List (κ × β)) : List (κ × β) :=
  entries.insertionSort fun entry later => entry.1 ≤ later.1

/-- Sorting only moves the entries. -/
theorem perm_sortByKey (entries : List (κ × β)) : (sortByKey entries).Perm entries :=
  List.perm_insertionSort _ entries

/-- Sorted entries are in the order of their keys; equal keys may stand side by side. -/
theorem pairwise_sortByKey (entries : List (κ × β)) :
    (sortByKey entries).Pairwise fun entry later => entry.1 ≤ later.1 := by
  have htotal : Std.Total fun entry later : κ × β => entry.1 ≤ later.1 :=
    ⟨fun entry later => le_total entry.1 later.1⟩
  have htrans : IsTrans (κ × β) fun entry later => entry.1 ≤ later.1 :=
    ⟨fun _ _ _ => le_trans⟩
  exact List.pairwise_insertionSort _ entries

/-- **Inserting entries with distinct keys sorts them.** Both are sorted by key and have
the same entries. -/
theorem entries_ofList {entries : List (κ × β)} (h : (entries.map Prod.fst).Nodup) :
    (ofList entries).entries = sortByKey entries := by
  have hperm : (ofList entries).entries.Perm entries := by
    have hfold := perm_foldl_insert empty h fun _ _ => List.not_mem_nil
    rwa [empty, List.append_nil] at hfold
  have hsorted := (ofList entries).sorted.imp le_of_lt
  refine List.Perm.eq_of_pairwise ?_ hsorted (pairwise_sortByKey entries)
    (hperm.trans (perm_sortByKey entries).symm)
  intro entry later hentry hlater hle hge
  exact List.inj_on_of_nodup_map h (hperm.mem_iff.mp hentry)
    ((perm_sortByKey entries).mem_iff.mp hlater) (le_antisymm hle hge)

/-- A map is built again from its entries. -/
theorem ofList_entries (map : SortedMap κ β) : ofList map.entries = map := by
  apply eq_of_entries
  rw [entries_ofList map.nodup_keys]
  exact (map.sorted.imp le_of_lt).insertionSort_eq

/-- Sorting by the keys does not look at the values. -/
theorem map_sortByKey {γ : Type*} (f : β → γ) (entries : List (κ × β)) :
    (sortByKey entries).map (fun entry => (entry.1, f entry.2)) =
      sortByKey (entries.map fun entry => (entry.1, f entry.2)) :=
  List.map_insertionSort _ _ _ _ fun _ _ _ _ => Iff.rfl

/-- Sorting leaves no entry out. -/
@[simp] theorem isEmpty_sortByKey (entries : List (κ × β)) :
    (sortByKey entries).isEmpty = entries.isEmpty :=
  (perm_sortByKey entries).isEmpty_eq

end SortedMap
