import ApiAnnotation.SortedMap.Lemmas
import Mathlib.Data.List.Induction

/-!
# Sorting entries

Entries are sorted by entering them one after the other. This keeps values as they are, so they may
as well be changed before or after, and it leaves entries alone that are in order.

## Main statements

* `ApiAnnotation.Entries.Sorted.sort_eq`: entries in order are left alone.
* `ApiAnnotation.Entries.sort_map`: values may be changed before or after.
* `ApiAnnotation.Entries.lookup_sort`: the last value of a key is found.
* `ApiAnnotation.SortedMap.get?_ofList_map`: so it is in a map that is made of items.
-/

namespace ApiAnnotation

universe u v

variable {α : Type u} {β : Type v}

namespace Entries

/-- The entries with `f` applied to every value. -/
def mapValues (f : α → β) (entries : List (String × α)) : List (String × β) :=
  entries.map fun entry => (entry.1, f entry.2)

theorem mem_insert {key : String} {a : α} {entries : List (String × α)} {entry : String × α}
    (h : entry ∈ insert key a entries) : entry = (key, a) ∨ entry ∈ entries := by
  induction entries with
  | nil => exact Or.inl (List.mem_singleton.mp h)
  | cons e rest ih =>
    obtain ⟨k, b⟩ := e
    rw [insert] at ih h
    rw [alter] at h
    split at h
    · exact List.mem_cons.mp h
    · split at h
      · rcases List.mem_cons.mp h with rfl | h
        · next heq => exact Or.inl (by rw [heq])
        · exact Or.inr (List.mem_cons_of_mem _ h)
      · rcases List.mem_cons.mp h with rfl | h
        · exact Or.inr List.mem_cons_self
        · exact (ih h).imp_right (List.mem_cons_of_mem _)

/-- A sorted entry is one of those that were entered. -/
theorem mem_sort {entries : List (String × α)} {entry : String × α} (h : entry ∈ sort entries) :
    entry ∈ entries := by
  suffices hfold : ∀ acc : List (String × α),
      entry ∈ entries.foldl (fun sorted e => insert e.1 e.2 sorted) acc →
        entry ∈ acc ∨ entry ∈ entries by
    exact (hfold [] h).resolve_left List.not_mem_nil
  clear h
  induction entries with
  | nil => exact fun acc h => Or.inl h
  | cons e rest ih =>
    intro acc h
    rcases ih _ h with h | h
    · rcases mem_insert h with rfl | h
      · exact Or.inr List.mem_cons_self
      · exact Or.inl h
    · exact Or.inr (List.mem_cons_of_mem _ h)

/-- An entry whose key comes last is entered at the end. -/
theorem insert_of_forall_lt {key : String} (a : α) {entries : List (String × α)}
    (h : ∀ entry ∈ entries, entry.1 < key) : insert key a entries = entries ++ [(key, a)] := by
  induction entries with
  | nil => rfl
  | cons e rest ih =>
    obtain ⟨k, b⟩ := e
    have hk : k < key := h (k, b) List.mem_cons_self
    have hne : key ≠ k := fun heq => String.lt_irrefl k (heq ▸ hk)
    have hrest := ih fun entry hmem => h entry (List.mem_cons_of_mem _ hmem)
    rw [insert] at hrest ⊢
    rw [alter, if_neg (String.lt_asymm hk), if_neg hne, hrest]
    rfl

/-- **Entries in order are left alone.** -/
theorem Sorted.sort_eq {entries : List (String × α)} (h : Sorted entries) :
    sort entries = entries := by
  suffices hfold : ∀ acc rest : List (String × α), Sorted (acc ++ rest) →
      rest.foldl (fun sorted e => insert e.1 e.2 sorted) acc = acc ++ rest from
    hfold [] entries h
  intro acc rest
  induction rest generalizing acc with
  | nil => exact fun _ => (List.append_nil acc).symm
  | cons e rest ih =>
    intro h
    have hlt : ∀ entry ∈ acc, entry.1 < e.1 := fun entry hmem =>
      (List.pairwise_append.mp h).2.2 entry hmem e List.mem_cons_self
    rw [List.foldl_cons, insert_of_forall_lt e.2 hlt, ih _ (by simpa using h), List.append_assoc]
    rfl

theorem insert_mapValues (f : α → β) (key : String) (a : α) (entries : List (String × α)) :
    insert key (f a) (mapValues f entries) = mapValues f (insert key a entries) := by
  induction entries with
  | nil => rfl
  | cons e rest ih =>
    obtain ⟨k, b⟩ := e
    rw [insert, insert] at ih ⊢
    rw [mapValues, List.map_cons, alter, alter]
    split
    · rfl
    · split
      · rfl
      · rw [← mapValues, ih]
        rfl

/-- **Values may be changed before or after sorting.** -/
theorem sort_map (f : α → β) (entries : List (String × α)) :
    sort (mapValues f entries) = mapValues f (sort entries) := by
  suffices hfold : ∀ acc : List (String × α),
      (mapValues f entries).foldl (fun sorted e => insert e.1 e.2 sorted) (mapValues f acc) =
        mapValues f (entries.foldl (fun sorted e => insert e.1 e.2 sorted) acc) from
    hfold []
  induction entries with
  | nil => exact fun _ => rfl
  | cons e rest ih =>
    intro acc
    rw [List.foldl_cons, ← ih, ← insert_mapValues]
    rfl

/-- What is found after sorting is the last value of a key. -/
theorem lookup_sort (key : String) (entries : List (String × α)) :
    (sort entries).lookup key = entries.reverse.lookup key := by
  suffices h : ∀ sorted : List (String × α), Sorted sorted →
      (entries.foldl (fun sorted entry => insert entry.1 entry.2 sorted) sorted).lookup key =
        (entries.reverse.lookup key).or (sorted.lookup key) by
    rw [sort, h [] .nil, List.lookup_nil, Option.or_none]
  induction entries with
  | nil => exact fun sorted _ => rfl
  | cons entry rest ih =>
    intro sorted hsorted
    obtain ⟨k, a⟩ := entry
    rw [List.foldl_cons, insert, ih _ hsorted.alter, List.reverse_cons, List.lookup_append]
    by_cases hkey : key = k
    · subst hkey
      rw [lookup_alter_self _ _ _ hsorted]
      cases rest.reverse.lookup key <;> simp
    · have hne : (key == k) = false := by simpa using hkey
      rw [lookup_alter_of_ne hkey, List.lookup_cons, hne, List.lookup_nil, Option.or_none]

end Entries

namespace SortedMap

/-- In a map that is made of entries the last value of a key is found. -/
theorem get?_ofList (key : String) (entries : List (String × α)) :
    (ofList entries).get? key = entries.reverse.lookup key :=
  Entries.lookup_sort key entries

/-- In a map that is made of items the last item of a key is found. -/
theorem get?_ofList_map (name : β → String) (value : β → α) (key : String) (items : List β) :
    (ofList (items.map fun b => (name b, value b))).get? key =
      (items.filter fun b => name b = key).getLast?.map value := by
  rw [get?_ofList]
  induction items using List.reverseRecOn with
  | nil => rfl
  | append_singleton items b ih =>
    rw [List.map_append, List.reverse_append, List.filter_append]
    by_cases hkey : name b = key
    · subst hkey
      simp
    · have hne : (key == name b) = false := by simpa using Ne.symm hkey
      simpa [List.lookup_cons, hne, hkey] using ih

/-- The keys of such a map are those of the items. -/
theorem mem_keys_ofList_map {name : β → String} {value : β → α} {key : String} {items : List β} :
    key ∈ (ofList (items.map fun b => (name b, value b))).keys ↔ ∃ b ∈ items, name b = key := by
  rw [mem_keys, get?_ofList_map, Option.isSome_map, List.getLast?_isSome]
  simp

/-- One more entry is entered into the map that the others make. -/
theorem ofList_concat (entries : List (String × α)) (key : String) (a : α) :
    ofList (entries ++ [(key, a)]) = (ofList entries).insert key a :=
  ext List.foldl_append

/-- **The entries that come later replace those that come first.** -/
theorem ofList_append (entries later : List (String × α)) :
    ofList (entries ++ later) = (ofList entries).union (ofList later) := by
  refine ext_get? fun key => ?_
  rw [get?_union, get?_ofList, get?_ofList, get?_ofList, List.reverse_append, List.lookup_append]

/-- A map is made of its entries. -/
theorem ofList_entries (m : SortedMap α) : ofList m.entries = m :=
  ext m.sorted.sort_eq

/-- A map is made of an entry and those of another map by entering the latter. -/
theorem ofList_cons_entries (key : String) (a : α) (m : SortedMap α) :
    ofList ((key, a) :: m.entries) = ((∅ : SortedMap α).insert key a).union m := by
  have hentries : ∀ (entries : List (String × α)) (acc : SortedMap α),
      (entries.foldl (fun acc entry => acc.insert entry.1 entry.2) acc).entries =
        entries.foldl (fun sorted entry => Entries.insert entry.1 entry.2 sorted) acc.entries := by
    intro entries
    induction entries with
    | nil => exact fun _ => rfl
    | cons entry entries ih => exact fun acc => ih _
  exact ext (hentries m.entries ((∅ : SortedMap α).insert key a)).symm

end SortedMap

end ApiAnnotation
