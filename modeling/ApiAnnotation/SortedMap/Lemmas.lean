import ApiAnnotation.SortedMap.Basic

/-!
# Lemmas about sorted maps

A map is seen through `ApiAnnotation.SortedMap.get?`. Each operation is characterised by what it
does to that view, and `ApiAnnotation.SortedMap.ext_get?` says that the view determines the map.
-/

namespace ApiAnnotation

universe u v

variable {α : Type u} {β : Type v}

namespace Entries

theorem lookup_alter_self (key : String) (f : Option α → α) (entries : List (String × α))
    (h : Sorted entries) : (alter key f entries).lookup key = some (f (entries.lookup key)) := by
  induction entries with
  | nil => simp [alter]
  | cons head rest ih =>
    obtain ⟨k, a⟩ := head
    obtain ⟨hk, hrest⟩ := List.pairwise_cons.1 h
    simp only [alter]
    split
    · next hlt =>
      -- below the least key, so the key was not there
      have habs : ((k, a) :: rest).lookup key = none := by
        refine List.lookup_eq_none_iff.2 fun entry hmem => ?_
        have hlt' : key < entry.1 := by
          rcases List.mem_cons.1 hmem with rfl | hmem
          · exact hlt
          · exact String.lt_trans hlt (hk entry hmem)
        have hne : key ≠ entry.1 := fun heq => String.lt_irrefl _ (heq ▸ hlt')
        simpa using hne
      simp [habs]
    · split
      · next heq => subst heq; simp
      · next hne =>
        have hne' : (key == k) = false := by simpa using hne
        simp [List.lookup_cons, hne', ih hrest]

theorem lookup_alter_of_ne {key other : String} (hne : other ≠ key) (f : Option α → α)
    (entries : List (String × α)) : (alter key f entries).lookup other = entries.lookup other := by
  have hne' : (other == key) = false := by simpa using hne
  induction entries with
  | nil => simp [alter, List.lookup_cons, hne']
  | cons head rest ih =>
    obtain ⟨k, a⟩ := head
    simp only [alter]
    split
    · simp [List.lookup_cons, hne']
    · split
      · next heq => subst heq; simp [List.lookup_cons, hne']
      · simp [List.lookup_cons, ih]

/-- Sorted lists with the same look-ups are the same list. -/
theorem Sorted.ext_lookup {l l' : List (String × α)} (hl : Sorted l) (hl' : Sorted l')
    (h : ∀ key, l.lookup key = l'.lookup key) : l = l' := by
  induction l generalizing l' with
  | nil =>
    cases l' with
    | nil => rfl
    | cons head rest => obtain ⟨k, a⟩ := head; exact absurd (h k) (by simp)
  | cons head rest ih =>
    obtain ⟨k, a⟩ := head
    obtain ⟨hk, hrest⟩ := List.pairwise_cons.1 hl
    cases l' with
    | nil => exact absurd (h k) (by simp)
    | cons head' rest' =>
      obtain ⟨k', a'⟩ := head'
      obtain ⟨hk', hrest'⟩ := List.pairwise_cons.1 hl'
      have absent : ∀ {c : String} {m : List (String × α)},
          (∀ entry ∈ m, c < entry.1) → m.lookup c = none := fun hm =>
        List.lookup_eq_none_iff.2 fun entry hmem => by
          have hne : _ ≠ entry.1 := fun heq => String.lt_irrefl _ (heq ▸ hm entry hmem)
          simpa using hne
      -- the least keys agree: each is found in the other list, at or above its head
      have hkk : k = k' := by
        rcases Std.lt_trichotomy k k' with hlt | heq | hgt
        · have hnone : ((k', a') :: rest').lookup k = none := absent fun entry hmem => by
            rcases List.mem_cons.1 hmem with rfl | hmem
            · exact hlt
            · exact String.lt_trans hlt (hk' entry hmem)
          have := h k
          simp [hnone] at this
        · exact heq
        · have hnone : ((k, a) :: rest).lookup k' = none := absent fun entry hmem => by
            rcases List.mem_cons.1 hmem with rfl | hmem
            · exact hgt
            · exact String.lt_trans hgt (hk entry hmem)
          have := h k'
          simp [hnone] at this
      subst hkk
      have haa : a = a' := by simpa using h k
      subst haa
      congr 1
      refine ih hrest hrest' fun key => ?_
      by_cases hkey : key = k
      · subst hkey
        rw [absent hk, absent hk']
      · have hne : (key == k) = false := by simpa using hkey
        simpa [List.lookup_cons, hne] using h key

/-- A map over the values that looks at their keys acts on a look-up at its key. -/
theorem lookup_map_entry (g : String → α → β) (key : String) (entries : List (String × α)) :
    (entries.map fun entry => (entry.1, g entry.1 entry.2)).lookup key =
      (entries.lookup key).map (g key) := by
  induction entries with
  | nil => rfl
  | cons head rest ih =>
    obtain ⟨k, a⟩ := head
    by_cases hk : key = k
    · subst hk
      simp
    · have hne : (key == k) = false := by simpa using hk
      simpa [List.lookup_cons, hne] using ih

/-- In a sorted list an entry is found under its key. -/
theorem mem_iff_lookup {key : String} {a : α} {entries : List (String × α)}
    (h : Sorted entries) : (key, a) ∈ entries ↔ entries.lookup key = some a := by
  induction entries with
  | nil => simp
  | cons head rest ih =>
    obtain ⟨k, b⟩ := head
    obtain ⟨hk, hrest⟩ := List.pairwise_cons.1 h
    rw [List.mem_cons, ih hrest, List.lookup_cons]
    by_cases hkey : key = k
    · subst hkey
      -- above the key there is no second entry of it
      have habs : rest.lookup key = none := List.lookup_eq_none_iff.2 fun entry hmem => by
        have hne : key ≠ entry.1 := fun heq => String.lt_irrefl _ (heq ▸ hk entry hmem)
        simpa using hne
      simp [habs, eq_comm]
    · have hne : (key == k) = false := by simpa using hkey
      simp [hne, hkey]

theorem lookup_filter_ne (key other : String) (entries : List (String × α)) :
    (entries.filter fun entry => entry.1 ≠ key).lookup other =
      if other = key then none else entries.lookup other := by
  induction entries with
  | nil => simp
  | cons head rest ih =>
    obtain ⟨k, a⟩ := head
    rw [List.filter_cons]
    by_cases hk : k = key
    · subst hk
      rw [if_neg (by simp), ih]
      by_cases hother : other = k
      · rw [if_pos hother, if_pos hother]
      · have hne : (other == k) = false := by simpa using hother
        rw [if_neg hother, if_neg hother, List.lookup_cons, hne]
    · rw [if_pos (by simpa using hk), List.lookup_cons, List.lookup_cons, ih]
      by_cases hother : other = k
      · subst hother
        simp [hk]
      · have hne : (other == k) = false := by simpa using hother
        rw [hne]

end Entries

namespace SortedMap

variable {m m' : SortedMap α} {key other : String}

@[simp] theorem get?_empty : (∅ : SortedMap α).get? key = none := rfl

/-- Altering a key changes that key alone. -/
theorem get?_alter (f : Option α → α) :
    (m.alter key f).get? other = if other = key then some (f (m.get? key)) else m.get? other := by
  split
  · next heq => subst heq; exact Entries.lookup_alter_self _ _ _ m.sorted
  · next hne => exact Entries.lookup_alter_of_ne hne _ _

theorem get?_insert (a : α) :
    (m.insert key a).get? other = if other = key then some a else m.get? other := by
  simp [insert, get?_alter]

/-- Modifying a key changes the value of that key alone, if it has one. -/
theorem get?_modify (f : α → α) :
    (m.modify key f).get? other =
      if other = key then (m.get? key).map f else m.get? other := by
  have hentries : (m.modify key f).entries =
      m.entries.map fun entry => (entry.1, if entry.1 = key then f entry.2 else entry.2) := by
    refine List.map_congr_left fun entry _ => ?_
    split <;> rfl
  rw [get?, hentries, Entries.lookup_map_entry fun k a => if k = key then f a else a]
  split
  · next heq =>
    subst heq
    rfl
  · exact Option.map_id'

theorem get?_erase :
    (m.erase key).get? other = if other = key then none else m.get? other :=
  Entries.lookup_filter_ne key other m.entries

theorem get?_map (f : α → β) : (m.map f).get? key = (m.get? key).map f :=
  Entries.lookup_map_entry (fun _ => f) key m.entries

theorem mem_keys : key ∈ m.keys ↔ (m.get? key).isSome := by
  rw [get?, List.lookup_isSome_iff, keys, List.mem_map]
  simp

/-- No key stands twice. -/
theorem nodup_keys (m : SortedMap α) : m.keys.Nodup := by
  rw [keys, List.nodup_iff_pairwise_ne, List.pairwise_map]
  refine m.sorted.imp fun {a b} hlt (heq : a.1 = b.1) => ?_
  exact String.lt_irrefl _ (heq ▸ hlt)

/-- An entry is a key with the value found under it. -/
theorem mem_entries {a : α} : (key, a) ∈ m.entries ↔ m.get? key = some a :=
  Entries.mem_iff_lookup m.sorted

/-- Maps with the same look-ups are equal. -/
theorem ext_get? (h : ∀ key, m.get? key = m'.get? key) : m = m' :=
  ext (m.sorted.ext_lookup m'.sorted h)

/-! ### Entering the entries of a map -/

/-- Altering a map at each of a list of different keys: a key of the list gets what its own entry
makes of the value before, and the others keep theirs. -/
theorem get?_foldl_alter (g : β → Option α → α) (entries : List (String × β))
    (h : Entries.Sorted entries) (m : SortedMap α) (key : String) :
    (entries.foldl (fun acc entry => acc.alter entry.1 (g entry.2)) m).get? key =
      ((entries.lookup key).map fun b => g b (m.get? key)).or (m.get? key) := by
  induction entries generalizing m with
  | nil => rfl
  | cons head rest ih =>
    obtain ⟨k, b⟩ := head
    obtain ⟨hk, hrest⟩ := List.pairwise_cons.1 h
    rw [List.foldl_cons, ih hrest, get?_alter]
    by_cases hkey : key = k
    · subst hkey
      -- the rest lies above the key
      have habs : rest.lookup key = none := List.lookup_eq_none_iff.2 fun entry hmem => by
        have hne : key ≠ entry.1 := fun heq => String.lt_irrefl _ (heq ▸ hk entry hmem)
        simpa using hne
      simp [habs]
    · have hne : (key == k) = false := by simpa using hkey
      simp [List.lookup_cons, hne, hkey]

/-- The entries of the second map replace those of the first. -/
theorem get?_union : (m.union m').get? key = (m'.get? key).or (m.get? key) := by
  refine (get?_foldl_alter (fun (a : α) _ => a) m'.entries m'.sorted m key).trans ?_
  rw [Option.map_id']
  rfl

end SortedMap

end ApiAnnotation
