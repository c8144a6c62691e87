/-!
# Maps sorted by key

`ApiAnnotation.SortedMap` is a finite map from texts to values, held as the list of its entries in
increasing order of the keys. Texts are ordered by their code points. Every map has exactly one
such list, so maps with the same entries are equal (`ApiAnnotation.SortedMap.ext_get?`).

The operations on bare lists of entries come first: they also serve values that hold maps of
themselves, where the order cannot be part of the type.
-/

namespace ApiAnnotation

universe u v

variable {α : Type u} {β : Type v}

/-! ### Lists of entries -/

namespace Entries

/-- Entries in strictly increasing order of their keys. -/
def Sorted (entries : List (String × α)) : Prop :=
  entries.Pairwise fun a b => a.1 < b.1

/-- Replaces the value of a key by what `f` makes of it, or enters the key in its place. -/
def alter (key : String) (f : Option α → α) : List (String × α) → List (String × α)
  | [] => [(key, f none)]
  | (k, a) :: rest =>
    if key < k then (key, f none) :: (k, a) :: rest
    else if key = k then (k, f (some a)) :: rest
    else (k, a) :: alter key f rest

/-- Enters a value under a key, in place of the one it had. -/
def insert (key : String) (a : α) (entries : List (String × α)) : List (String × α) :=
  alter key (fun _ => a) entries

/-- The entries in order, the last one of each key being kept. -/
def sort (entries : List (String × α)) : List (String × α) :=
  entries.foldl (fun sorted entry => insert entry.1 entry.2 sorted) []

/-- An entry of an altered list has the key, or was there before. -/
theorem mem_alter {key : String} {f : Option α → α} {entries : List (String × α)}
    {entry : String × α} (h : entry ∈ alter key f entries) :
    entry.1 = key ∨ entry ∈ entries := by
  induction entries with
  | nil => simp_all [alter]
  | cons head rest ih =>
    obtain ⟨k, a⟩ := head
    simp only [alter] at h
    split at h
    · simp only [List.mem_cons] at h ⊢
      rcases h with rfl | h
      · exact .inl rfl
      · exact .inr h
    · split at h
      · next heq =>
        simp only [List.mem_cons] at h ⊢
        rcases h with rfl | h
        · exact .inl heq.symm
        · exact .inr (.inr h)
      · simp only [List.mem_cons] at h ⊢
        rcases h with rfl | h
        · exact .inr (.inl rfl)
        · exact (ih h).imp id .inr

/-- Altering keeps the order. -/
theorem Sorted.alter {key : String} {f : Option α → α} {entries : List (String × α)}
    (h : Sorted entries) : Sorted (alter key f entries) := by
  induction entries with
  | nil => simp [Sorted, Entries.alter]
  | cons head rest ih =>
    obtain ⟨k, a⟩ := head
    obtain ⟨hk, hrest⟩ := List.pairwise_cons.1 h
    simp only [Entries.alter]
    split
    · next hlt =>
      refine List.pairwise_cons.2 ⟨fun entry hmem => ?_, h⟩
      rcases List.mem_cons.1 hmem with rfl | hmem
      · exact hlt
      · exact String.lt_trans hlt (hk entry hmem)
    · next hnlt =>
      split
      · exact List.pairwise_cons.2 ⟨fun entry hmem => hk entry hmem, hrest⟩
      · next hne =>
        refine List.pairwise_cons.2 ⟨fun entry hmem => ?_, ih hrest⟩
        rcases mem_alter hmem with heq | hmem
        · exact heq ▸ Std.lt_of_le_of_ne (String.not_lt.1 hnlt) (Ne.symm hne)
        · exact hk entry hmem

/-- Sorting puts the entries in order. -/
theorem sorted_sort (entries : List (String × α)) : Sorted (sort entries) := by
  suffices h : ∀ acc : List (String × α), Sorted acc →
      Sorted (entries.foldl (fun sorted entry => insert entry.1 entry.2 sorted) acc) from
    h [] .nil
  induction entries with
  | nil => exact fun _ h => h
  | cons entry rest ih => exact fun acc h => ih _ h.alter

end Entries

/-! ### Maps -/

/-- A finite map from texts to values, held as its entries in increasing order of the keys. -/
structure SortedMap (α : Type u) where
  /-- The entries, in increasing order of the keys. -/
  entries : List (String × α)
  /-- The keys increase, so no two entries share one. -/
  sorted : Entries.Sorted entries

namespace SortedMap

instance : EmptyCollection (SortedMap α) := ⟨⟨[], .nil⟩⟩

instance : Inhabited (SortedMap α) := ⟨∅⟩

theorem ext {m m' : SortedMap α} (h : m.entries = m'.entries) : m = m' := by
  cases m; cases m'; congr

instance [DecidableEq α] : DecidableEq (SortedMap α) := fun m m' =>
  if h : m.entries = m'.entries then isTrue (ext h)
  else isFalse fun heq => h (congrArg entries heq)

instance [Repr α] : Repr (SortedMap α) where
  reprPrec m prec := reprPrec m.entries prec

/-- The value under a key. -/
def get? (m : SortedMap α) (key : String) : Option α := m.entries.lookup key

/-- The keys, in increasing order. -/
def keys (m : SortedMap α) : List String := m.entries.map (·.1)

/-- The values, in the order of their keys. -/
def values (m : SortedMap α) : List α := m.entries.map (·.2)

/-- The number of entries. -/
def size (m : SortedMap α) : Nat := m.entries.length

/-- Whether there is no entry. -/
def isEmpty (m : SortedMap α) : Bool := m.entries.isEmpty

/-- Replaces the value of a key by what `f` makes of it, or enters the key. -/
def alter (m : SortedMap α) (key : String) (f : Option α → α) : SortedMap α where
  entries := Entries.alter key f m.entries
  sorted := m.sorted.alter

/-- Enters a value under a key, in place of the one it had. -/
def insert (m : SortedMap α) (key : String) (a : α) : SortedMap α :=
  m.alter key fun _ => a

/-- Applies `f` to the value under a key, if there is one. -/
def modify (m : SortedMap α) (key : String) (f : α → α) : SortedMap α where
  entries := m.entries.map fun entry => if entry.1 = key then (entry.1, f entry.2) else entry
  sorted := by
    refine List.pairwise_map.2 (m.sorted.imp fun {a b} h => ?_)
    split <;> split <;> exact h

/-- The map without a key. -/
def erase (m : SortedMap α) (key : String) : SortedMap α where
  entries := m.entries.filter fun entry => entry.1 ≠ key
  sorted := m.sorted.filter _

/-- The map with `f` applied to every value. -/
def map (f : α → β) (m : SortedMap α) : SortedMap β where
  entries := m.entries.map fun entry => (entry.1, f entry.2)
  sorted := by simpa [Entries.Sorted, List.pairwise_map] using m.sorted

/-- The map with the given entries, the last one of each key being kept. -/
def ofList (entries : List (String × α)) : SortedMap α where
  entries := Entries.sort entries
  sorted := Entries.sorted_sort entries

/-- The map with the entries of `m'` entered into `m`. -/
def union (m m' : SortedMap α) : SortedMap α :=
  m'.entries.foldl (fun acc entry => acc.insert entry.1 entry.2) m

end SortedMap

end ApiAnnotation
