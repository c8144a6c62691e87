import ApiAnnotation.Operation
import ApiAnnotation.SortedMap.Lemmas
import Mathlib.Data.Finset.Card
import Mathlib.Data.List.Nodup

/-!
# Operations in paths

Paths are maps of maps. They are seen through `ApiAnnotation.Paths.operation?` together with the
keys of the outer map: the two determine the paths (`ApiAnnotation.Paths.ext_operation?`), a path
without methods being told apart from no path by the keys alone.
-/

namespace ApiAnnotation

namespace Paths

variable {paths paths' : Paths} {uri uri' method method' : String}

/-- Altering an operation changes that operation alone. -/
theorem operation?_alter (f : Option Operation → Operation) :
    (Paths.alter paths uri method f).operation? uri' method' =
      if uri' = uri ∧ method' = method then some (f (paths.operation? uri method))
      else paths.operation? uri' method' := by
  simp only [operation?, Paths.alter, SortedMap.get?_alter]
  by_cases huri : uri' = uri
  · subst huri
    rw [if_pos rfl, Option.bind_some, SortedMap.get?_alter]
    cases paths.get? uri' <;> simp
  · simp [huri]

/-- Altering an operation enters its path. -/
theorem mem_keys_alter (f : Option Operation → Operation) :
    uri' ∈ SortedMap.keys (Paths.alter paths uri method f) ↔
      uri' = uri ∨ uri' ∈ SortedMap.keys paths := by
  rw [SortedMap.mem_keys, SortedMap.mem_keys, Paths.alter, SortedMap.get?_alter]
  by_cases huri : uri' = uri <;> simp [huri]

/-- Modifying an operation changes that operation alone, if it is there. -/
theorem operation?_modify (f : Operation → Operation) :
    (Paths.modify paths uri method f).operation? uri' method' =
      if uri' = uri ∧ method' = method then (paths.operation? uri method).map f
      else paths.operation? uri' method' := by
  simp only [operation?, Paths.modify, SortedMap.get?_modify]
  by_cases huri : uri' = uri
  · subst huri
    rw [if_pos rfl]
    cases paths.get? uri' <;> simp [SortedMap.get?_modify]
  · simp [huri]

/-- Modifying an operation enters no path. -/
theorem mem_keys_modify (f : Operation → Operation) :
    uri' ∈ SortedMap.keys (Paths.modify paths uri method f) ↔ uri' ∈ SortedMap.keys paths := by
  rw [SortedMap.mem_keys, SortedMap.mem_keys, Paths.modify, SortedMap.get?_modify]
  by_cases huri : uri' = uri <;> simp [huri]

theorem operation?_mapOperations (f : Operation → Operation) :
    (Paths.mapOperations f paths).operation? uri method = (paths.operation? uri method).map f := by
  simp only [operation?, mapOperations, SortedMap.get?_map]
  cases paths.get? uri <;> simp [SortedMap.get?_map]

theorem mem_keys_mapOperations (f : Operation → Operation) :
    uri ∈ SortedMap.keys (Paths.mapOperations f paths) ↔ uri ∈ SortedMap.keys paths := by
  rw [SortedMap.mem_keys, SortedMap.mem_keys, mapOperations, SortedMap.get?_map, Option.isSome_map]

/-- **Paths with the same keys and the same operations are equal.** -/
theorem ext_operation? (hkeys : ∀ uri, uri ∈ SortedMap.keys paths ↔ uri ∈ SortedMap.keys paths')
    (hops : ∀ uri method, paths.operation? uri method = paths'.operation? uri method) :
    paths = paths' := by
  refine SortedMap.ext_get? fun uri => ?_
  have hkey := hkeys uri
  rw [SortedMap.mem_keys, SortedMap.mem_keys] at hkey
  rcases h : paths.get? uri with _ | methods <;> rcases h' : paths'.get? uri with _ | methods'
  · rfl
  · simp [h, h'] at hkey
  · simp [h, h'] at hkey
  · refine congrArg some (SortedMap.ext_get? fun method => ?_)
    have hop := hops uri method
    rwa [operation?, operation?, h, h'] at hop

theorem mapOperations_mapOperations (f g : Operation → Operation) :
    mapOperations g (mapOperations f paths) = mapOperations (g ∘ f) paths := by
  refine ext_operation? (fun uri => ?_) fun uri method => ?_
  · simp only [mem_keys_mapOperations]
  · simp only [operation?_mapOperations, Option.map_map]

/-- Paths that a map takes to the same paths have the same keys. -/
theorem mem_keys_congr {c : Operation → Operation}
    (h : mapOperations c paths = mapOperations c paths') :
    uri ∈ SortedMap.keys paths ↔ uri ∈ SortedMap.keys paths' := by
  rw [← mem_keys_mapOperations c, h, mem_keys_mapOperations]

/-- Paths that a map takes to the same paths have operations that it takes to the same. -/
theorem map_operation?_congr {c : Operation → Operation}
    (h : mapOperations c paths = mapOperations c paths') (uri method : String) :
    (paths.operation? uri method).map c = (paths'.operation? uri method).map c := by
  rw [← operation?_mapOperations c, h, operation?_mapOperations]

/-- Altering an operation and then mapping looks at the paths only as far as the map does, if the
alteration does. -/
theorem mapOperations_alter_congr (uri method : String) {c : Operation → Operation}
    {f : Option Operation → Operation} (h : mapOperations c paths = mapOperations c paths')
    (hf : ∀ op op' : Option Operation, op.map c = op'.map c → c (f op) = c (f op')) :
    mapOperations c (Paths.alter paths uri method f) =
      mapOperations c (Paths.alter paths' uri method f) := by
  refine ext_operation? (fun uri' => ?_) fun uri' method' => ?_
  · rw [mem_keys_mapOperations, mem_keys_mapOperations, mem_keys_alter, mem_keys_alter,
      mem_keys_congr h]
  · rw [operation?_mapOperations, operation?_mapOperations, operation?_alter, operation?_alter]
    split
    · exact congrArg some (hf _ _ (map_operation?_congr h uri method))
    · exact map_operation?_congr h uri' method'

/-- Modifying an operation and then mapping looks at the paths only as far as the map does, if the
modification does. -/
theorem mapOperations_modify_congr {c f : Operation → Operation}
    (h : mapOperations c paths = mapOperations c paths')
    (hf : ∀ op op' : Operation, c op = c op' → c (f op) = c (f op')) :
    mapOperations c (Paths.modify paths uri method f) =
      mapOperations c (Paths.modify paths' uri method f) := by
  refine ext_operation? (fun uri' => ?_) fun uri' method' => ?_
  · rw [mem_keys_mapOperations, mem_keys_mapOperations, mem_keys_modify, mem_keys_modify,
      mem_keys_congr h]
  · rw [operation?_mapOperations, operation?_mapOperations, operation?_modify, operation?_modify]
    split
    · have hop := map_operation?_congr h uri method
      revert hop
      rcases paths.operation? uri method with _ | op <;>
        rcases paths'.operation? uri method with _ | op' <;> intro hop
      · rfl
      · exact absurd hop.symm (Option.some_ne_none _)
      · exact absurd hop (Option.some_ne_none _)
      · exact congrArg some (hf op op' (Option.some.inj hop))
    · exact map_operation?_congr h uri' method'

/-! ### Counting operations -/

/-- The pairs of a path and a method under which an operation stands. -/
def slots (paths : Paths) : List (String × String) :=
  paths.entries.flatMap fun (uri, methods) => methods.keys.map (uri, ·)

theorem mem_slots : (uri, method) ∈ paths.slots ↔ (paths.operation? uri method).isSome := by
  rw [slots, List.mem_flatMap]
  constructor
  · rintro ⟨⟨uri', methods⟩, hmem, hslot⟩
    obtain ⟨method', hmethod, heq⟩ := List.mem_map.mp hslot
    obtain ⟨rfl, rfl⟩ := Prod.mk.inj heq
    rw [operation?, SortedMap.mem_entries.mp hmem, Option.bind_some]
    exact SortedMap.mem_keys.mp hmethod
  · intro h
    obtain ⟨op, hop⟩ := Option.isSome_iff_exists.mp h
    obtain ⟨methods, hmethods, hmethod⟩ := Option.bind_eq_some_iff.mp hop
    refine ⟨(uri, methods), SortedMap.mem_entries.mpr hmethods, List.mem_map.mpr ⟨method, ?_, rfl⟩⟩
    rw [SortedMap.mem_keys, hmethod]
    rfl

/-- No slot is listed twice. -/
theorem nodup_slots (paths : Paths) : paths.slots.Nodup := by
  rw [slots, List.nodup_flatMap]
  -- methods of one path differ, and so do the paths
  refine ⟨fun entry _ => (SortedMap.nodup_keys entry.2).map (Prod.mk_right_injective entry.1), ?_⟩
  refine paths.sorted.imp fun {a b} hlt => ?_
  refine List.disjoint_left.mpr fun slot ha hb => ?_
  obtain ⟨_, -, rfl⟩ := List.mem_map.mp ha
  obtain ⟨_, -, heq⟩ := List.mem_map.mp hb
  exact String.lt_irrefl _ ((Prod.mk.inj heq).1 ▸ hlt)

theorem operationCount_eq_length_slots (paths : Paths) :
    paths.operationCount = paths.slots.length := by
  rw [operationCount, slots, SortedMap.values]
  generalize paths.entries = entries
  induction entries with
  | nil => rfl
  | cons entry rest ih =>
    rw [List.map_cons, List.foldr_cons, ih, List.flatMap_cons, List.length_append, List.length_map]
    simp [SortedMap.keys, SortedMap.size]

/-- **The number of operations is the number of slots.** -/
theorem operationCount_eq_card (paths : Paths) :
    paths.operationCount = paths.slots.toFinset.card := by
  rw [operationCount_eq_length_slots, List.toFinset_card_of_nodup paths.nodup_slots]

end Paths

end ApiAnnotation
