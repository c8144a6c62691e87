import ApiAnnotation.Json
import ApiAnnotation.Proofs.Entries
import Mathlib.Algebra.Group.Int.Defs

/-!
# The parts of a JSON value

A value is looked at through its parts: the value itself, the items of its lists and the values of
its members, and theirs in turn. What a text can hold without loss is said of the parts
(`ApiAnnotation.Json.Fits`): lists and objects nest no deeper than the reader goes, no object has a
key twice, and every number is one that its digits tell.

## Main definitions

* `ApiAnnotation.Json.Part`: one value is a part of another.
* `ApiAnnotation.Json.depth`: how deep lists and objects nest.
* `ApiAnnotation.Json.Fits`: a text can hold the value.

## Main statements

* `ApiAnnotation.Json.normal_normal`: the normal form is normal.
* `ApiAnnotation.Json.keysDiffer_of_part_normal`: an object in a normal form has no key twice.
-/

namespace ApiAnnotation

/-- Whether a number is an integer of 64 bits, with a sign or without one. -/
def Number.IsWord (n : Number) : Prop := ∃ k : Int, n = .int k ∧ -2 ^ 63 ≤ k ∧ k < 2 ^ 64

namespace Json

/-! ### Induction -/

/-- **What holds of a value if it holds of the values in it** holds of all values. -/
@[elab_as_elim]
theorem induction {motive : Json → Prop} (null : motive .null) (bool : ∀ b, motive (.bool b))
    (number : ∀ n, motive (.number n)) (string : ∀ s, motive (.string s))
    (array : ∀ items, (∀ item ∈ items, motive item) → motive (.array items))
    (object : ∀ members, (∀ member ∈ members, motive member.2) → motive (.object members))
    (j : Json) : motive j :=
  @Json.rec motive (fun items => ∀ item ∈ items, motive item)
    (fun members => ∀ member ∈ members, motive member.2) (fun member => motive member.2)
    null bool number string array object
    (List.forall_mem_nil _) (fun _ _ hitem hitems => List.forall_mem_cons.mpr ⟨hitem, hitems⟩)
    (List.forall_mem_nil _)
    (fun _ _ hmember hmembers => List.forall_mem_cons.mpr ⟨hmember, hmembers⟩)
    (fun _ _ hvalue => hvalue) j

/-! ### Parts -/

/-- **One value is a part of another.** -/
inductive Part (v : Json) : Json → Prop
  /-- Every value is a part of itself. -/
  | self : Part v v
  /-- The parts of an item are parts of the list. -/
  | item {item : Json} {items : List Json} : item ∈ items → Part v item → Part v (.array items)
  /-- The parts of the value of a member are parts of the object. -/
  | member {member : String × Json} {members : List (String × Json)} :
    member ∈ members → Part v member.2 → Part v (.object members)

theorem part_null {v : Json} : Part v .null ↔ v = .null :=
  ⟨fun h => by cases h; rfl, fun h => h ▸ .self⟩

theorem part_bool {v : Json} {b : Bool} : Part v (.bool b) ↔ v = .bool b :=
  ⟨fun h => by cases h; rfl, fun h => h ▸ .self⟩

theorem part_number {v : Json} {n : Number} : Part v (.number n) ↔ v = .number n :=
  ⟨fun h => by cases h; rfl, fun h => h ▸ .self⟩

theorem part_string {v : Json} {s : String} : Part v (.string s) ↔ v = .string s :=
  ⟨fun h => by cases h; rfl, fun h => h ▸ .self⟩

/-- What holds of the parts of a list. -/
theorem forall_part_array {P : Json → Prop} {items : List Json} :
    (∀ v, Part v (.array items) → P v) ↔
      P (.array items) ∧ ∀ item ∈ items, ∀ v, Part v item → P v := by
  constructor
  · intro h
    exact ⟨h _ .self, fun item hitem v hv => h v (.item hitem hv)⟩
  · rintro ⟨hself, hitems⟩ v hv
    cases hv with
    | self => exact hself
    | item hitem hv => exact hitems _ hitem v hv

/-- What holds of the parts of an object. -/
theorem forall_part_object {P : Json → Prop} {members : List (String × Json)} :
    (∀ v, Part v (.object members) → P v) ↔
      P (.object members) ∧ ∀ member ∈ members, ∀ v, Part v member.2 → P v := by
  constructor
  · intro h
    exact ⟨h _ .self, fun member hmember v hv => h v (.member hmember hv)⟩
  · rintro ⟨hself, hmembers⟩ v hv
    cases hv with
    | self => exact hself
    | member hmember hv => exact hmembers _ hmember v hv

/-! ### Depth -/

mutual

/-- How deep lists and objects nest in a value. -/
def depth : Json → Nat
  | null | bool _ | number _ | string _ => 0
  | array items => itemsDepth items + 1
  | object members => membersDepth members + 1

/-- How deep lists and objects nest in the items of a list. -/
def itemsDepth : List Json → Nat
  | [] => 0
  | item :: items => max item.depth (itemsDepth items)

/-- How deep lists and objects nest in the members of an object. -/
def membersDepth : List (String × Json) → Nat
  | [] => 0
  | (_, value) :: members => max value.depth (membersDepth members)

end

theorem itemsDepth_le_iff {room : Nat} {items : List Json} :
    itemsDepth items ≤ room ↔ ∀ item ∈ items, item.depth ≤ room := by
  induction items with
  | nil => exact iff_of_true (Nat.zero_le room) (List.forall_mem_nil _)
  | cons item items ih => rw [itemsDepth, Nat.max_le, ih, List.forall_mem_cons]

theorem membersDepth_le_iff {room : Nat} {members : List (String × Json)} :
    membersDepth members ≤ room ↔ ∀ member ∈ members, member.2.depth ≤ room := by
  induction members with
  | nil => exact iff_of_true (Nat.zero_le room) (List.forall_mem_nil _)
  | cons member members ih => rw [membersDepth, Nat.max_le, ih, List.forall_mem_cons]

theorem depth_array_le_iff {room : Nat} {items : List Json} :
    (array items).depth ≤ room + 1 ↔ ∀ item ∈ items, item.depth ≤ room := by
  rw [depth, Nat.succ_le_succ_iff, itemsDepth_le_iff]

theorem depth_object_le_iff {room : Nat} {members : List (String × Json)} :
    (object members).depth ≤ room + 1 ↔ ∀ member ∈ members, member.2.depth ≤ room := by
  rw [depth, Nat.succ_le_succ_iff, membersDepth_le_iff]

/-! ### Normal forms -/

theorem normalItems_eq (items : List Json) : normalItems items = items.map normal := by
  induction items with
  | nil => rfl
  | cons item items ih => rw [normalItems, ih, List.map_cons]

theorem normalMembers_eq (members : List (String × Json)) :
    normalMembers members = Entries.mapValues normal members := by
  induction members with
  | nil => rfl
  | cons member members ih =>
    rw [normalMembers, ih]
    rfl

/-- A member of an object in normal form is one of the object's, in normal form. -/
theorem exists_of_mem_normal {members : List (String × Json)} {member : String × Json}
    (h : member ∈ Entries.sort (normalMembers members)) :
    ∃ value, (member.1, value) ∈ members ∧ member.2 = value.normal := by
  have hmem := Entries.mem_sort h
  rw [normalMembers_eq] at hmem
  obtain ⟨⟨key, value⟩, hvalue, rfl⟩ := List.mem_map.mp hmem
  exact ⟨value, hvalue, rfl⟩

/-- **The normal form is normal.** -/
theorem normal_normal (j : Json) : j.normal.normal = j.normal := by
  induction j using Json.induction with
  | null => rfl
  | bool b => rfl
  | number n =>
    rw [normal]
    split
    · next hfinite => rw [normal, if_pos hfinite]
    · rfl
  | string s => rfl
  | array items ih =>
    rw [normal, normal, normalItems_eq, normalItems_eq, List.map_map]
    exact congrArg array (List.map_congr_left ih)
  | object members ih =>
    have hmembers : Entries.mapValues normal (normalMembers members) = normalMembers members := by
      rw [normalMembers_eq, Entries.mapValues, Entries.mapValues, List.map_map]
      exact List.map_congr_left fun member hmember => Prod.ext rfl (ih member hmember)
    rw [normal, normal, normalMembers_eq (Entries.sort _), ← Entries.sort_map, hmembers,
      (Entries.sorted_sort _).sort_eq]

/-- Nothing nests deeper in the normal form. -/
theorem depth_normal_le (j : Json) : j.normal.depth ≤ j.depth := by
  induction j using Json.induction with
  | null => exact Nat.le_refl _
  | bool b => exact Nat.le_refl _
  | number n =>
    rw [normal]
    split <;> exact Nat.le_refl _
  | string s => exact Nat.le_refl _
  | array items ih =>
    have hitems := itemsDepth_le_iff.mp (Nat.le_refl (itemsDepth items))
    rw [normal, normalItems_eq]
    refine depth_array_le_iff.mpr fun item hitem => ?_
    obtain ⟨item, hmem, rfl⟩ := List.mem_map.mp hitem
    exact Nat.le_trans (ih item hmem) (hitems item hmem)
  | object members ih =>
    have hmembers := membersDepth_le_iff.mp (Nat.le_refl (membersDepth members))
    rw [normal]
    refine depth_object_le_iff.mpr fun member hmember => ?_
    obtain ⟨value, hmem, hvalue⟩ := exists_of_mem_normal hmember
    rw [hvalue]
    exact Nat.le_trans (ih _ hmem) (hmembers _ hmem)

/-- Whether a value, if it is an object, has no key twice. -/
def KeysDiffer : Json → Prop
  | .object members => (members.map (·.1)).Nodup
  | _ => True

/-- **An object in a normal form has no key twice.** -/
theorem keysDiffer_of_part_normal (j : Json) : ∀ v, Part v j.normal → v.KeysDiffer := by
  induction j using Json.induction with
  | null =>
    rintro _ ⟨⟩
    trivial
  | bool b =>
    rintro _ ⟨⟩
    trivial
  | number n =>
    rw [normal]
    split <;> rintro _ ⟨⟩ <;> trivial
  | string s =>
    rintro _ ⟨⟩
    trivial
  | array items ih =>
    rw [normal, normalItems_eq, forall_part_array]
    refine ⟨trivial, fun item hitem => ?_⟩
    obtain ⟨item, hmem, rfl⟩ := List.mem_map.mp hitem
    exact ih item hmem
  | object members ih =>
    rw [normal, forall_part_object]
    refine ⟨SortedMap.nodup_keys ⟨_, Entries.sorted_sort _⟩, fun member hmember => ?_⟩
    obtain ⟨value, hmem, hvalue⟩ := exists_of_mem_normal hmember
    rw [hvalue]
    exact ih _ hmem

/-! ### Members that may be left out -/

/-- The members that have a value. -/
def given (members : List (String × Option Json)) : List (String × Json) :=
  members.filterMap fun (key, value) => value.map (key, ·)

theorem given_append (members more : List (String × Option Json)) :
    given (members ++ more) = given members ++ given more :=
  List.filterMap_append

theorem given_map_some (members : List (String × Json)) :
    given (members.map fun member => (member.1, some member.2)) = members := by
  rw [given, List.filterMap_map]
  exact List.filterMap_some

/-- The keys keep their order. -/
theorem keys_given_sublist (members : List (String × Option Json)) :
    ((given members).map (·.1)).Sublist (members.map (·.1)) := by
  induction members with
  | nil => exact List.Sublist.refl _
  | cons member members ih =>
    obtain ⟨key, value⟩ := member
    cases value with
    | none => exact ih.cons _
    | some j => exact ih.cons_cons _

theorem exists_of_mem_given {members : List (String × Option Json)} {member : String × Json}
    (h : member ∈ given members) : (member.1, some member.2) ∈ members := by
  obtain ⟨⟨key, value⟩, hmem, hvalue⟩ := List.mem_filterMap.mp h
  obtain ⟨j, rfl, rfl⟩ := Option.map_eq_some_iff.mp hvalue
  exact hmem

/-! ### What a text can hold -/

/-- Whether a value, if it is a number, is an integer of 64 bits. -/
def NumberFits : Json → Prop
  | .number n => n.IsWord
  | _ => True

/-- **A text can hold the value**: it can be read back from one, `room` more lists and objects being
let nest. -/
structure Fits (room : Nat) (j : Json) : Prop where
  /-- Lists and objects do not nest too deep. -/
  depth_le : j.depth ≤ room
  /-- No object has a key twice. -/
  keysDiffer : ∀ v, Part v j → v.KeysDiffer
  /-- Every number is an integer of 64 bits. -/
  numberFits : ∀ v, Part v j → v.NumberFits

namespace Fits

variable {room : Nat}

theorem bool (b : Bool) : Fits room (.bool b) where
  depth_le := Nat.zero_le room
  keysDiffer _ hv := part_bool.mp hv ▸ trivial
  numberFits _ hv := part_bool.mp hv ▸ trivial

theorem string (s : String) : Fits room (.string s) where
  depth_le := Nat.zero_le room
  keysDiffer _ hv := part_string.mp hv ▸ trivial
  numberFits _ hv := part_string.mp hv ▸ trivial

theorem array {items : List Json} (h : ∀ item ∈ items, Fits room item) :
    Fits (room + 1) (.array items) where
  depth_le := depth_array_le_iff.mpr fun item hitem => (h item hitem).depth_le
  keysDiffer := forall_part_array.mpr ⟨trivial, fun item hitem => (h item hitem).keysDiffer⟩
  numberFits := forall_part_array.mpr ⟨trivial, fun item hitem => (h item hitem).numberFits⟩

theorem object {members : List (String × Json)} (hkeys : (members.map (·.1)).Nodup)
    (h : ∀ member ∈ members, Fits room member.2) : Fits (room + 1) (.object members) where
  depth_le := depth_object_le_iff.mpr fun member hmember => (h member hmember).depth_le
  keysDiffer :=
    forall_part_object.mpr ⟨hkeys, fun member hmember => (h member hmember).keysDiffer⟩
  numberFits :=
    forall_part_object.mpr ⟨trivial, fun member hmember => (h member hmember).numberFits⟩

theorem list {α : Type} {toJson : α → Json} (as : List α) (h : ∀ a, Fits room (toJson a)) :
    Fits (room + 1) (.array (as.map toJson)) := by
  refine array fun item hitem => ?_
  obtain ⟨a, -, rfl⟩ := List.mem_map.mp hitem
  exact h a

theorem strings (texts : List String) : Fits (room + 1) (.strings texts) :=
  list texts string

theorem ofMap {α : Type} {toJson : α → Json} (m : SortedMap α) (h : ∀ a, Fits room (toJson a)) :
    Fits (room + 1) (.ofMap toJson m) := by
  refine object (SortedMap.nodup_keys _) fun member hmember => ?_
  obtain ⟨entry, -, rfl⟩ := List.mem_map.mp hmember
  exact h entry.2

theorem record {members : List (String × Option Json)} (hkeys : (members.map (·.1)).Nodup)
    (h : ∀ member ∈ members, ∀ j ∈ member.2, Fits room j) : Fits (room + 1) (.record members) := by
  refine object (hkeys.sublist (keys_given_sublist members)) fun member hmember => ?_
  exact h _ (exists_of_mem_given hmember) _ rfl

end Fits

end Json

end ApiAnnotation
