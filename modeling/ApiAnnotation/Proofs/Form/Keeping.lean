import ApiAnnotation.Proofs.Entries
import ApiAnnotation.Proofs.Form.Law
import Mathlib.Data.List.Forall2

/-!
# What is read is written again

A value is read from a tree and written as JSON, and the question is what of the tree comes back.
For each shape of values there is a relation between the tree that was read and the JSON that is
written: texts come back as they are, lists item by item, maps key by key. A record comes back
member by member as far as it has fields for them (`ApiAnnotation.Json.Tree.KeepsRecord`): what it
has no field for is gone, and a field without a member may come back with its default.

Both JSON values and parts of a text can be looked upon as trees (`ApiAnnotation.HasTree`), so this
is shown once for both. A record is followed through the members that it is written as. Reading a
field replaces the one of these that is its own.

## Main definitions

* `ApiAnnotation.Json.Tree.KeepsMap`, `ApiAnnotation.Json.Tree.KeepsRecord`: how maps and records
  come back.
* `ApiAnnotation.Readable.Carries`: what is read is written again.
* `ApiAnnotation.Field.Forms`: fields that read the members that are written.

## Main statements

* `ApiAnnotation.Readable.Carries.list`, `ApiAnnotation.Readable.Carries.map`: lists and maps.
* `ApiAnnotation.Field.Forms.keepsRecord`: records.
-/

namespace ApiAnnotation

/-! ### How values come back -/

namespace Json.Tree

/-- The tree of an object whose keys are texts. -/
def ofMembers (members : List (String × Tree)) : Tree :=
  .object (members.map fun member => (some member.1, member.2)) none

/-- A text comes back as it is. -/
inductive KeepsText : Tree → Json → Prop
  /-- The text. -/
  | intro (s : String) : KeepsText (.string (some s)) (.string s)

/-- A truth value comes back as it is. -/
inductive KeepsFlag : Tree → Json → Prop
  /-- The truth value. -/
  | intro (b : Bool) : KeepsFlag (.bool b) (.bool b)

/-- A whole value comes back in normal form. -/
inductive KeepsWhole : Tree → Json → Prop
  /-- The value. -/
  | intro (j : Json) : KeepsWhole j.tree j.normal

/-- **A list comes back item by item.** -/
inductive KeepsItems (keeps : Tree → Json → Prop) : Tree → Json → Prop
  /-- The items in their order. -/
  | intro {items : List Tree} {js : List Json} :
    List.Forall₂ keeps items js → KeepsItems keeps (.array items none) (.array js)

/-- **A map comes back key by key**, with the last value of a key. -/
inductive KeepsMap (keeps : Tree → Json → Prop) : Tree → Json → Prop
  /-- The values of all keys. -/
  | intro {members : List (String × Tree)} {js : List (String × Json)} :
    (js.map (·.1)).Nodup →
      (∀ key, Option.Rel keeps (members.reverse.lookup key) (js.lookup key)) →
        KeepsMap keeps (ofMembers members) (.object js)

/-- **A part of a record**: a member that it has a field for. -/
structure Part where
  /-- The name of the member. -/
  name : String
  /-- How its value comes back. -/
  keeps : Tree → Json → Prop
  /-- Whether it must be there. -/
  required : Bool := false
  /-- What is written if it is not there. -/
  default : Option Json := none
  /-- The value that is as good as none where there is no default. -/
  vacant : Tree := .null

/-- **How a part comes back.** -/
inductive Part.Keeps (part : Part) : Option Tree → Option Json → Prop
  /-- What is there comes back. -/
  | given {tree : Tree} {j : Json} : part.keeps tree j → part.Keeps (some tree) (some j)
  /-- A value that is as good as none is left out. -/
  | vacant : part.required = false → part.default = none → part.Keeps (some part.vacant) none
  /-- What is not there comes as the default. -/
  | absent : part.required = false → part.Keeps none part.default

/-- How a part comes back from members: every member of its name does, and if there is none, there
is the default. -/
def Part.KeepsOf (part : Part) (members : List (String × Tree)) (value : Option Json) : Prop :=
  (∀ tree, (part.name, tree) ∈ members → part.Keeps (some tree) value) ∧
    (part.name ∉ members.map (·.1) → part.Keeps none value)

/-- **A record comes back part by part**, and nothing but its parts is written. -/
inductive KeepsRecord (parts : List Part) : Tree → Json → Prop
  /-- Parts that are given by their names, in any order. -/
  | named {members : List (String × Tree)} {js : List (String × Json)} :
    (js.map (·.1)).Sublist (parts.map (·.name)) →
      (∀ part ∈ parts, part.KeepsOf members (js.lookup part.name)) →
        KeepsRecord parts (ofMembers members) (.object js)
  /-- Parts that are given in their order. -/
  | positional {items : List Tree} {js : List (String × Json)} :
    (js.map (·.1)).Sublist (parts.map (·.name)) → items.length ≤ parts.length →
      (∀ (i : Nat) (part : Part), parts[i]? = some part →
        part.Keeps items[i]? (js.lookup part.name)) →
          KeepsRecord parts (.array items none) (.object js)

end Json.Tree

/-! ### Formats whose values have trees -/

/-- **A format whose values have trees**: what is read of a value tells its tree. -/
class HasTree (ν : Type) [Readable ν (Except Fault)] where
  /-- The tree of a value. -/
  tree : ν → Json.Tree
  /-- No value is `null`. -/
  tree_of_absent {v : ν} : Readable.present? v = .ok none → tree v = .null
  /-- A value that is there is itself. -/
  eq_of_present {v w : ν} : Readable.present? v = .ok (some w) → w = v
  /-- A text. -/
  tree_of_text {v : ν} {s : String} : Readable.text v = .ok s → tree v = .string (some s)
  /-- A truth value. -/
  tree_of_flag {v : ν} {b : Bool} : Readable.flag v = .ok b → tree v = .bool b
  /-- A list. -/
  tree_of_items {v : ν} {items : List ν} :
    Readable.items v = .ok { items } → tree v = .array (items.map tree) none
  /-- A map. -/
  tree_of_members {v : ν} {members : List (String × ν)} :
    Readable.members v = .ok { members := Field.keyed members } →
      tree v = .ofMembers (members.map fun member => (member.1, tree member.2))
  /-- A record by names. -/
  tree_of_named {v : ν} {members : List (String × ν)} :
    Readable.fields v = .ok (.named { members := Field.keyed members }) →
      tree v = .ofMembers (members.map fun member => (member.1, tree member.2))
  /-- A record by position. -/
  tree_of_positional {v : ν} {items : List ν} :
    Readable.fields v = .ok (.positional { items }) → tree v = .array (items.map tree) none
  /-- A whole value. -/
  tree_of_whole {v : ν} {j : Json} : Readable.whole v = .ok j → tree v = j.tree

/-- The trees of members. -/
def HasTree.trees {ν : Type} [Readable ν (Except Fault)] [HasTree ν]
    (members : List (String × ν)) : List (String × Json.Tree) :=
  members.map fun member => (member.1, tree member.2)

theorem Field.keyed_injective {ν : Type} {members members' : List (String × ν)}
    (h : Field.keyed members = Field.keyed members') : members = members' := by
  refine (List.map_inj_right fun member member' heq => ?_).mp h
  obtain ⟨hkey, hvalue⟩ := Prod.mk.inj heq
  exact Prod.ext (Except.ok.inj hkey) hvalue

namespace Json

theorem tree_object (members : List (String × Json)) :
    (object members).tree = .ofMembers (members.map fun member => (member.1, member.2.tree)) := by
  rw [tree, memberTrees_eq, Tree.ofMembers, List.map_map]
  rfl

namespace Text

variable {room : Nat} {close : Option Break}

theorem exists_of_map_eq_ok {α β : Type} {f : α → β} {x : Except Fault α} {b : β}
    (h : x.map f = .ok b) : ∃ a, x = .ok a ∧ f a = b := by
  rcases x with e | a
  · cases h
  · exact ⟨a, rfl, Except.ok.inj h⟩

/-- A list whose items are read in full. -/
theorem array_of_enterItems {trees : List Tree} {items : List Text}
    (h : enterItems room trees close = .ok { items }) :
    Tree.array trees close = .array (items.map tree) none := by
  cases room with
  | zero => cases h
  | succ room =>
    obtain ⟨rfl, hclose⟩ := Items.mk.inj (Except.ok.inj h)
    rw [Option.map_eq_none_iff.mp hclose, List.map_map]
    exact congrArg (Tree.array · none) (List.map_id _).symm

/-- An object whose members are read in full: its keys are texts. -/
theorem object_of_enterMembers {ms : List (Option String × Tree)} {members : List (String × Text)}
    (h : enterMembers room ms close = .ok { members := Field.keyed members }) :
    Tree.object ms close = .ofMembers (members.map fun member => (member.1, member.2.tree)) := by
  cases room with
  | zero => cases h
  | succ room =>
    obtain ⟨hmembers, hclose⟩ := Members.mk.inj (Except.ok.inj h)
    have hback := congrArg (List.map fun member : Except Fault String × Text =>
      (member.1.toOption, member.2.tree)) hmembers
    rw [List.map_map, Field.keyed, List.map_map] at hback
    have hms : ms = members.map fun member => (some member.1, member.2.tree) := by
      refine Eq.trans ?_ hback
      refine (List.map_id _).symm.trans (List.map_congr_left fun member _ => ?_)
      obtain ⟨key, tree⟩ := member
      cases key <;> rfl
    rw [Option.map_eq_none_iff.mp hclose, hms, Tree.ofMembers, List.map_map]
    rfl

end Text

end Json

/-- The trees of values. -/
instance : HasTree Json where
  tree := Json.tree
  tree_of_absent {v} h := by
    cases v with
    | null => rfl
    | _ => cases h
  eq_of_present {v w} h := by
    cases v with
    | null => cases h
    | _ => exact (Option.some.inj (Except.ok.inj h)).symm
  tree_of_text {v s} h := by
    cases v with
    | string s => exact congrArg (fun s => Json.tree (.string s)) (Except.ok.inj h)
    | _ => cases h
  tree_of_flag {v b} h := by
    cases v with
    | bool b => exact congrArg (fun b => Json.tree (.bool b)) (Except.ok.inj h)
    | _ => cases h
  tree_of_items {v items} h := by
    cases v with
    | array items =>
      obtain rfl := congrArg Items.items (Except.ok.inj h)
      rw [Json.tree, Json.itemTrees_eq]
    | _ => cases h
  tree_of_members {v members} h := by
    cases v with
    | object ms =>
      obtain rfl := Field.keyed_injective (congrArg Members.members (Except.ok.inj h))
      exact Json.tree_object ms
    | _ => cases h
  tree_of_named {v members} h := by
    cases v with
    | object ms =>
      obtain rfl := Field.keyed_injective
        (congrArg Members.members (Fields.named.inj (Except.ok.inj h)))
      exact Json.tree_object ms
    | _ => cases h
  tree_of_positional {v items} h := by
    cases v with
    | array items =>
      obtain rfl := congrArg Items.items (Fields.positional.inj (Except.ok.inj h))
      rw [Json.tree, Json.itemTrees_eq]
    | _ => cases h
  tree_of_whole h := congrArg Json.tree (Except.ok.inj h)

/-- The trees of parts of a text. -/
instance : HasTree Json.Text where
  tree := Json.Text.tree
  tree_of_absent {v} h := by
    obtain ⟨tree, room⟩ := v
    cases tree with
    | null => rfl
    | _ => cases h
  eq_of_present {v w} h := by
    obtain ⟨tree, room⟩ := v
    cases tree with
    | null => cases h
    | _ => exact (Option.some.inj (Except.ok.inj h)).symm
  tree_of_text {v s} h := by
    obtain ⟨tree, room⟩ := v
    rcases tree with _ | _ | _ | (_ | s) | _ | _ | _
    case string.some => exact congrArg (fun s => Json.Tree.string (some s)) (Except.ok.inj h)
    all_goals cases h
  tree_of_flag {v b} h := by
    obtain ⟨tree, room⟩ := v
    cases tree with
    | bool b => exact congrArg Json.Tree.bool (Except.ok.inj h)
    | _ => cases h
  tree_of_items {v items} h := by
    obtain ⟨tree, room⟩ := v
    cases tree with
    | array trees close => exact Json.Text.array_of_enterItems h
    | _ => cases h
  tree_of_members {v members} h := by
    obtain ⟨tree, room⟩ := v
    cases tree with
    | object ms close => exact Json.Text.object_of_enterMembers h
    | _ => cases h
  tree_of_named {v members} h := by
    obtain ⟨tree, room⟩ := v
    cases tree with
    | object ms close =>
      obtain ⟨ms', hms', heq⟩ := Json.Text.exists_of_map_eq_ok h
      obtain rfl := Fields.named.inj heq
      exact Json.Text.object_of_enterMembers hms'
    | array items close =>
      obtain ⟨items', -, heq⟩ := Json.Text.exists_of_map_eq_ok h
      cases heq
    | _ => cases h
  tree_of_positional {v items} h := by
    obtain ⟨tree, room⟩ := v
    cases tree with
    | array trees close =>
      obtain ⟨items', hitems', heq⟩ := Json.Text.exists_of_map_eq_ok h
      obtain rfl := Fields.positional.inj heq
      exact Json.Text.array_of_enterItems hitems'
    | object ms close =>
      obtain ⟨ms', -, heq⟩ := Json.Text.exists_of_map_eq_ok h
      cases heq
    | _ => cases h
  tree_of_whole {v j} h := (Json.tree_and_depth_of_value v.room v.tree j h).1

/-! ### What is read is written again -/

open Json.Tree

variable {ν : Type} [Readable ν (Except Fault)] [HasTree ν] {α β : Type}

/-- Lists with the same keys and related values have related values under a key. -/
theorem lookup_rel {α β : Type} {R : α → β → Prop} {l : List (String × α)} {l' : List (String × β)}
    (h : List.Forall₂ (fun entry entry' => entry.1 = entry'.1 ∧ R entry.2 entry'.2) l l')
    (key : String) : Option.Rel R (l.lookup key) (l'.lookup key) := by
  induction h with
  | nil => exact .none
  | @cons entry entry' l l' hentry _ ih =>
    obtain ⟨k, a⟩ := entry
    obtain ⟨k', b⟩ := entry'
    obtain ⟨rfl, hR⟩ := hentry
    rw [List.lookup_cons, List.lookup_cons]
    cases key == k with
    | true => exact .some hR
    | false => exact ih

theorem rel_map {α β γ : Type} {R : α → γ → Prop} {f : β → γ} {x : Option α} {y : Option β}
    (h : Option.Rel (fun a b => R a (f b)) x y) : Option.Rel R x (y.map f) := by
  cases h with
  | none => exact .none
  | some h => exact .some h

namespace Readable

/-- **What is read is written again**, as the relation says. -/
def Carries (read : ν → Except Fault α) (toJson : α → Json) (keeps : Json.Tree → Json → Prop) :
    Prop :=
  ∀ v a, read v = .ok a → keeps (HasTree.tree v) (toJson a)

theorem carries_text : Carries (text : ν → Except Fault String) .string KeepsText := by
  intro v s h
  rw [HasTree.tree_of_text h]
  exact .intro s

theorem carries_flag : Carries (flag : ν → Except Fault Bool) .bool KeepsFlag := by
  intro v b h
  rw [HasTree.tree_of_flag h]
  exact .intro b

variable {read : ν → Except Fault α} {toJson : α → Json} {keeps : Json.Tree → Json → Prop}

/-- What is read of a value that may be absent. -/
theorem optional_eq_ok {v : ν} {x : Option α} (h : optional read v = .ok x) :
    (HasTree.tree v = .null ∧ x = none) ∨ ∃ a, read v = .ok a ∧ x = some a := by
  rw [optional] at h
  obtain ⟨w, hpresent, hx⟩ := WithExtra.exists_of_bind h
  rcases w with _ | w
  · exact .inl ⟨HasTree.tree_of_absent hpresent, (Except.ok.inj hx).symm⟩
  · obtain ⟨a, ha, rfl⟩ := WithExtra.exists_of_bind_pure (f := some) hx
    obtain rfl := HasTree.eq_of_present hpresent
    exact .inr ⟨a, ha, rfl⟩

omit [Readable ν (Except Fault)] [HasTree ν] in
/-- The items of a list are read one by one. -/
theorem forall₂_of_each {vs : List ν} {as : List α} (h : each read vs = .ok as) :
    List.Forall₂ (fun v a => read v = .ok a) vs as := by
  induction vs generalizing as with
  | nil =>
    obtain rfl := Except.ok.inj h
    exact .nil
  | cons v vs ih =>
    rw [each] at h
    obtain ⟨a, ha, has⟩ := WithExtra.exists_of_bind h
    obtain ⟨rest, hrest, rfl⟩ := WithExtra.exists_of_bind_pure has
    exact .cons ha (ih hrest)

omit [Readable ν (Except Fault)] [HasTree ν] in
/-- The values of members are read one by one, their keys being texts. -/
theorem exists_keyed_of_eachMember {ms : List (Except Fault String × ν)}
    {entries : List (String × α)} (h : eachMember read ms = .ok entries) :
    ∃ members, ms = Field.keyed members ∧
      List.Forall₂ (fun member entry => member.1 = entry.1 ∧ read member.2 = .ok entry.2)
        members entries := by
  induction ms generalizing entries with
  | nil =>
    obtain rfl := Except.ok.inj h
    exact ⟨[], rfl, .nil⟩
  | cons m ms ih =>
    obtain ⟨key, v⟩ := m
    rw [eachMember] at h
    obtain ⟨key, hkey, hvalue⟩ := WithExtra.exists_of_bind h
    obtain ⟨a, ha, hentries⟩ := WithExtra.exists_of_bind hvalue
    obtain ⟨rest, hrest, rfl⟩ := WithExtra.exists_of_bind_pure hentries
    obtain rfl := hkey
    obtain ⟨members, rfl, hmembers⟩ := ih hrest
    exact ⟨(key, v) :: members, rfl, .cons ⟨rfl, ha⟩ hmembers⟩

/-- What is read as a list is one. -/
theorem exists_of_list {v : ν} {as : List α} (h : Readable.list read v = .ok as) :
    ∃ items, HasTree.tree v = .array (items.map HasTree.tree) none ∧
      List.Forall₂ (fun item a => read item = .ok a) items as := by
  rw [Readable.list] at h
  obtain ⟨⟨items, close⟩, hitems, hlist⟩ := WithExtra.exists_of_bind h
  obtain ⟨as, heach, hend⟩ := WithExtra.exists_of_bind hlist
  obtain ⟨_, hclose, has⟩ := WithExtra.exists_of_bind hend
  obtain rfl : close = none := Field.close_eq_none hclose
  obtain rfl := Except.ok.inj has
  exact ⟨items, HasTree.tree_of_items hitems, forall₂_of_each heach⟩

/-- **Lists come back** if their items do. -/
theorem Carries.list (h : Carries read toJson keeps) :
    Carries (Readable.list read) (fun as => .array (as.map toJson)) (KeepsItems keeps) := by
  intro v as has
  obtain ⟨items, htree, hitems⟩ := exists_of_list has
  rw [htree]
  refine .intro (List.forall₂_map_left_iff.mpr (List.forall₂_map_right_iff.mpr ?_))
  exact hitems.imp h

/-- **Maps come back** if their values do. -/
theorem Carries.map (h : Carries read toJson keeps) :
    Carries (Readable.map read) (.ofMap toJson) (KeepsMap keeps) := by
  intro v m hm
  rw [Readable.map] at hm
  obtain ⟨⟨ms, close⟩, hms, hmap⟩ := WithExtra.exists_of_bind hm
  obtain ⟨entries, heach, hend⟩ := WithExtra.exists_of_bind hmap
  obtain ⟨_, hclose, hentries⟩ := WithExtra.exists_of_bind hend
  obtain rfl : close = none := Field.close_eq_none hclose
  obtain rfl := Except.ok.inj hentries
  obtain ⟨members, rfl, hmembers⟩ := exists_keyed_of_eachMember heach
  rw [HasTree.tree_of_members hms]
  refine .intro (SortedMap.nodup_keys _) fun key => ?_
  have hpairs : List.Forall₂
      (fun member entry => member.1 = entry.1 ∧ keeps member.2 (toJson entry.2))
      (HasTree.trees members) entries :=
    List.forall₂_map_left_iff.mpr
      (hmembers.imp fun member entry hread => ⟨hread.1, h _ _ hread.2⟩)
  have hvalue : ((SortedMap.ofList entries).map toJson).entries.lookup key =
      (entries.reverse.lookup key).map toJson :=
    (SortedMap.get?_map toJson).trans (by rw [SortedMap.get?_ofList])
  rw [hvalue]
  exact rel_map (lookup_rel (R := fun tree a => keeps tree (toJson a))
    (List.forall₂_reverse_iff.mpr hpairs) key)

end Readable

/-! ### Records -/

/-- There is nothing under a key that no member has. -/
theorem Json.lookup_given_of_notMem {ms : List (String × Option Json)} {key : String}
    (h : key ∉ ms.map (·.1)) : (given ms).lookup key = none := by
  refine List.lookup_eq_none_iff.mpr fun member hmember => ?_
  have hmem : member.1 ∈ ms.map (·.1) := List.mem_map_of_mem (exists_of_mem_given hmember)
  have hne : key ≠ member.1 := fun heq => h (heq ▸ hmem)
  simpa using hne

/-- The value of a member that may be left out. -/
theorem Json.lookup_given {ms : List (String × Option Json)} {name : String} {value : Option Json}
    (h : (name, value) ∈ ms) (hkeys : (ms.map (·.1)).Nodup) :
    (given ms).lookup name = value := by
  induction ms with
  | nil => cases h
  | cons m ms ih =>
    obtain ⟨key, x⟩ := m
    rw [List.map_cons, List.nodup_cons] at hkeys
    have hcons : given ((key, x) :: ms) = (x.map (key, ·)).toList ++ given ms := by
      cases x <;> rfl
    rw [hcons, List.lookup_append]
    rcases List.mem_cons.mp h with heq | h
    · obtain ⟨rfl, rfl⟩ := Prod.mk.inj heq
      rw [lookup_given_of_notMem hkeys.1, Option.or_none]
      cases value with
      | none => rfl
      | some j => exact List.lookup_cons_self
    · have hne : (name == key) = false := by
        have hmem : name ∈ ms.map (·.1) := List.mem_map_of_mem h
        have hne : name ≠ key := fun heq => hkeys.1 (heq ▸ hmem)
        simpa using hne
      rw [ih h hkeys.2]
      cases x with
      | none => rfl
      | some j =>
        rw [Option.map_some, Option.toList_some, List.lookup_cons, hne, List.lookup_nil]
        rfl

namespace Field

open Json.Tree

/-- **A field that enters its value into the members** that a record is written as: reading it
replaces the member at its place. -/
structure Enters (members : α → List (String × Option Json)) (i : Nat)
    (field : Field (Except Fault) ν α) (part : Part) : Prop where
  /-- It goes by the name of its part. -/
  name_eq : field.name = part.name
  /-- It must be there if its part must. -/
  required_eq : field.required = part.required
  /-- What it reads is what is written. -/
  enters : ∀ v a a', field.read v a = .ok a' → ∃ value,
    members a' = (members a).set i (part.name, value) ∧
      part.Keeps (some (HasTree.tree v)) value

/-- **Fields that read the members that are written**, from the given place on. -/
inductive Forms (members : α → List (String × Option Json)) :
    Nat → List (Field (Except Fault) ν α) → List Part → Prop
  /-- No field is left. -/
  | nil (i : Nat) : Forms members i [] []
  /-- A field and its part. -/
  | cons {i : Nat} {field : Field (Except Fault) ν α} {part : Part}
      {fields : List (Field (Except Fault) ν α)} {parts : List Part} :
    field.Enters members i part → Forms members (i + 1) fields parts →
      Forms members i (field :: fields) (part :: parts)

end Field

namespace Json.Tree.Part

/-- **The law of a part**: what the record tells of it is what is written of it. -/
def law (members : α → List (String × Option Json)) (part : Part) : Field.Law ν α where
  name := part.name
  told v a := part.Keeps (some (HasTree.tree v)) ((given (members a)).lookup part.name)
  unset a := part.required = false → (given (members a)).lookup part.name = part.default

end Json.Tree.Part

namespace Field

variable {members : α → List (String × Option Json)} {i : Nat}
  {fields : List (Field (Except Fault) ν α)} {parts : List Part} {part : Part}

/-- Every field enters at the place of its part. -/
theorem Forms.exists_enters (h : Forms members i fields parts) {field : Field (Except Fault) ν α}
    (hfield : field ∈ fields) :
    ∃ k part, parts[k]? = some part ∧ field.Enters members (i + k) part := by
  induction h with
  | nil => cases hfield
  | @cons i field' part fields parts henters _ ih =>
    rcases List.mem_cons.mp hfield with rfl | hfield
    · exact ⟨0, part, rfl, henters⟩
    · obtain ⟨k, part', hpart', henters'⟩ := ih hfield
      refine ⟨k + 1, part', hpart', ?_⟩
      rwa [Nat.add_assoc, Nat.add_comm 1] at henters'

/-- Every part has a field in its place. -/
theorem Forms.exists_field (h : Forms members i fields parts) {k : Nat}
    (hpart : parts[k]? = some part) :
    ∃ field, fields[k]? = some field ∧ field.Enters members (i + k) part := by
  induction h generalizing k with
  | nil => cases hpart
  | @cons i field part' fields parts henters _ ih =>
    cases k with
    | zero =>
      obtain rfl := Option.some.inj hpart
      exact ⟨field, rfl, henters⟩
    | succ k =>
      obtain ⟨field', hfield', henters'⟩ := ih hpart
      refine ⟨field', hfield', ?_⟩
      rwa [Nat.add_assoc, Nat.add_comm 1] at henters'

theorem Forms.length_eq (h : Forms members i fields parts) : fields.length = parts.length := by
  induction h with
  | nil => rfl
  | cons _ _ ih => rw [List.length_cons, List.length_cons, ih]

theorem Forms.names_eq (h : Forms members i fields parts) :
    fields.map (·.name) = parts.map (·.name) := by
  induction h with
  | nil => rfl
  | cons henters _ ih => rw [List.map_cons, List.map_cons, henters.name_eq, ih]

/-- **The laws of all parts govern the fields.** -/
theorem Forms.governs (h : Forms members 0 fields parts)
    (hkeys : ∀ a, (members a).map (·.1) = parts.map (·.name)) (hnames : (parts.map (·.name)).Nodup)
    (hpart : part ∈ parts) : (part.law members).Governs fields := by
  obtain ⟨k, hk⟩ := List.mem_iff_getElem?.mp hpart
  have hnodup : ∀ a, ((members a).map (·.1)).Nodup := fun a => hkeys a ▸ hnames
  have hvalue : ∀ a value, (members a)[k]? = some (part.name, value) →
      (Json.given (members a)).lookup part.name = value := fun a value hat =>
    Json.lookup_given (List.mem_of_getElem? hat) (hnodup a)
  have hplace : ∀ a, ∃ value, (members a)[k]? = some (part.name, value) := by
    intro a
    have hat : ((members a).map (·.1))[k]? = some part.name := by
      rw [hkeys, List.getElem?_map, hk]
      rfl
    rw [List.getElem?_map] at hat
    obtain ⟨⟨key, value⟩, hat, rfl⟩ := Option.map_eq_some_iff.mp hat
    exact ⟨value, hat⟩
  constructor
  · intro field hfield hname v a a' hread
    obtain ⟨k', part', hk', hname', -, henters⟩ := h.exists_enters hfield
    have hsame : k' = k := by
      refine (List.getElem?_inj ?_ hnames).mp ?_
      · rw [List.length_map]
        exact (List.getElem?_eq_some_iff.mp hk').1
      · rw [List.getElem?_map, List.getElem?_map, hk', hk]
        exact congrArg some (hname'.symm.trans hname)
    subst hsame
    obtain rfl := Option.some.inj (hk'.symm.trans hk)
    obtain ⟨value, hset, hkeeps⟩ := henters v a a' hread
    obtain ⟨x, hx⟩ := hplace a
    have hx' : (members a')[k']? = some (part'.name, value) := by
      rw [hset, Nat.zero_add, List.getElem?_set_self (List.getElem?_eq_some_iff.mp hx).1]
    exact (congrArg (part'.Keeps (some (HasTree.tree v))) (hvalue a' value hx')).mpr hkeeps
  · intro field hfield hname v a a' hread
    obtain ⟨k', part', hk', hname', -, henters⟩ := h.exists_enters hfield
    have hne : 0 + k' ≠ k := by
      rintro rfl
      rw [Nat.zero_add, hk'] at hk
      obtain rfl := Option.some.inj hk
      exact hname hname'
    obtain ⟨value, hset, -⟩ := henters v a a' hread
    obtain ⟨x, hx⟩ := hplace a
    have hx' : (members a')[k]? = some (part.name, x) := by
      rw [hset, List.getElem?_set_ne hne, hx]
    have hsame : (Json.given (members a')).lookup part.name =
        (Json.given (members a)).lookup part.name := by
      rw [hvalue a x hx, hvalue a' x hx']
    exact ⟨fun hun hfree => hsame.trans (hun hfree),
      fun w hw => (congrArg (part.Keeps (some (HasTree.tree w))) hsame).mpr hw⟩

/-! ### Fields that enter their values -/

section Enters

variable {members : α → List (String × Option Json)} {i : Nat}
  {field : Field (Except Fault) ν α} {part : Part} {get : ν → Except Fault β} {toJson : β → Json}

/-- A field that gets a value and enters it. -/
theorem Enters.value {set : β → α → α} (hname : field.name = part.name)
    (hrequired : field.required = part.required)
    (hread : ∀ v a, field.read v a = do return set (← get v) a)
    (hget : Readable.Carries get toJson part.keeps)
    (hset : ∀ x a, members (set x a) = (members a).set i (part.name, some (toJson x))) :
    field.Enters members i part where
  name_eq := hname
  required_eq := hrequired
  enters v a a' h := by
    rw [hread] at h
    obtain ⟨x, hx, rfl⟩ := WithExtra.exists_of_bind_pure h
    exact ⟨_, hset x a, .given (hget v x hx)⟩

/-- A field that gets a value that may be absent, and enters it if it is there. -/
theorem Enters.optional {set : Option β → α → α} (hname : field.name = part.name)
    (hrequired : field.required = false)
    (hpart : part.required = false ∧ part.default = none ∧ part.vacant = .null)
    (hread : ∀ v a, field.read v a = do return set (← Readable.optional get v) a)
    (hget : Readable.Carries get toJson part.keeps)
    (hset : ∀ x a, members (set x a) = (members a).set i (part.name, x.map toJson)) :
    field.Enters members i part where
  name_eq := hname
  required_eq := hrequired.trans hpart.1.symm
  enters v a a' h := by
    rw [hread] at h
    obtain ⟨x, hx, rfl⟩ := WithExtra.exists_of_bind_pure h
    refine ⟨_, hset x a, ?_⟩
    rcases Readable.optional_eq_ok hx with ⟨hnull, rfl⟩ | ⟨y, hy, rfl⟩
    · rw [hnull, ← hpart.2.2]
      exact .vacant hpart.1 hpart.2.1
    · exact .given (hget v y hy)

end Enters

section Record

variable (h : Forms members 0 fields parts) (hgoBy : GoBy fields (parts.map (·.name)))
  (hkeys : ∀ a, (members a).map (·.1) = parts.map (·.name)) (hnames : (parts.map (·.name)).Nodup)

include h hgoBy hkeys hnames

/-- **Parts that are given by their names** come back. -/
theorem Forms.keepsOf_of_readMembers {other : String → ν → α → Except Fault α}
    (hother : ∀ part ∈ parts, ∀ key v a a', other key v a = .ok a' →
      (part.law members : Law ν α).Spares a a')
    {initial a : α} {ms : List (String × ν)}
    (hread : readMembers fields other initial { members := keyed ms } = .ok a)
    (hpart : part ∈ parts) (hdefault : part.required = false →
      (Json.given (members initial)).lookup part.name = part.default) :
    part.KeepsOf (HasTree.trees ms) ((Json.given (members a)).lookup part.name) := by
  have hmem : part.name ∈ parts.map (·.name) := List.mem_map_of_mem hpart
  have hfollows := (h.governs hkeys hnames hpart).follows_of_readMembers (hother part hpart)
    hdefault hread
  constructor
  · intro tree htree
    obtain ⟨⟨key, v⟩, hmember, heq⟩ := List.mem_map.mp htree
    obtain ⟨rfl, rfl⟩ := Prod.mk.inj heq
    exact hfollows.told _ hmember (hgoBy.owner?_eq_some_iff.mpr ⟨rfl, hmem⟩)
  · intro habsent
    have hnot : part.name ∉ owners fields ms := by
      intro howned
      obtain ⟨member, hmember, howner⟩ := List.mem_filterMap.mp howned
      obtain ⟨hkey, -⟩ := hgoBy.owner?_eq_some_iff.mp howner
      refine habsent ?_
      rw [HasTree.trees, List.map_map, ← hkey]
      exact List.mem_map_of_mem (f := fun member => member.1) hmember
    obtain ⟨k, hk⟩ := List.mem_iff_getElem?.mp hpart
    obtain ⟨field, hfield, henters⟩ := h.exists_field hk
    have hfree : part.required = false := by
      rcases hmust : part.required with _ | _
      · rfl
      · have howned := required_mem_owners hread (List.mem_of_getElem? hfield)
          (henters.required_eq.trans hmust)
        exact absurd (henters.name_eq ▸ howned) hnot
    rw [hfollows.unset hnot hfree]
    exact .absent hfree

/-- **Records come back** part by part. -/
theorem Forms.keepsRecord {initial a : α} {v : ν}
    (hdefault : ∀ part ∈ parts, part.required = false →
      (Json.given (members initial)).lookup part.name = part.default)
    (hread : readRecord fields initial v = .ok a) :
    KeepsRecord parts (HasTree.tree v) (.record (members a)) := by
  have hsublist : ((Json.given (members a)).map (·.1)).Sublist (parts.map (·.name)) :=
    hkeys a ▸ Json.keys_given_sublist (members a)
  have hrecord : Json.record (members a) = .object (Json.given (members a)) := rfl
  rw [hrecord]
  rw [readRecord] at hread
  obtain ⟨shape, hfields, hshape⟩ := WithExtra.exists_of_bind hread
  rcases shape with ms | ⟨items, close⟩
  · obtain ⟨ms, rfl⟩ := exists_keyed_of_readMembers hshape
    rw [HasTree.tree_of_named hfields]
    refine .named hsublist fun part hpart => ?_
    refine h.keepsOf_of_readMembers hgoBy hkeys hnames ?_ hshape hpart (hdefault part hpart)
    intro part hpart key v a a' hskip
    obtain ⟨-, -, rfl⟩ := WithExtra.exists_of_bind_pure hskip
    exact ⟨id, fun _ => id⟩
  · obtain ⟨rfl, hlength⟩ := length_le_of_readPositional hshape
    rw [HasTree.tree_of_positional hfields]
    refine .positional hsublist ?_ fun i part hpart => ?_
    · rw [List.length_map, ← h.length_eq]
      exact hlength
    · obtain ⟨field, hfield, henters⟩ := h.exists_field hpart
      have hmem := List.mem_of_getElem? hpart
      obtain ⟨-, hat⟩ := (h.governs hkeys hnames hmem).follows_of_readPositional
        (h.names_eq ▸ hnames) hshape
      obtain ⟨htold, hnone⟩ := hat i field hfield henters.name_eq
      rw [List.getElem?_map]
      rcases hitem : items[i]? with _ | w
      · obtain ⟨hrequired, hspares⟩ := hnone hitem
        have hfree : part.required = false := henters.required_eq.symm.trans hrequired
        rw [hspares.1 (hdefault part hmem) hfree]
        exact .absent hfree
      · exact htold w hitem

end Record

/-- A record is written again from what it is read from. -/
theorem carries_readRecord {toJson : α → Json} (hjson : ∀ a, toJson a = .record (members a))
    (hgoBy : GoBy fields (parts.map (·.name)))
    (hkeys : ∀ a, (members a).map (·.1) = parts.map (·.name)) (hnames : (parts.map (·.name)).Nodup)
    {initial : α} (hdefault : ∀ part ∈ parts, part.required = false →
      (Json.given (members initial)).lookup part.name = part.default)
    (h : Forms members 0 fields parts) :
    Readable.Carries (readRecord fields initial) toJson (KeepsRecord parts) := by
  intro v a hread
  rw [hjson]
  exact h.keepsRecord hgoBy hkeys hnames hdefault hread

end Field

end ApiAnnotation
