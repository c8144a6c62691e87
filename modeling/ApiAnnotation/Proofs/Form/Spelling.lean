import ApiAnnotation.Form.Directive
import ApiAnnotation.Proofs.Form.Law
import ApiAnnotation.Proofs.Form.Operation
import Mathlib.Data.List.Nodup

/-!
# Spellings of blocks

A block is written in one way and read in many. The members of every object may stand in any order
and in the company of others that nobody knows; the directives go by two names; what is empty or
absent may be left out or be `null`. `ApiAnnotation.Block.Spells` says which trees of a text spell a
block, and however a block is spelled, it is read. Only where it stands in a source is lost, which
its form does not say.

There are two kinds of nothing that must not be mixed up: a directive without a type, which has
nothing or `null` there, and one whose type has no name, which has an object there.

## Main definitions

* `ApiAnnotation.Json.Tree.IsObject`: an object with given members.
* `ApiAnnotation.Block.Spells`: how a block is spelled.

## Main statements

* `ApiAnnotation.Json.Tree.IsObject.exists_readRecord`: an object is read whatever the order of its
  members.
* `ApiAnnotation.Block.Spells.read`: a block is read however it is spelled.
* `ApiAnnotation.decode_toJson_and_decode_spelled`: the forms of fragments and blocks lose nothing.
-/

namespace ApiAnnotation

open ShowsJson

namespace Json.Tree

/-- The members that are there. -/
def given (members : List (String × Option Tree)) : List (String × Tree) :=
  members.filterMap fun (key, value) => value.map (key, ·)

/-- **An object with the given members**: they stand in any order, and among them may stand further
ones that go by none of the names. -/
inductive IsObject (names : List String) (members : List (String × Option Tree)) : Tree → Prop
  /-- The members of the object, in any order. -/
  | intro (all further : List (String × Tree)) :
    all.Perm (given members ++ further) →
      (∀ member ∈ further, member.1 ∉ names ∧ member.2.skipFault? = none) →
        IsObject names members (.object (all.map fun member => (some member.1, member.2)) none)

/-- **How a text is spelled**: as it stands, and an empty one also by `null` or not at all. -/
inductive SpellsText : String → Option Tree → Prop
  /-- The text stands there. -/
  | given (s : String) : SpellsText s (some (.string (some s)))
  /-- An empty text is `null`. -/
  | null : SpellsText "" (some .null)
  /-- An empty text is left out. -/
  | absent : SpellsText "" none

/-- **How a value is spelled that may be absent**: if it is, by `null` or not at all. -/
inductive SpellsOption {α : Type} (spells : α → Tree → Prop) : Option α → Option Tree → Prop
  /-- The value stands there. -/
  | given {a : α} {tree : Tree} : spells a tree → SpellsOption spells (some a) (some tree)
  /-- An absent value is `null`. -/
  | null : SpellsOption spells none (some .null)
  /-- An absent value is left out. -/
  | absent : SpellsOption spells none none

end Json.Tree

open Json.Tree

/-- **How a type is spelled**: if it has no name, the name is `null` or left out, but there is an
object. -/
def TypeExpr.Spells (t : TypeExpr) (tree : Json.Tree) : Prop :=
  ∃ name, SpellsOption (fun s tree => tree = .string (some s)) t.name name ∧
    tree.IsObject ["name"] [("name", name)]

/-- **How a directive is spelled.** -/
def Directive.Spells (d : Directive) (tree : Json.Tree) : Prop :=
  ∃ name type description, SpellsText d.name name ∧ SpellsOption TypeExpr.Spells d.type type ∧
    SpellsText d.description description ∧
      tree.IsObject ["title", "name", "type", "description"]
        [("title", some (.string (some d.title))), ("name", name), ("type", type),
          ("description", description)]

/-- **How a block is spelled**, its directives going by one of two names. -/
def Block.Spells (block : Block) (tree : Json.Tree) : Prop :=
  ∃ description key items, SpellsText block.description description ∧
    key ∈ ["tags", "directives"] ∧ List.Forall₂ Directive.Spells block.directives items ∧
      tree.IsObject ["description", "tags", "directives"]
        [("description", description), (key, some (.array items none))]

/-! ### Reading an object -/

namespace Json.Tree

variable {names : List String} {members : List (String × Option Tree)} {tree : Tree} {α : Type}
  {fields : List (Field (Except Fault) Text α)} {room : Nat}

/-- Members as parts of a text. -/
def placed (room : Nat) (members : List (String × Tree)) : List (String × Text) :=
  members.map fun member => (member.1, ⟨member.2, room⟩)

theorem fields_object (room : Nat) (members : List (String × Tree)) :
    Readable.fields (⟨.object (members.map fun member => (some member.1, member.2)) none,
      room + 1⟩ : Text) = .ok (.named { members := Field.keyed (placed room members) }) := by
  show (Text.enterMembers (room + 1) _ none).map Fields.named = _
  rw [Text.enterMembers, placed, Field.keyed, List.map_map, List.map_map]
  rfl

theorem mem_given {key : String} {v : Tree} :
    (key, v) ∈ given members ↔ (key, some v) ∈ members := by
  rw [given, List.mem_filterMap]
  constructor
  · rintro ⟨⟨key', value⟩, hmem, hvalue⟩
    obtain ⟨v', rfl, heq⟩ := Option.map_eq_some_iff.mp hvalue
    obtain ⟨rfl, rfl⟩ := Prod.mk.inj heq
    exact hmem
  · intro hmem
    exact ⟨(key, some v), hmem, rfl⟩

/-- Members that are given go to different fields if all members do. -/
theorem nodup_owners_given (h : (members.map fun member => Field.owner? fields member.1).Nodup) :
    ((given members).filterMap fun member => Field.owner? fields member.1).Nodup := by
  rw [given, List.filterMap_filterMap]
  refine (List.pairwise_map.mp h).filterMap _ fun member member' hne name hname name' hname' => ?_
  obtain ⟨entry, hentry, howner⟩ := Option.bind_eq_some_iff.mp hname
  obtain ⟨entry', hentry', howner'⟩ := Option.bind_eq_some_iff.mp hname'
  obtain ⟨v, -, rfl⟩ := Option.map_eq_some_iff.mp hentry
  obtain ⟨v', -, rfl⟩ := Option.map_eq_some_iff.mp hentry'
  rintro rfl
  exact hne (howner.trans howner'.symm)

section Order

variable {all further : List (String × Tree)} (hperm : all.Perm (given members ++ further))
  (hfurther : ∀ member ∈ further, member.1 ∉ names ∧ member.2.skipFault? = none)
  (hnames : ∀ key, Field.owner? fields key = none ↔ key ∉ names)

include hperm hfurther hnames

/-- Further members go to no field, so the fields that are given are those of the given members. -/
theorem owners_placed_perm (room : Nat) :
    (Field.owners fields (placed room all)).Perm
      ((given members).filterMap fun member => Field.owner? fields member.1) := by
  have hnone : further.filterMap (fun member => Field.owner? fields member.1) = [] :=
    List.filterMap_eq_nil_iff.mpr fun member hmember =>
      (hnames _).mpr (hfurther member hmember).1
  have hplaced : Field.owners fields (placed room all) =
      all.filterMap fun member => Field.owner? fields member.1 :=
    List.filterMap_map
  have hsplit := hperm.filterMap fun member => Field.owner? fields member.1
  rw [List.filterMap_append, hnone, List.append_nil] at hsplit
  rw [hplaced]
  exact hsplit

/-- Every member of an object can be read if the given ones can, the further ones being skipped. -/
theorem canRead_placed
    (hread : ∀ member ∈ members, ∃ field, fields.find? (Field.answersTo member.1) = some field ∧
      ∀ v ∈ member.2, ∀ a, ∃ a', field.read ⟨v, room⟩ a = .ok a') :
    ∀ member ∈ placed room all,
      Field.CanRead fields (fun _ v a => do Readable.skip v; return a) member := by
  intro member hmember
  obtain ⟨⟨key, v⟩, hall, rfl⟩ := List.mem_map.mp hmember
  rcases List.mem_append.mp (hperm.mem_iff.mp hall) with hgiven | hmore
  · obtain ⟨field, hfind, hfield⟩ := hread _ (mem_given.mp hgiven)
    refine ⟨fun field' hfield' => ?_, fun hnone => ?_⟩
    · obtain rfl := Option.some.inj (hfind.symm.trans hfield')
      exact hfield v rfl
    · cases hfind.symm.trans hnone
  · obtain ⟨hforeign, hskip⟩ := hfurther _ hmore
    have hnone := Option.map_eq_none_iff.mp ((hnames key).mpr hforeign)
    refine ⟨fun field hfield => ?_, fun _ a => ⟨a, ?_⟩⟩
    · cases hnone.symm.trans hfield
    · show (Fault.check v.skipFault? >>= fun _ => pure a) = _
      rw [hskip]
      rfl

end Order

/-- **A record that is read from an object** follows every law that governs its fields: the one
member of its field is told, and a field without a member stays unset. -/
def Reflects (fields : List (Field (Except Fault) Text α)) (members : List (String × Option Tree))
    (room : Nat) (initial a : α) : Prop :=
  ∀ law : Field.Law Text α, law.Governs fields → law.unset initial →
    (∀ member ∈ members, Field.owner? fields member.1 = some law.name →
      (∀ v ∈ member.2, law.told ⟨v, room⟩ a) ∧ (member.2 = none → law.unset a)) ∧
    ((∀ member ∈ members, Field.owner? fields member.1 ≠ some law.name) → law.unset a)

/-- **An object is read** whatever the order of its members. -/
theorem IsObject.exists_readRecord (h : tree.IsObject names members)
    (fields : List (Field (Except Fault) Text α)) (initial : α)
    (hnames : ∀ key, Field.owner? fields key = none ↔ key ∉ names)
    (howners : (members.map fun member => Field.owner? fields member.1).Nodup)
    (hread : ∀ member ∈ members, ∃ field, fields.find? (Field.answersTo member.1) = some field ∧
      ∀ v ∈ member.2, ∀ a, ∃ a', field.read ⟨v, room⟩ a = .ok a')
    (hrequired : ∀ field ∈ fields, field.required = true → ∃ key v,
      (key, some v) ∈ members ∧ Field.owner? fields key = some field.name) :
    ∃ a, Field.readRecord fields initial ⟨tree, room + 1⟩ = .ok a ∧
      Reflects fields members room initial a := by
  obtain ⟨all, further, hperm, hfurther⟩ := h
  have howned := owners_placed_perm hperm hfurther hnames room
  have hall : ∀ field ∈ fields, field.required = true →
      field.name ∈ Field.owners fields (placed room all) := by
    intro field hfield hmust
    obtain ⟨key, v, hmember, hkey⟩ := hrequired field hfield hmust
    exact howned.mem_iff.mpr (List.mem_filterMap.mpr ⟨(key, v), mem_given.mpr hmember, hkey⟩)
  obtain ⟨a, ha⟩ := Field.exists_readMembers (canRead_placed hperm hfurther hnames hread)
    (howned.nodup_iff.mpr (nodup_owners_given howners)) hall initial
  refine ⟨a, ?_, fun law hlaw hunset => ?_⟩
  · rw [Field.readRecord, fields_object]
    exact ha
  have hskip : ∀ (key : String) (v : Text) (a a' : α),
      (do Readable.skip v; return a) = Except.ok a' → law.Spares a a' := by
    intro key v a a' hread
    obtain ⟨-, -, rfl⟩ := WithExtra.exists_of_bind_pure hread
    exact ⟨id, fun _ => id⟩
  have hfollows := hlaw.follows_of_readMembers hskip hunset ha
  have hgiven : law.name ∈ Field.owners fields (placed room all) →
      ∃ key v, (key, some v) ∈ members ∧ Field.owner? fields key = some law.name := by
    intro hmem
    obtain ⟨⟨key, v⟩, hgiven, hkey⟩ := List.mem_filterMap.mp (howned.mem_iff.mp hmem)
    exact ⟨key, v, mem_given.mp hgiven, hkey⟩
  constructor
  · rintro ⟨key, value⟩ hmember hkey
    refine ⟨fun v hv => ?_, fun habsent => hfollows.unset fun hmem => ?_⟩
    · obtain rfl := Option.mem_def.mp hv
      have hmem := hperm.mem_iff.mpr (List.mem_append_left further (mem_given.mpr hmember))
      exact hfollows.told (key, ⟨v, room⟩) (List.mem_map_of_mem hmem) hkey
    · -- another member would go to the same field
      obtain ⟨key', v, hmember', hkey'⟩ := hgiven hmem
      have heq := List.inj_on_of_nodup_map howners hmember hmember' (hkey.trans hkey'.symm)
      cases habsent.symm.trans (Prod.mk.inj heq).2
  · intro hnone
    refine hfollows.unset fun hmem => ?_
    obtain ⟨key, v, hmember, hkey⟩ := hgiven hmem
    exact hnone _ hmember hkey

/-! ### Parts of a record -/

variable {β : Type} {get : Text → Except Fault β} {default x y : β} {value : Option Tree}

/-- **What is got from a member**, or from there being none. -/
def Gets (get : Text → Except Fault β) (default : β) (room : Nat) (value : Option Tree) (x : β) :
    Prop :=
  (∀ v ∈ value, get ⟨v, room⟩ = .ok x) ∧ (value = none → x = default)

theorem Gets.unique (h : Gets get default room value x) (h' : Gets get default room value y) :
    x = y := by
  cases value with
  | none => rw [h.2 rfl, h'.2 rfl]
  | some v => exact Except.ok.inj ((h.1 v rfl).symm.trans (h'.1 v rfl))

/-- A part of a record is what is got from its member. -/
theorem Reflects.part_eq {initial a : α} (h : Reflects fields members room initial a)
    {name : String} {part : α → β} (key : String)
    (hgoverns : (Field.Law.ofGet name get part default).Governs fields)
    (hinitial : part initial = default) (hmember : (key, value) ∈ members)
    (howner : Field.owner? fields key = some name) (hgets : Gets get default room value x) :
    part a = x :=
  Gets.unique ((h _ hgoverns hinitial).1 _ hmember howner) hgets

/-- A member from which something is got can be read by a field that sets it. -/
theorem Gets.canRead (h : Gets get default room value x) {key : String}
    {field : Field (Except Fault) Text α} {set : β → α → α}
    (hfind : fields.find? (Field.answersTo key) = some field)
    (hread : ∀ v a, field.read v a = do return set (← get v) a) :
    ∃ field, fields.find? (Field.answersTo key) = some field ∧
      ∀ v ∈ value, ∀ a, ∃ a', field.read ⟨v, room⟩ a = .ok a' := by
  refine ⟨field, hfind, fun v hv a => ⟨set x a, ?_⟩⟩
  rw [hread, h.1 v hv]
  rfl

theorem SpellsText.gets {s : String} (h : SpellsText s value) (room : Nat) :
    Gets (Readable.orDefault "" Readable.text) "" room value s := by
  cases h with
  | given => exact ⟨by rintro v ⟨⟩; rfl, nofun⟩
  | null => exact ⟨by rintro v ⟨⟩; rfl, nofun⟩
  | absent => exact ⟨nofun, fun _ => rfl⟩

/-- **A list is read** if its items are. -/
theorem list_read {read : Text → Except Fault β} {bs : List β} {items : List Tree}
    (h : List.Forall₂ (fun b tree => read ⟨tree, room⟩ = .ok b) bs items) :
    Readable.list read (⟨.array items none, room + 1⟩ : Text) = .ok bs := by
  have heach : Readable.each read (items.map fun tree => ⟨tree, room⟩) = .ok bs := by
    induction h with
    | nil => rfl
    | cons hread _ ih =>
      rw [List.map_cons, Readable.each, hread, ih]
      rfl
  show (Readable.each read _ >>= _) = _
  rw [heach]
  rfl

theorem present?_of_ne_null {tree : Tree} (h : tree ≠ .null) (room : Nat) :
    Readable.present? (⟨tree, room⟩ : Text) = .ok (some ⟨tree, room⟩) := by
  cases tree with
  | null => exact absurd rfl h
  | _ => rfl

theorem SpellsOption.gets {spells : β → Tree → Prop} {b : Option β}
    (h : SpellsOption spells b value)
    (hget : ∀ {b tree}, spells b tree → tree ≠ .null ∧ get ⟨tree, room⟩ = .ok b) :
    Gets (Readable.optional get) none room value b := by
  cases h with
  | given h =>
    obtain ⟨hnull, hget⟩ := hget h
    refine ⟨fun v hv => ?_, fun hnone => ?_⟩
    · obtain rfl := Option.mem_some_iff.mp hv
      rw [Readable.optional, present?_of_ne_null hnull]
      show (get _ >>= fun b => pure (some b)) = _
      rw [hget]
      rfl
    · cases hnone
  | null =>
    refine ⟨fun v hv => ?_, fun hnone => ?_⟩
    · obtain rfl := Option.mem_some_iff.mp hv
      rfl
    · cases hnone
  | absent => exact ⟨fun v hv => absurd hv (Option.not_mem_none v), fun _ => rfl⟩

end Json.Tree

/-! ### Reading blocks -/

namespace TypeExpr

theorem Spells.ne_null {t : TypeExpr} {tree : Json.Tree} (h : t.Spells tree) : tree ≠ .null := by
  obtain ⟨name, -, ⟨-, -⟩⟩ := h
  exact nofun

theorem Spells.read {t : TypeExpr} {tree : Json.Tree} (h : t.Spells tree) (room : Nat) :
    TypeExpr.read (⟨tree, room + 1⟩ : Json.Text) = .ok t := by
  obtain ⟨name, hname, hobject⟩ := h
  have hname : Gets (Readable.optional Readable.text) none room name t.name :=
    hname.gets (by rintro s tree rfl; exact ⟨nofun, rfl⟩)
  have hgoverns : (Field.Law.ofGet "name" (Readable.optional Readable.text) TypeExpr.name none :
      Field.Law Json.Text TypeExpr).Governs TypeExpr.fields :=
    .own_cons rfl (fun _ _ => rfl) (fun _ _ => rfl) .nil
  obtain ⟨t', ht', hreflects⟩ := hobject.exists_readRecord TypeExpr.fields {}
    (Field.GoBy.owner?_eq_none_iff rfl)
    (by show [some "name"].Nodup; decide)
    (by simpa using hname.canRead rfl fun _ _ => rfl) (by simp [TypeExpr.fields])
  have heq : t'.name = t.name :=
    hreflects.part_eq "name" hgoverns rfl (List.mem_singleton_self _) rfl hname
  rw [TypeExpr.read, ht']
  exact congrArg (fun name => Except.ok (⟨name⟩ : TypeExpr)) heq

end TypeExpr

attribute [ext] Directive Block

namespace Directive

variable {ν : Type} [Readable ν (Except Fault)]

theorem governs_title : (Field.Law.ofGet "title" Readable.text title "").Governs
    (fields : List (Field (Except Fault) ν Directive)) := by
  refine .own_cons rfl (fun _ _ => rfl) (fun _ _ => rfl) ?_
  refine .other_cons (by simp) (fun _ _ => rfl) (fun _ _ => rfl) ?_
  refine .other_cons (by simp) (fun _ _ => rfl) (fun _ _ => rfl) ?_
  refine .other_cons (by simp) (fun _ _ => rfl) (fun _ _ => rfl) ?_
  exact .nil

theorem governs_name :
    (Field.Law.ofGet "name" (Readable.orDefault "" Readable.text) Directive.name "").Governs
      (fields : List (Field (Except Fault) ν Directive)) := by
  refine .other_cons (by simp) (fun _ _ => rfl) (fun _ _ => rfl) ?_
  refine .own_cons rfl (fun _ _ => rfl) (fun _ _ => rfl) ?_
  refine .other_cons (by simp) (fun _ _ => rfl) (fun _ _ => rfl) ?_
  refine .other_cons (by simp) (fun _ _ => rfl) (fun _ _ => rfl) ?_
  exact .nil

theorem governs_type :
    (Field.Law.ofGet "type" (Readable.optional TypeExpr.read) Directive.type none).Governs
      (fields : List (Field (Except Fault) ν Directive)) := by
  refine .other_cons (by simp) (fun _ _ => rfl) (fun _ _ => rfl) ?_
  refine .other_cons (by simp) (fun _ _ => rfl) (fun _ _ => rfl) ?_
  refine .own_cons rfl (fun _ _ => rfl) (fun _ _ => rfl) ?_
  refine .other_cons (by simp) (fun _ _ => rfl) (fun _ _ => rfl) ?_
  exact .nil

theorem governs_description :
    (Field.Law.ofGet "description" (Readable.orDefault "" Readable.text) description "").Governs
      (fields : List (Field (Except Fault) ν Directive)) := by
  refine .other_cons (by simp) (fun _ _ => rfl) (fun _ _ => rfl) ?_
  refine .other_cons (by simp) (fun _ _ => rfl) (fun _ _ => rfl) ?_
  refine .other_cons (by simp) (fun _ _ => rfl) (fun _ _ => rfl) ?_
  refine .own_cons rfl (fun _ _ => rfl) (fun _ _ => rfl) ?_
  exact .nil

/-- **A directive is read** however it is spelled. -/
theorem Spells.read {d : Directive} {tree : Json.Tree} (h : d.Spells tree) (room : Nat) :
    Directive.read (⟨tree, room + 2⟩ : Json.Text) = .ok d := by
  obtain ⟨name, type, description, hname, htype, hdescription, hobject⟩ := h
  have htitle : Gets Readable.text "" (room + 1) (some (.string (some d.title))) d.title :=
    ⟨by rintro v ⟨⟩; rfl, nofun⟩
  have hname := hname.gets (room + 1)
  have htype : Gets (Readable.optional TypeExpr.read) none (room + 1) type d.type :=
    htype.gets fun h => ⟨h.ne_null, h.read room⟩
  have hdescription := hdescription.gets (room + 1)
  obtain ⟨d', hd', hreflects⟩ := hobject.exists_readRecord Directive.fields default
    (Field.GoBy.owner?_eq_none_iff rfl)
    (by show [some "title", some "name", some "type", some "description"].Nodup; decide)
    (by
      simp only [List.forall_mem_cons]
      exact ⟨htitle.canRead rfl fun _ _ => rfl, hname.canRead rfl fun _ _ => rfl,
        htype.canRead rfl fun _ _ => rfl, hdescription.canRead rfl fun _ _ => rfl,
        List.forall_mem_nil _⟩)
    (List.forall_mem_cons.mpr ⟨fun _ => ⟨"title", _, List.mem_cons_self, rfl⟩, by simp⟩)
  rw [Directive.read, hd']
  refine congrArg Except.ok (Directive.ext ?_ ?_ ?_ ?_)
  · exact hreflects.part_eq "title" governs_title rfl (by simp) rfl htitle
  · exact hreflects.part_eq "name" governs_name rfl (by simp) rfl hname
  · exact hreflects.part_eq "type" governs_type rfl (by simp) rfl htype
  · exact hreflects.part_eq "description" governs_description rfl (by simp) rfl
      hdescription

end Directive

namespace Block

variable {ν : Type} [Readable ν (Except Fault)]

theorem governs_description :
    (Field.Law.ofGet "description" (Readable.orDefault "" Readable.text) description "").Governs
      (fields : List (Field (Except Fault) ν Block)) := by
  refine .own_cons rfl (fun _ _ => rfl) (fun _ _ => rfl) ?_
  refine .other_cons (by simp) (fun _ _ => rfl) (fun _ _ => rfl) ?_
  exact .nil

theorem governs_directives :
    (Field.Law.ofGet "tags" (Readable.list Directive.read) directives []).Governs
      (fields : List (Field (Except Fault) ν Block)) := by
  refine .other_cons (by simp) (fun _ _ => rfl) (fun _ _ => rfl) ?_
  refine .own_cons rfl (fun _ _ => rfl) (fun _ _ => rfl) ?_
  exact .nil

/-- No field says where a block stands. -/
theorem governs_span :
    (Field.Law.ofGet "span" (fun _ => Except.ok none) span none).Governs
      (fields : List (Field (Except Fault) ν Block)) := by
  refine .other_cons (by simp) (fun _ _ => rfl) (fun _ _ => rfl) ?_
  refine .other_cons (by simp) (fun _ _ => rfl) (fun _ _ => rfl) ?_
  exact .nil

/-- The names under which a block is read. -/
theorem owner?_eq_none_iff (key : String) :
    Field.owner? (fields : List (Field (Except Fault) ν Block)) key = none ↔
      key ∉ ["description", "tags", "directives"] := by
  rw [Field.owner?, Option.map_eq_none_iff, List.find?_eq_none]
  simp [fields, Field.answersTo, @eq_comm _ key]

/-- **A block is read** however it is spelled, but for where it stands. -/
theorem Spells.read {b : Block} {tree : Json.Tree} (h : b.Spells tree) (room : Nat) :
    Block.read (⟨tree, room + 4⟩ : Json.Text) = .ok { b with span := none } := by
  obtain ⟨description, key, items, hdescription, hkey, hitems, hobject⟩ := h
  have hdescription := hdescription.gets (room + 3)
  have htags : Gets (Readable.list Directive.read) [] (room + 3) (some (.array items none))
      b.directives := by
    refine ⟨?_, nofun⟩
    rintro v ⟨⟩
    exact list_read (hitems.imp fun _ _ h => h.read room)
  have howner : Field.owner? (fields : List (Field (Except Fault) Json.Text Block)) key =
      some "tags" := by
    rcases List.mem_pair.mp hkey with rfl | rfl <;> rfl
  obtain ⟨b', hb', hreflects⟩ := hobject.exists_readRecord Block.fields {}
    owner?_eq_none_iff
    (by
      simp only [List.map_cons, List.map_nil, howner]
      show [some "description", some "tags"].Nodup
      decide)
    (by
      simp only [List.forall_mem_cons]
      refine ⟨hdescription.canRead rfl fun _ _ => rfl, ?_, List.forall_mem_nil _⟩
      rcases List.mem_pair.mp hkey with rfl | rfl <;> exact htags.canRead rfl fun _ _ => rfl)
    (by simp [fields])
  rw [Block.read, hb']
  refine congrArg Except.ok (Block.ext ?_ ?_ ?_)
  · exact hreflects.part_eq "description" governs_description rfl (by simp) rfl hdescription
  · exact hreflects.part_eq key governs_directives rfl (by simp) howner htags
  · refine (hreflects _ governs_span rfl).2
      (List.forall_mem_cons.mpr ⟨?_, List.forall_mem_singleton.mpr ?_⟩)
    · show some "description" ≠ some "span"
      decide
    · rw [howner]
      show some "tags" ≠ some "span"
      decide

end Block

/-! ### Blocks as they are written -/

section Written

variable {ν : Type} [Readable ν (Except Fault)] [ShowsJson ν] (room : Nat)

theorem Readable.text_orDefault_shown (s : String) :
    orDefault "" text (shown room (.string s) : ν) = .ok s := by
  have hgiven : optional text (shown room (.string s) : ν) = .ok (some s) :=
    optional_shown (j := .string s) nofun (text_shown room s)
  rw [orDefault, hgiven]
  rfl

namespace TypeExpr

theorem read_shown (t : TypeExpr) : read (shown (room + 1) t.toJson : ν) = .ok t := by
  refine Field.Reads.readRecord ?_ (by simp) (by simp [fields])
  refine .optional rfl rfl (.of_eq fun _ _ => rfl) nofun (text_shown _) rfl ?_
  exact .done t

theorem toJson_fits (t : TypeExpr) : t.toJson.Fits (room + 1) := by
  refine .record (by simp) ?_
  simp [Json.Fits.string]

end TypeExpr

namespace Directive

theorem read_shown (d : Directive) : read (shown (room + 2) d.toJson : ν) = .ok d := by
  refine Field.Reads.readRecord ?_ (by simp) (by simp [fields])
  refine .value rfl rfl (.of_eq fun _ _ => rfl) (text_shown _ _) ?_
  refine .value rfl rfl (.of_eq fun _ _ => rfl) (Readable.text_orDefault_shown _ _) ?_
  refine .optional rfl rfl (.of_eq fun _ _ => rfl) nofun (TypeExpr.read_shown _) rfl ?_
  refine .value rfl rfl (.of_eq fun _ _ => rfl) (Readable.text_orDefault_shown _ _) ?_
  exact .done d

theorem toJson_fits (d : Directive) : d.toJson.Fits (room + 2) := by
  refine .record (by simp) ?_
  simp [Json.Fits.string, TypeExpr.toJson_fits]

end Directive

namespace Block

/-- A block that is written is read back, but for where it stands. -/
theorem read_shown (block : Block) :
    read (shown (room + 4) block.toJson : ν) = .ok { block with span := none } := by
  refine Field.Reads.readRecord ?_ (by simp) (by simp [fields])
  refine .value rfl rfl (.of_eq fun _ _ => rfl) (Readable.text_orDefault_shown _ _) ?_
  refine .value rfl rfl (.of_eq fun _ _ => rfl)
    (Readable.list_shown fun d _ => Directive.read_shown room d) ?_
  exact .done _

theorem toJson_fits (block : Block) : block.toJson.Fits (room + 4) := by
  have hdirectives : (Json.array (block.directives.map Directive.toJson)).Fits (room + 3) :=
    .list _ (Directive.toJson_fits room)
  refine .record (by simp) ?_
  simp [Json.Fits.string, hdirectives]

end Block

end Written

/-- What is read from the place of a value is decoded from its text, with or without blanks. -/
theorem Json.Fits.decode {α : Type} {j : Json} (h : j.Fits maxDepth)
    {read : Json.Text → Except Fault α} {a : α} (hread : read (shown maxDepth j) = .ok a) :
    Json.decode read j.pretty = .ok a ∧ Json.decode read j.compact = .ok a :=
  ⟨(Json.decode_written Json.Spacing.isBlank_indented h.numberFits 0 read).trans hread,
    (Json.decode_written Json.Spacing.isBlank_compact h.numberFits 0 read).trans hread⟩

/-- **The forms of fragments and blocks lose nothing.** A fragment is decoded from its form, as a
value and as a text. A block is too, but for where it stands; and it is decoded from every text
that spells it. -/
theorem decode_toJson_and_decode_spelled :
    (∀ f : Fragment, Fragment.read f.toJson = .ok f ∧
      Json.decode Fragment.read f.toJson.pretty = .ok f ∧
      Json.decode Fragment.read f.toJson.compact = .ok f) ∧
    (∀ block : Block, Block.read block.toJson = .ok { block with span := none } ∧
      Json.decode Block.read block.toJson.pretty = .ok { block with span := none } ∧
      Json.decode Block.read block.toJson.compact = .ok { block with span := none }) ∧
    ∀ (block : Block) (text : String) (tree : Json.Tree),
      Json.Tree.ofText text = (tree, false) → block.Spells tree →
        Json.decode Block.read text = .ok { block with span := none } := by
  refine ⟨fun f => ⟨f.read_shown 0, ?_⟩, fun block => ⟨block.read_shown 0, ?_⟩, ?_⟩
  · exact (f.toJson_fits 120).decode (f.read_shown 120)
  · exact (block.toJson_fits 123).decode (block.read_shown 123)
  · intro block text tree htext hspells
    have hread : Block.read (⟨tree, Json.maxDepth⟩ : Json.Text) = .ok { block with span := none } :=
      hspells.read 123
    rw [Json.decode, htext]
    simp only [hread]
    rfl

/-- A directive whose type has no name, in a block with members in another order and with some that
nobody knows. -/
theorem decode_spelled_pets :
    let text := "\x7b\"directives\":[\x7b\"name\":null,\"title\":\"param\"," ++
      "\"type\":\x7b\"name\":null\x7d,\"line\":[]\x7d],\"description\":null,\"file\":true\x7d"
    let block : Block := { directives := [{ title := "param", type := some {} }] }
    (∃ tree, Json.Tree.ofText text = (tree, false) ∧ block.Spells tree) ∧
      Json.decode Block.read text = .ok block := by
  intro text block
  let j : Json := .object [("directives", .array [.object [("name", .null),
    ("title", .string "param"), ("type", .object [("name", .null)]), ("line", .array [])]]),
    ("description", .null), ("file", .bool true)]
  have hnumbers : ∀ v, Json.Part v j → v.NumberFits := by
    simp [j, Json.forall_part_object, Json.forall_part_array, Json.part_null, Json.part_string,
      Json.part_bool, Json.NumberFits]
  have htext : Json.Tree.ofText text = (j.tree, false) := by
    have hcompact : text = j.compact := by decide +kernel
    rw [hcompact]
    exact Json.ofText_written Json.Spacing.isBlank_compact hnumbers 0
  have hspells : block.Spells j.tree := by
    refine ⟨some .null, "directives", _, .null, by simp, .cons ?_ .nil, .intro [("directives", _),
      ("description", .null), ("file", .bool true)] [("file", .bool true)] (.swap _ _ _) ?_⟩
    · refine ⟨some .null, _, none, .null, .given ⟨some .null, .null, ?_⟩, .absent,
        .intro [("name", .null), ("title", .string (some "param")), ("type", _),
          ("line", .array [] none)] [("line", .array [] none)] (.swap _ _ _) ?_⟩
      · exact .intro [("name", .null)] [] (.refl _) (List.forall_mem_nil _)
      · simp [Json.Tree.skipFault?, Json.itemsSkipFault?]
    · simp [Json.Tree.skipFault?]
  exact ⟨⟨j.tree, htext, hspells⟩,
    decode_toJson_and_decode_spelled.2.2 block text j.tree htext hspells⟩

end ApiAnnotation
