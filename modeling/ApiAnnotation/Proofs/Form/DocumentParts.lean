import ApiAnnotation.Proofs.Form.Document
import ApiAnnotation.Proofs.Form.OperationParts

/-!
# What comes back of metadata

Metadata, and what is said about the interface in it, keep the members that they have no field for.
They are open records (`ApiAnnotation.Json.Tree.KeepsOpen`): their parts come back as those of other
records do, and every other member comes back too, in normal form and with the last value of its
key.

The members that have no field are kept in their order (`ApiAnnotation.WithExtra.trees_extra`).
Which of them metadata has a field for is found out later, from what was kept. So a member of
metadata is followed twice: into what the template keeps, and from there into the metadata.

## Main definitions

* `ApiAnnotation.Json.Tree.KeepsOpen`: how an open record comes back.

## Main statements

* `ApiAnnotation.WithExtra.rel_extra`: members without a field come back.
* `ApiAnnotation.Info.carries_read`: what is said about the interface comes back.
* `ApiAnnotation.Metadata.keepsOf_of_ofMembers`: so do the parts of metadata.
-/

namespace ApiAnnotation

open Json.Tree Readable WithExtra

variable {ν : Type} [Readable ν (Except Fault)] [HasTree ν] {α : Type}

/-! ### Open records -/

namespace Json.Tree

/-- **An open record comes back part by part**, and all other members come back as they are, with
the last value of a key. -/
inductive KeepsOpen (parts : List Part) : Tree → Json → Prop
  /-- The parts and the other members. -/
  | intro {members : List (String × Tree)} {js : List (String × Json)} :
    (js.map (·.1)).Nodup → (∀ part ∈ parts, part.KeepsOf members (js.lookup part.name)) →
      (∀ key ∉ parts.map (·.name),
        Option.Rel KeepsWhole (members.reverse.lookup key) (js.lookup key)) →
          KeepsOpen parts (ofMembers members) (.object js)

/-- A record that is written comes back part by part. -/
theorem KeepsOpen.record {parts : List Part} {members : List (String × Tree)}
    {ms : List (String × Option Json)} (hkeys : (ms.map (·.1)).Nodup)
    (hparts : ∀ part ∈ parts, part.KeepsOf members ((given ms).lookup part.name))
    (hothers : ∀ key ∉ parts.map (·.name),
      Option.Rel KeepsWhole (members.reverse.lookup key) ((given ms).lookup key)) :
    KeepsOpen parts (ofMembers members) (.record ms) :=
  .intro (hkeys.sublist (keys_given_sublist ms)) hparts hothers

/-- How a part comes back depends on the members of its name alone. -/
theorem Part.KeepsOf.congr {part : Part} {members members' : List (String × Tree)}
    {value : Option Json} (h : part.KeepsOf members value)
    (hmem : ∀ tree, (part.name, tree) ∈ members' ↔ (part.name, tree) ∈ members) :
    part.KeepsOf members' value := by
  refine ⟨fun tree htree => h.1 tree ((hmem tree).mp htree), fun habsent => h.2 fun hname => ?_⟩
  obtain ⟨⟨name, tree⟩, htree, rfl⟩ := List.mem_map.mp hname
  exact habsent (List.mem_map_of_mem (f := (·.1)) ((hmem tree).mpr htree))

end Json.Tree

/-- Leaving out other keys does not change the value of a key. -/
theorem lookup_filter {p : String → Bool} {key : String} (h : p key = true)
    (entries : List (String × α)) :
    (entries.filter fun entry => p entry.1).lookup key = entries.lookup key := by
  induction entries with
  | nil => rfl
  | cons entry entries ih =>
    obtain ⟨key', a⟩ := entry
    rw [List.filter_cons, List.lookup_cons]
    by_cases hkey : key = key'
    · subst hkey
      rw [if_pos h, List.lookup_cons, beq_self_eq_true]
    · have hne : (key == key') = false := by simpa using hkey
      rw [hne]
      split
      · rw [List.lookup_cons, hne]
        exact ih
      · exact ih

namespace Json

/-- The value of a key that only a kept member has. -/
theorem lookup_given_present {before after : List (String × Option Json)} {extra : SortedMap Json}
    {key : String} (hbefore : key ∉ before.map (·.1)) (hafter : key ∉ after.map (·.1)) :
    (given (before ++ present extra.entries ++ after)).lookup key = extra.get? key := by
  rw [given_append, given_append, present, given_map_some, List.lookup_append, List.lookup_append,
    lookup_given_of_notMem hbefore, lookup_given_of_notMem hafter, Option.none_or, Option.or_none]
  rfl

/-- The value of a key in more members than those that it is known to be among. -/
theorem lookup_given_of_subset {ms more : List (String × Option Json)} {key : String}
    (hsub : ms ⊆ more) (hms : (ms.map (·.1)).Nodup) (hmore : (more.map (·.1)).Nodup)
    (hkey : key ∈ ms.map (·.1)) : (given more).lookup key = (given ms).lookup key := by
  obtain ⟨⟨key, value⟩, hmem, rfl⟩ := List.mem_map.mp hkey
  rw [lookup_given hmem hms, lookup_given (hsub hmem) hmore]

end Json

/-! ### Members that have no field -/

namespace WithExtra

variable {fields : List (Field (Except Fault) ν (WithExtra α))} {names : List String}

/-- A member is kept if no field goes by its key, and a field keeps none. -/
theorem trees_extra_of_readNamed (hnames : Field.GoBy fields names)
    (hfields : ∀ field ∈ fields, KeepsExtra field) {ms : List (String × ν)}
    {seen seen' : List String} {state state' : WithExtra α}
    (h : Field.readNamed fields keep (Field.keyed ms) seen state = .ok (state', seen')) :
    HasTree.trees state'.extra = HasTree.trees state.extra ++
      (HasTree.trees ms).filter fun member => member.1 ∉ names := by
  induction ms generalizing seen state with
  | nil =>
    obtain ⟨rfl, -⟩ := Prod.mk.inj (Except.ok.inj h)
    exact (List.append_nil _).symm
  | cons member ms ih =>
    obtain ⟨key, v⟩ := member
    have hcons : HasTree.trees ((key, v) :: ms) = (key, HasTree.tree v) :: HasTree.trees ms := rfl
    rw [hcons]
    rcases Field.readNamed_cons_eq_ok h with
      ⟨field, hfield, howner, -, next, hread, hrest⟩ | ⟨howner, next, hread, hrest⟩
    · -- a field reads the member, and what is kept stays as it is
      obtain ⟨hkey, hmem⟩ := hnames.owner?_eq_some_iff.mp howner
      obtain rfl : key = field.name := hkey
      rw [ih hrest, hfields field hfield _ _ _ hread, List.filter_cons_of_neg (by simpa using hmem)]
    · -- the member is kept as a whole value, whose tree is that of the member
      have hout : key ∉ names := (hnames.owner?_eq_none_iff key).mp howner
      obtain ⟨j, hj, rfl⟩ := exists_of_bind_pure hread
      have hextra : HasTree.trees (state.extra ++ [(key, j)]) =
          HasTree.trees state.extra ++ [(key, HasTree.tree v)] := by
        rw [HasTree.trees, List.map_append, HasTree.tree_of_whole hj]
        rfl
      rw [ih hrest, hextra, List.filter_cons_of_pos (by simpa using hout), List.append_assoc]
      rfl

/-- **The members that no field goes by are kept** in their order. -/
theorem trees_extra (hnames : Field.GoBy fields names)
    (hfields : ∀ field ∈ fields, KeepsExtra field) {initial : α} {ms : List (String × ν)}
    {state : WithExtra α}
    (h : read fields initial { members := Field.keyed ms } = .ok state) :
    HasTree.trees state.extra = (HasTree.trees ms).filter fun member => member.1 ∉ names := by
  obtain ⟨-, seen, hnamed, -⟩ := Field.readMembers_eq_ok h
  exact trees_extra_of_readNamed hnames hfields hnamed

/-- The last value of a key that no field goes by is kept last. -/
theorem lookup_trees_extra (hnames : Field.GoBy fields names)
    (hfields : ∀ field ∈ fields, KeepsExtra field) {initial : α} {ms : List (String × ν)}
    {state : WithExtra α} (h : read fields initial { members := Field.keyed ms } = .ok state)
    {key : String} (hkey : key ∉ names) :
    (HasTree.trees state.extra).reverse.lookup key = (HasTree.trees ms).reverse.lookup key := by
  rw [trees_extra hnames hfields h, ← List.filter_reverse]
  exact lookup_filter (p := fun key => key ∉ names) (by simpa using hkey) _

/-- What is kept, sorted and in normal form, is what was kept last. -/
theorem rel_normalExtra (state : WithExtra α) (key : String) :
    Option.Rel KeepsWhole ((HasTree.trees state.extra).reverse.lookup key)
      (state.normalExtra.get? key) := by
  have htrees : (HasTree.trees state.extra).reverse.lookup key =
      (state.extra.reverse.lookup key).map Json.tree := by
    rw [HasTree.trees, ← List.map_reverse]
    exact Entries.lookup_map_entry (fun _ => Json.tree) key state.extra.reverse
  rw [htrees, normalExtra, SortedMap.get?_map, SortedMap.get?_ofList]
  cases state.extra.reverse.lookup key with
  | none => exact .none
  | some j => exact .some (.intro j)

/-- **Members without a field come back** in normal form, with the last value of a key. -/
theorem rel_extra (hnames : Field.GoBy fields names) (hfields : ∀ field ∈ fields, KeepsExtra field)
    {initial : α} {ms : List (String × ν)} {state : WithExtra α}
    (h : read fields initial { members := Field.keyed ms } = .ok state) {key : String}
    (hkey : key ∉ names) :
    Option.Rel KeepsWhole ((HasTree.trees ms).reverse.lookup key) (state.normalExtra.get? key) := by
  rw [← lookup_trees_extra hnames hfields h hkey]
  exact rel_normalExtra state key

omit [HasTree ν] in
/-- No kept member goes by the name of a field. -/
theorem foreign_extra (hnames : Field.GoBy fields names)
    (hfields : ∀ field ∈ fields, KeepsExtra field) {initial : α}
    {members : Members (Except Fault) ν} {state : WithExtra α}
    (h : read fields initial members = .ok state) : ∀ entry ∈ state.extra, entry.1 ∉ names := by
  intro entry hentry
  exact (extra_of_read (P := fun _ => True) hnames hfields
    (fun _ _ _ _ _ _ => trivial) h entry hentry).1

/-! ### Parts of the record proper -/

/-- A field of the record proper enters its value where it does in the record alone. -/
theorem enters_ofRecord {members : α → List (String × Option Json)} {i : Nat} {part : Part}
    {name : String} {read : ν → α → Except Fault α}
    (h : ({ name, read } : Field (Except Fault) ν α).Enters members i part) :
    (Field.ofRecord name read).Enters (fun state => members state.record) i part where
  name_eq := h.name_eq
  required_eq := h.required_eq
  enters v state state' hread := by
    obtain ⟨record, hrecord, rfl⟩ := exists_of_ofRecord hread
    exact h.enters v state.record record hrecord

/-- **The parts of a record that keeps its other members** come back. -/
theorem keepsOf_of_read {members : α → List (String × Option Json)} {parts : List Part}
    (h : Field.Forms (fun state => members state.record) 0 fields parts)
    (hgoBy : Field.GoBy fields (parts.map (·.name)))
    (hkeys : ∀ a, (members a).map (·.1) = parts.map (·.name)) (hnames : (parts.map (·.name)).Nodup)
    {initial : α} (hdefault : ∀ part ∈ parts, part.required = false →
      (Json.given (members initial)).lookup part.name = part.default)
    {ms : List (String × ν)} {state : WithExtra α}
    (hread : read fields initial { members := Field.keyed ms } = .ok state) {part : Part}
    (hpart : part ∈ parts) :
    part.KeepsOf (HasTree.trees ms) ((Json.given (members state.record)).lookup part.name) := by
  refine h.keepsOf_of_readMembers hgoBy (fun state => hkeys state.record) hnames ?_ hread hpart
    (hdefault part hpart)
  intro part _ key v state state' hkeep
  obtain ⟨j, -, rfl⟩ := exists_of_bind_pure hkeep
  exact ⟨id, fun _ => id⟩

end WithExtra

/-! ### What is said about the interface -/

namespace Info

/-- The parts of an `info` object. -/
def parts : List Part :=
  [{ name := "title", keeps := KeepsText, default := some (.string "") },
   { name := "version", keeps := KeepsText, default := some (.string "") },
   { name := "description", keeps := KeepsText }]

/-- The members that have a field. -/
def own (info : Info) : List (String × Option Json) :=
  [("title", some (.string info.title)), ("version", some (.string info.version)),
    ("description", info.description.map .string)]

theorem fields_forms :
    Field.Forms (fun state => own state.record) 0
      (fields : List (Field (Except Fault) ν (WithExtra Info))) parts := by
  refine .cons (enters_ofRecord (.value rfl rfl (fun _ _ => rfl) carries_text fun _ _ => rfl)) ?_
  refine .cons (enters_ofRecord (.value rfl rfl (fun _ _ => rfl) carries_text fun _ _ => rfl)) ?_
  refine .cons (enters_ofRecord
    (.optional rfl rfl ⟨rfl, rfl, rfl⟩ (fun _ _ => rfl) carries_text fun _ _ => rfl)) ?_
  exact .nil _

omit [HasTree ν] in
theorem keepsExtra_fields :
    ∀ field ∈ (fields : List (Field (Except Fault) ν (WithExtra Info))), KeepsExtra field := by
  simp [fields, keepsExtra_ofRecord]

/-- **What is said about the interface comes back**, also the members that have no field. -/
theorem carries_read : Carries (read : ν → Except Fault Info) toJson (KeepsOpen parts) := by
  intro v info h
  rw [read] at h
  obtain ⟨ms, hms, hmembers⟩ := exists_of_bind h
  obtain ⟨state, hstate, hinfo⟩ := exists_of_bind_pure hmembers
  obtain ⟨ms, rfl⟩ := Field.exists_keyed_of_readMembers hstate
  have hown : own info = own state.record := by rw [hinfo]; rfl
  have hextra : info.extra = state.normalExtra := by rw [hinfo]
  have hforeign : ∀ entry ∈ state.normalExtra.entries, entry.1 ∉ names := by
    intro entry hentry
    obtain ⟨j, hj, -⟩ := exists_of_mem_normalExtra hentry
    exact foreign_extra fields_goBy keepsExtra_fields hstate (entry.1, j) hj
  have hnodup : (info.members.map (·.1)).Nodup := nodup_members (hextra ▸ hforeign)
  have hmembers : info.members = own info ++ present info.extra.entries ++ [] :=
    (List.append_nil _).symm
  have hnames : (parts.map (·.name)).Nodup := by decide
  rw [HasTree.tree_of_members hms, toJson_eq]
  refine .record hnodup (fun part hpart => ?_) fun key hkey => ?_
  · have hsub : own info ⊆ info.members := List.subset_append_left _ _
    have hname : part.name ∈ (own info).map (·.1) := List.mem_map_of_mem (f := (·.name)) hpart
    rw [Json.lookup_given_of_subset hsub hnames hnodup hname, hown]
    exact keepsOf_of_read fields_forms fields_goBy (fun _ => rfl) hnames (by decide) hstate hpart
  · have hforeign : key ∉ (own info).map (·.1) := hkey
    rw [hmembers, Json.lookup_given_present hforeign List.not_mem_nil, hextra]
    exact rel_extra fields_goBy keepsExtra_fields hstate hkey

end Info

/-! ### Metadata -/

/-- A field of a list of texts that is left out when it is empty. -/
theorem Field.Enters.nonempty {members : α → List (String × Option Json)} {i : Nat}
    {field : Field (Except Fault) ν α} {part : Part} {set : List String → α → α}
    (hname : field.name = part.name) (hrequired : field.required = false)
    (hpart : part.required = false ∧ part.default = none ∧ part.vacant = .array [] none)
    (hread : ∀ v a, field.read v a = do return set (← Readable.list Readable.text v) a)
    (hkeeps : part.keeps = KeepsItems KeepsText)
    (hset : ∀ x a, members (set x a) = (members a).set i (part.name, Metadata.nonempty x)) :
    field.Enters members i part where
  name_eq := hname
  required_eq := hrequired.trans hpart.1.symm
  enters v a a' h := by
    rw [hread] at h
    obtain ⟨texts, htexts, rfl⟩ := exists_of_bind_pure h
    refine ⟨_, hset texts a, ?_⟩
    rw [Metadata.nonempty]
    split
    · next hnil =>
      subst hnil
      obtain ⟨items, htree, hitems⟩ := exists_of_list htexts
      obtain rfl := List.forall₂_nil_right_iff.mp hitems
      rw [htree, List.map_nil, ← hpart.2.2]
      exact .vacant hpart.1 hpart.2.1
    · exact .given (hkeeps ▸ carries_text.list v texts htexts)

namespace Metadata

/-- The parts of metadata. -/
def parts : List Part :=
  [{ name := "info", keeps := KeepsOpen Info.parts, default := some (Info.toJson {}) },
   { name := "host", keeps := KeepsText },
   { name := "basePath", keeps := KeepsText },
   { name := "schemes", keeps := KeepsItems KeepsText, vacant := .array [] none },
   { name := "consumes", keeps := KeepsItems KeepsText, vacant := .array [] none },
   { name := "produces", keeps := KeepsItems KeepsText, vacant := .array [] none }]

/-- The members that have a field. -/
def own (m : Metadata) : List (String × Option Json) :=
  [("info", some m.info.toJson), ("host", m.host.map .string), ("basePath", m.basePath.map .string),
    ("schemes", nonempty m.schemes), ("consumes", nonempty m.consumes),
    ("produces", nonempty m.produces)]

theorem fields_forms :
    Field.Forms (fun state => own state.record) 0
      (fields : List (Field (Except Fault) ν (WithExtra Metadata))) parts := by
  refine .cons (enters_ofRecord
    (.value rfl rfl (fun _ _ => rfl) Info.carries_read fun _ _ => rfl)) ?_
  refine .cons (enters_ofRecord
    (.optional rfl rfl ⟨rfl, rfl, rfl⟩ (fun _ _ => rfl) carries_text fun _ _ => rfl)) ?_
  refine .cons (enters_ofRecord
    (.optional rfl rfl ⟨rfl, rfl, rfl⟩ (fun _ _ => rfl) carries_text fun _ _ => rfl)) ?_
  refine .cons (enters_ofRecord
    (.nonempty rfl rfl ⟨rfl, rfl, rfl⟩ (fun _ _ => rfl) rfl fun _ _ => rfl)) ?_
  refine .cons (enters_ofRecord
    (.nonempty rfl rfl ⟨rfl, rfl, rfl⟩ (fun _ _ => rfl) rfl fun _ _ => rfl)) ?_
  refine .cons (enters_ofRecord
    (.nonempty rfl rfl ⟨rfl, rfl, rfl⟩ (fun _ _ => rfl) rfl fun _ _ => rfl)) ?_
  exact .nil _

omit [HasTree ν] in
theorem keepsExtra_fields :
    ∀ field ∈ (fields : List (Field (Except Fault) ν (WithExtra Metadata))), KeepsExtra field := by
  simp [fields, keepsExtra_ofRecord]

variable {entries : List (String × Json)} {m : Metadata}

/-- **The parts of metadata come back** of what a template keeps. -/
theorem keepsOf_of_ofMembers (h : ofMembers entries = .ok m) {part : Part} (hpart : part ∈ parts) :
    part.KeepsOf (HasTree.trees entries) ((Json.given m.own).lookup part.name) := by
  obtain ⟨state, hstate, rfl⟩ := exists_of_bind_pure h
  exact keepsOf_of_read fields_forms fields_goBy (fun _ => rfl) (by decide) (by decide) hstate hpart

/-- The members of metadata without a field come back. -/
theorem rel_extra_of_ofMembers (h : ofMembers entries = .ok m) {key : String} (hkey : key ∉ names) :
    Option.Rel KeepsWhole ((HasTree.trees entries).reverse.lookup key) (m.extra.get? key) := by
  obtain ⟨state, hstate, rfl⟩ := exists_of_bind_pure h
  exact rel_extra fields_goBy keepsExtra_fields hstate hkey

/-- What metadata keeps goes by no name of a field, and by no other name that does not stand among
the members. -/
theorem foreign_of_ofMembers {more : List String} (hmore : ∀ entry ∈ entries, entry.1 ∉ more)
    (h : ofMembers entries = .ok m) : ∀ entry ∈ m.extra.entries, entry.1 ∉ names ++ more := by
  obtain ⟨state, hstate, rfl⟩ := exists_of_bind_pure h
  intro entry hentry
  obtain ⟨j, hj, -⟩ := exists_of_mem_normalExtra hentry
  have hextra := extra_of_read (P := fun entry => entry.1 ∉ more) fields_goBy keepsExtra_fields (by
    intro member hmember key value hkey _
    obtain ⟨entry, hmem, rfl⟩ := List.mem_map.mp hmember
    obtain rfl := Except.ok.inj hkey
    exact hmore entry hmem) hstate
  obtain ⟨hname, hother⟩ := hextra _ hj
  exact fun hmem => (List.mem_append.mp hmem).elim hname hother

end Metadata

end ApiAnnotation
