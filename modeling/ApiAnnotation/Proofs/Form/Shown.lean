import ApiAnnotation.Proofs.Json.Written
import ApiAnnotation.Readable

/-!
# Formats that show JSON values

Records are read in the same way from JSON values and from JSON text. What both have in common is
that every JSON value stands in them (`ApiAnnotation.ShowsJson`): asked for its shape, the place
where it stands tells that of the value. So it is shown once for both that a list, a map and a
record are read from the value that they are written as.

A record is read from its members in turn. `ApiAnnotation.Field.Reads` follows the record from the
one it starts as to the one that is read; members that may be left out are followed in one step,
there or not.

## Main definitions

* `ApiAnnotation.ShowsJson`: a format in which every JSON value stands.
* `ApiAnnotation.Field.Reads`: reading members in turn makes one record of another.

## Main statements

* `ApiAnnotation.Readable.list_shown`, `ApiAnnotation.Readable.map_shown`: lists and maps are read.
* `ApiAnnotation.Field.Reads.readRecord`: records are read.
-/

namespace ApiAnnotation

/-- **A format in which every JSON value stands**, with room for lists and objects to nest. -/
class ShowsJson (ν : Type) [Readable ν (Except Fault)] where
  /-- The place at which a value stands. -/
  shown : Nat → Json → ν
  /-- Only `null` stands for no value. -/
  present?_shown (room : Nat) {j : Json} (h : j ≠ .null) :
    Readable.present? (shown room j) = .ok (some (shown room j))
  /-- A text is one. -/
  text_shown (room : Nat) (s : String) : Readable.text (shown room (.string s)) = .ok s
  /-- A truth value is one. -/
  flag_shown (room : Nat) (b : Bool) : Readable.flag (shown room (.bool b)) = .ok b
  /-- A list has its items. -/
  items_shown (room : Nat) (items : List Json) :
    Readable.items (shown (room + 1) (.array items)) = .ok { items := items.map (shown room) }
  /-- An object has its members. -/
  members_shown (room : Nat) (members : List (String × Json)) :
    Readable.members (shown (room + 1) (.object members)) =
      .ok { members := members.map fun member => (.ok member.1, shown room member.2) }
  /-- A record has the members of an object. -/
  fields_shown (room : Nat) (members : List (String × Json)) :
    Readable.fields (shown (room + 1) (.object members)) =
      .ok (.named { members := members.map fun member => (.ok member.1, shown room member.2) })
  /-- The whole value is read, if it does not nest too deep. -/
  whole_shown {room : Nat} {j : Json} (h : j.depth ≤ room) : Readable.whole (shown room j) = .ok j

/-- A JSON value shows itself. -/
instance : ShowsJson Json where
  shown _ j := j
  present?_shown _ j h := by
    cases j with
    | null => exact absurd rfl h
    | _ => rfl
  text_shown _ _ := rfl
  flag_shown _ _ := rfl
  items_shown _ items := by rw [List.map_id']; rfl
  members_shown _ _ := rfl
  fields_shown _ _ := rfl
  whole_shown _ := rfl

/-- A text shows a value by its tree. -/
instance : ShowsJson Json.Text where
  shown room j := ⟨j.tree, room⟩
  present?_shown _ j h := by
    cases j with
    | null => exact absurd rfl h
    | _ => rfl
  text_shown _ _ := rfl
  flag_shown _ _ := rfl
  items_shown room items := by
    show Json.Text.enterItems (room + 1) (Json.itemTrees items) none = _
    rw [Json.itemTrees_eq, Json.Text.enterItems, List.map_map]
    rfl
  members_shown room members := by
    show Json.Text.enterMembers (room + 1) (Json.memberTrees members) none = _
    rw [Json.memberTrees_eq, Json.Text.enterMembers, List.map_map]
    rfl
  fields_shown room members := by
    show (Json.Text.enterMembers (room + 1) (Json.memberTrees members) none).map Fields.named = _
    rw [Json.memberTrees_eq, Json.Text.enterMembers, List.map_map]
    rfl
  whole_shown h := Json.value_tree h

open ShowsJson

variable {ν : Type} [Readable ν (Except Fault)] [ShowsJson ν]

/-! ### Options, lists and maps -/

namespace Readable

variable {α : Type} {read : ν → Except Fault α} {room : Nat}

theorem optional_shown {j : Json} {a : α} (hnull : j ≠ .null)
    (hread : read (shown room j) = .ok a) : optional read (shown room j) = .ok (some a) := by
  rw [optional, present?_shown room hnull]
  show (read (shown room j) >>= fun a => pure (some a)) = _
  rw [hread]
  rfl

/-- **A list is read** if its items are. -/
theorem list_shown {toJson : α → Json} {as : List α}
    (hread : ∀ a ∈ as, read (shown room (toJson a)) = .ok a) :
    list read (shown (room + 1) (.array (as.map toJson))) = .ok as := by
  have heach : each read ((as.map toJson).map (shown room)) = .ok as := by
    induction as with
    | nil => rfl
    | cons a as ih =>
      obtain ⟨ha, has⟩ := List.forall_mem_cons.mp hread
      rw [List.map_cons, List.map_cons, each, ha, ih has]
      rfl
  rw [list, items_shown]
  show (each read ((as.map toJson).map (shown room)) >>= _) = _
  rw [heach]
  rfl

theorem strings_shown (texts : List String) :
    list text (shown (room + 1) (.strings texts) : ν) = .ok texts :=
  list_shown fun s _ => text_shown room s

/-- **A map is read** if its values are. -/
theorem map_shown {toJson : α → Json} (m : SortedMap α)
    (hread : ∀ a, read (shown room (toJson a)) = .ok a) :
    map read (shown (room + 1) (.ofMap toJson m)) = .ok m := by
  have heach : ∀ entries : List (String × α),
      eachMember read ((Entries.mapValues toJson entries).map fun member =>
        (.ok member.1, shown room member.2)) = .ok entries := by
    intro entries
    induction entries with
    | nil => rfl
    | cons entry entries ih =>
      obtain ⟨key, a⟩ := entry
      rw [Entries.mapValues] at ih ⊢
      rw [List.map_cons, List.map_cons, eachMember, ih, hread a]
      rfl
  have hentries : (m.map toJson).entries = Entries.mapValues toJson m.entries := rfl
  rw [map, Json.ofMap, members_shown, hentries]
  show (eachMember read _ >>= _) = _
  rw [heach]
  show Except.ok (SortedMap.ofList m.entries) = _
  rw [SortedMap.ofList_entries]

end Readable

/-! ### Records -/

/-- Members as they stand in a format. -/
def shownMembers (room : Nat) (members : List (String × Json)) : List (Except Fault String × ν) :=
  members.map fun member => (.ok member.1, shown room member.2)

namespace Field

/-- **A field sets what is got from its value.** -/
def Sets {ν α β : Type} (field : Field (Except Fault) ν α) (get : ν → Except Fault β)
    (set : β → α → α) : Prop :=
  ∀ v a x, get v = .ok x → field.read v a = .ok (set x a)

/-- A field that gets its value and returns the record with it sets it. -/
theorem Sets.of_eq {ν α β : Type} {field : Field (Except Fault) ν α} {get : ν → Except Fault β}
    {set : β → α → α} (h : ∀ v a, field.read v a = do return set (← get v) a) :
    field.Sets get set := by
  intro v a x hx
  rw [h, hx]
  rfl

variable {α β : Type}

/-- **Reading members in turn** makes one record of another. -/
inductive Reads (fields : List (Field (Except Fault) ν α))
    (other : String → ν → α → Except Fault α) (room : Nat) :
    List (String × Option Json) → α → α → Prop
  /-- Without members the record stays. -/
  | done (a : α) : Reads fields other room [] a a
  /-- A member that is left out does nothing. -/
  | absent {key : String} {rest : List (String × Option Json)} {a b : α} :
    Reads fields other room rest a b → Reads fields other room ((key, none) :: rest) a b
  /-- A member that goes by the name of a field is read by it. -/
  | field {key : String} {j : Json} {field : Field (Except Fault) ν α}
    {rest : List (String × Option Json)} {a a' b : α} :
    fields.find? (answersTo key) = some field → field.name = key →
      field.read (shown room j) a = .ok a' → Reads fields other room rest a' b →
        Reads fields other room ((key, some j) :: rest) a b
  /-- A member of another name is left to the others. -/
  | other {key : String} {j : Json} {rest : List (String × Option Json)} {a a' b : α} :
    fields.find? (answersTo key) = none → other key (shown room j) a = .ok a' →
      Reads fields other room rest a' b → Reads fields other room ((key, some j) :: rest) a b

variable {fields : List (Field (Except Fault) ν α)} {other : String → ν → α → Except Fault α}
  {field : Field (Except Fault) ν α} {room : Nat} {key : String}
  {members rest : List (String × Option Json)} {a b : α}

omit [Readable ν (Except Fault)] [ShowsJson ν] in
/-- A member that goes by the name of a field is read by it. -/
theorem readNamed_field {v : ν} {vs : List (Except Fault String × ν)} {seen : List String} {a' : α}
    (hfind : fields.find? (answersTo key) = some field) (hseen : ¬seen.contains field.name = true)
    (hread : field.read v a = .ok a') :
    readNamed fields other ((.ok key, v) :: vs) seen a =
      readNamed fields other vs (field.name :: seen) a' := by
  rw [readNamed]
  simp only [bind, Except.bind, hfind, if_neg hseen, hread]

omit [Readable ν (Except Fault)] [ShowsJson ν] in
/-- A member of another name is left to the others. -/
theorem readNamed_other {v : ν} {vs : List (Except Fault String × ν)} {seen : List String} {a' : α}
    (hfind : fields.find? (answersTo key) = none) (hread : other key v a = .ok a') :
    readNamed fields other ((.ok key, v) :: vs) seen a = readNamed fields other vs seen a' := by
  rw [readNamed]
  simp only [bind, Except.bind, hfind, hread]

omit [Readable ν (Except Fault)] [ShowsJson ν] in
/-- No field is missing that must be there. -/
theorem checkRequired_eq_ok_iff {seen : List String} :
    checkRequired fields seen = (.ok () : Except Fault Unit) ↔
      ∀ field ∈ fields, field.required = true → field.name ∈ seen := by
  rw [checkRequired]
  split
  · next hany =>
    obtain ⟨field, hmem, hmissing⟩ := List.any_eq_true.mp hany
    rw [Bool.and_eq_true, Bool.not_eq_true'] at hmissing
    refine iff_of_false nofun fun h => ?_
    rw [List.contains_iff_mem.mpr (h field hmem hmissing.1)] at hmissing
    exact Bool.noConfusion hmissing.2
  · next hany =>
    refine iff_of_true rfl fun field hmem hmust => ?_
    refine List.contains_iff_mem.mp ?_
    rcases hseen : seen.contains field.name with _ | _
    · exact absurd (List.any_eq_true.mpr ⟨field, hmem, by rw [hmust, hseen]; rfl⟩) hany
    · rfl

namespace Reads

/-- A field sets the value of its member. -/
theorem value {j : Json} {get : ν → Except Fault β} {set : β → α → α} {x : β}
    (hfind : fields.find? (answersTo key) = some field) (hname : field.name = key)
    (hsets : field.Sets get set) (hget : get (shown room j) = .ok x)
    (hrest : Reads fields other room rest (set x a) b) :
    Reads fields other room ((key, some j) :: rest) a b :=
  .field hfind hname (hsets _ a x hget) hrest

/-- A field sets the value of a member that may be left out. -/
theorem optional {get : ν → Except Fault β} {set : Option β → α → α} {x : Option β}
    {toJson : β → Json} (hfind : fields.find? (answersTo key) = some field)
    (hname : field.name = key) (hsets : field.Sets (Readable.optional get) set)
    (hnull : ∀ y, toJson y ≠ .null) (hget : ∀ y, get (shown room (toJson y)) = .ok y)
    (hnone : set none a = a) (hrest : Reads fields other room rest (set x a) b) :
    Reads fields other room ((key, x.map toJson) :: rest) a b := by
  cases x with
  | none =>
    rw [hnone] at hrest
    exact .absent hrest
  | some y =>
    exact value hfind hname hsets (Readable.optional_shown (hnull y) (hget y)) hrest

/-- Reading goes on with further members. -/
theorem append {further : List (String × Option Json)} {c : α}
    (h : Reads fields other room members a b) (h' : Reads fields other room further b c) :
    Reads fields other room (members ++ further) a c := by
  induction h with
  | done a => exact h'
  | absent _ ih => exact .absent (ih h')
  | field hfind hname hread _ ih => exact .field hfind hname hread (ih h')
  | other hfind hread _ ih => exact .other hfind hread (ih h')

/-- **Named members are read** if no name comes twice, and those that name a field are seen. -/
theorem readNamed (h : Reads fields other room members a b) (hkeys : (members.map (·.1)).Nodup)
    {seen : List String} (hseen : ∀ name ∈ seen, name ∉ members.map (·.1)) :
    ∃ seen', Field.readNamed fields other (shownMembers room (Json.given members)) seen a =
        .ok (b, seen') ∧ (∀ name ∈ seen, name ∈ seen') ∧
      ∀ name j, (name, some j) ∈ members → fields.find? (answersTo name) ≠ none →
        name ∈ seen' := by
  induction h generalizing seen with
  | done a => exact ⟨seen, rfl, fun _ h => h, fun _ _ h => absurd h List.not_mem_nil⟩
  | absent _ ih =>
    rw [List.map_cons, List.nodup_cons] at hkeys
    obtain ⟨seen', hread, hold, hnew⟩ := ih hkeys.2 fun name hname hmem =>
      hseen name hname (List.mem_cons_of_mem _ hmem)
    refine ⟨seen', hread, hold, fun name j hmem => hnew name j ?_⟩
    exact (List.mem_cons.mp hmem).resolve_left fun heq => by cases heq
  | @field key j field rest a a' b hfind hname hread _ ih =>
    subst hname
    rw [List.map_cons, List.nodup_cons] at hkeys
    have hnotSeen : ¬seen.contains field.name = true := fun h =>
      hseen field.name (List.contains_iff_mem.mp h) List.mem_cons_self
    have hfresh : ∀ name ∈ field.name :: seen, name ∉ rest.map (·.1) := by
      intro name hname hmem
      rcases List.mem_cons.mp hname with rfl | hname
      · exact hkeys.1 hmem
      · exact hseen name hname (List.mem_cons_of_mem _ hmem)
    obtain ⟨seen', hrest, hold, hnew⟩ := ih hkeys.2 hfresh
    refine ⟨seen', (readNamed_field hfind hnotSeen hread).trans hrest,
      fun name hname => hold name (List.mem_cons_of_mem _ hname), fun name k hmem hfield => ?_⟩
    rcases List.mem_cons.mp hmem with heq | hmem
    · rw [(Prod.mk.inj heq).1]
      exact hold field.name List.mem_cons_self
    · exact hnew name k hmem hfield
  | @other key j rest a a' b hfind hread _ ih =>
    rw [List.map_cons, List.nodup_cons] at hkeys
    obtain ⟨seen', hrest, hold, hnew⟩ := ih hkeys.2 fun name hname hmem =>
      hseen name hname (List.mem_cons_of_mem _ hmem)
    refine ⟨seen', (readNamed_other hfind hread).trans hrest, hold, fun name k hmem hfield => ?_⟩
    rcases List.mem_cons.mp hmem with heq | hmem
    · rw [(Prod.mk.inj heq).1] at hfield
      exact absurd hfind hfield
    · exact hnew name k hmem hfield

/-- **A record is read from its members** if no name comes twice and no field is missing that must
be there. -/
theorem readMembers (h : Reads fields other room members a b)
    (hkeys : (members.map (·.1)).Nodup)
    (hrequired : ∀ field ∈ fields, field.required = true → ∃ j, (field.name, some j) ∈ members) :
    Field.readMembers fields other a { members := shownMembers room (Json.given members) } =
      .ok b := by
  obtain ⟨seen, hread, -, hseen⟩ := h.readNamed hkeys (List.forall_mem_nil _)
  have hcheck : checkRequired fields seen = (.ok () : Except Fault Unit) := by
    refine checkRequired_eq_ok_iff.mpr fun field hmem hmust => ?_
    obtain ⟨j, hj⟩ := hrequired field hmem hmust
    refine hseen field.name j hj fun hnone => ?_
    have hnot := List.find?_eq_none.mp hnone field hmem
    rw [answersTo, decide_eq_true rfl, Bool.true_or] at hnot
    exact hnot rfl
  rw [Field.readMembers, hread]
  show (checkRequired fields seen >>= fun _ => pure b) = _
  rw [hcheck]
  rfl

/-- **A record is read** from the object that it is written as. -/
theorem readRecord (h : Reads fields (fun _ v a => do Readable.skip v; return a) room members a b)
    (hkeys : (members.map (·.1)).Nodup)
    (hrequired : ∀ field ∈ fields, field.required = true → ∃ j, (field.name, some j) ∈ members) :
    Field.readRecord fields a (shown (room + 1) (.record members)) = .ok b := by
  rw [Field.readRecord, Json.record, fields_shown]
  exact h.readMembers hkeys hrequired

end Reads

end Field

end ApiAnnotation
