import ApiAnnotation.Proofs.Form.Extra

/-!
# What a record tells of its members

The members of an object may stand in any order, and the record that is read from them does not show
it: each field has its own part of the record, which no other field touches. A law
(`ApiAnnotation.Field.Law`) is what this part is like, once a value of the field was read and as
long as none was. If a law governs the fields of a record, reading members in any order comes to
what the law says of the one member that goes to its field, or of there being none.

Whether members can be read at all does not depend on their order either, as long as each of them
can be read into every record.

## Main definitions

* `ApiAnnotation.Field.Law`: what a record tells of a field.
* `ApiAnnotation.Field.Law.Governs`: a law that fields obey.

## Main statements

* `ApiAnnotation.Field.Law.Governs.follows_of_readMembers`: a record that is read obeys the law.
* `ApiAnnotation.Field.exists_readMembers`: members that can be read one by one can be read.
-/

namespace ApiAnnotation

namespace Field

variable {ν α β : Type}

/-- The name of the field that a member of the given key goes to. -/
def owner? {m : Type → Type} (fields : List (Field m ν α)) (key : String) : Option String :=
  (fields.find? (answersTo key)).map (·.name)

/-- The names of the fields that members go to. -/
def owners {m : Type → Type} (fields : List (Field m ν α)) (members : List (String × ν)) :
    List String :=
  members.filterMap fun member => owner? fields member.1

theorem GoBy.owner?_eq_none_iff {m : Type → Type} {fields : List (Field m ν α)}
    {names : List String} (h : GoBy fields names) (key : String) :
    owner? fields key = none ↔ key ∉ names :=
  Option.map_eq_none_iff.trans h.find?_eq_none_iff

theorem GoBy.owner?_eq_some_iff {m : Type → Type} {fields : List (Field m ν α)}
    {names : List String} (h : GoBy fields names) {key name : String} :
    owner? fields key = some name ↔ key = name ∧ name ∈ names := by
  rcases hfind : fields.find? (answersTo key) with _ | field
  · rw [owner?, hfind]
    refine iff_of_false nofun ?_
    rintro ⟨rfl, hmem⟩
    exact h.find?_eq_none_iff.mp hfind hmem
  · have hmem := List.mem_map_of_mem (f := fun field => (field.name, field.alias?))
      (List.mem_of_find?_eq_some hfind)
    rw [h] at hmem
    obtain ⟨name', hname', heq⟩ := List.mem_map.mp hmem
    obtain ⟨rfl, halias⟩ := Prod.mk.inj heq
    have hanswers := List.find?_some hfind
    rw [answersTo, ← halias] at hanswers
    obtain rfl : field.name = key := by simpa using hanswers
    rw [owner?, hfind]
    constructor
    · rintro heq
      obtain rfl := Option.some.inj heq
      exact ⟨rfl, hname'⟩
    · rintro ⟨rfl, -⟩
      rfl

/-- Members whose keys are texts. -/
def keyed (members : List (String × ν)) : List (Except Fault String × ν) :=
  members.map fun member => (.ok member.1, member.2)

/-! ### Laws -/

/-- **What a record tells of a field.** -/
structure Law (ν α : Type) where
  /-- The name of the field. -/
  name : String
  /-- What the record is like once the value was read. -/
  told : ν → α → Prop
  /-- What the record is like as long as no value was. -/
  unset : α → Prop

namespace Law

/-- The law of a field that sets a part of the record to what is got from its value. -/
def ofGet (name : String) (get : ν → Except Fault β) (part : α → β) (default : β) : Law ν α where
  name
  told v a := get v = .ok (part a)
  unset a := part a = default

/-- A record becomes another one that is the same as far as the law goes. -/
def Spares (law : Law ν α) (a a' : α) : Prop :=
  (law.unset a → law.unset a') ∧ ∀ v, law.told v a → law.told v a'

theorem Spares.trans {law : Law ν α} {a a' a'' : α} (h : law.Spares a a') (h' : law.Spares a' a'') :
    law.Spares a a'' :=
  ⟨h'.1 ∘ h.1, fun v => h'.2 v ∘ h.2 v⟩

/-- **A law governs fields** if the field that it is about does what it says, and the others leave
the record as it is as far as the law goes. -/
structure Governs (law : Law ν α) (fields : List (Field (Except Fault) ν α)) : Prop where
  /-- The field that the law is about obeys it. -/
  own : ∀ field ∈ fields, field.name = law.name → ∀ v a a', field.read v a = .ok a' → law.told v a'
  /-- The other fields spare what it says. -/
  others : ∀ field ∈ fields, field.name ≠ law.name → ∀ v a a', field.read v a = .ok a' →
    law.Spares a a'

namespace Governs

variable {law : Law ν α} {field : Field (Except Fault) ν α}
  {fields : List (Field (Except Fault) ν α)} {name : String}

theorem nil : law.Governs [] where
  own := List.forall_mem_nil _
  others := List.forall_mem_nil _

/-- A field that sets the part that a law is about. -/
theorem own_cons {get : ν → Except Fault β} {set : β → α → α} {part : α → β} {default : β}
    (hname : field.name = name) (hread : ∀ v a, field.read v a = do return set (← get v) a)
    (hpart : ∀ x a, part (set x a) = x) (h : (ofGet name get part default).Governs fields) :
    (ofGet name get part default).Governs (field :: fields) where
  own := by
    refine List.forall_mem_cons.mpr ⟨fun _ v a a' ha' => ?_, h.own⟩
    rw [hread] at ha'
    obtain ⟨x, hx, rfl⟩ := WithExtra.exists_of_bind_pure ha'
    exact hx.trans (congrArg Except.ok (hpart x a).symm)
  others := List.forall_mem_cons.mpr ⟨fun hne => absurd hname hne, h.others⟩

/-- A field that sets another part than the one that a law is about. -/
theorem other_cons {γ : Type} {get : ν → Except Fault β} {part : α → β} {default : β}
    {get' : ν → Except Fault γ} {set : γ → α → α} (hname : field.name ≠ name)
    (hread : ∀ v a, field.read v a = do return set (← get' v) a)
    (hpart : ∀ x a, part (set x a) = part a) (h : (ofGet name get part default).Governs fields) :
    (ofGet name get part default).Governs (field :: fields) where
  own := List.forall_mem_cons.mpr ⟨fun heq => absurd heq hname, h.own⟩
  others := by
    refine List.forall_mem_cons.mpr ⟨fun _ v a a' ha' => ?_, h.others⟩
    rw [hread] at ha'
    obtain ⟨x, -, rfl⟩ := WithExtra.exists_of_bind_pure ha'
    exact ⟨(hpart x a).trans, fun w hw => hw.trans (congrArg Except.ok (hpart x a).symm)⟩

end Governs

/-- **A record follows a law** if the member that goes to its field is told, and if without such a
member nothing is set. -/
structure Follows (law : Law ν α) (fields : List (Field (Except Fault) ν α))
    (members : List (String × ν)) (b : α) : Prop where
  /-- What stands there is told. -/
  told : ∀ member ∈ members, owner? fields member.1 = some law.name → law.told member.2 b
  /-- What does not stand there is not set. -/
  unset : law.name ∉ owners fields members → law.unset b

end Law

variable {fields : List (Field (Except Fault) ν α)} {other : String → ν → α → Except Fault α}
  {law : Law ν α} {members : List (String × ν)} {a b : α}

/-- **What reading a member comes to**: it goes to a field that was not read before, or to none. -/
theorem readNamed_cons_eq_ok {key : String} {v : ν} {rest : List (Except Fault String × ν)}
    {seen : List String} {result : α × List String}
    (h : readNamed fields other ((.ok key, v) :: rest) seen a = .ok result) :
    (∃ field ∈ fields, owner? fields key = some field.name ∧ field.name ∉ seen ∧
      ∃ a', field.read v a = .ok a' ∧
        readNamed fields other rest (field.name :: seen) a' = .ok result) ∨
    (owner? fields key = none ∧ ∃ a', other key v a = .ok a' ∧
      readNamed fields other rest seen a' = .ok result) := by
  rw [readNamed] at h
  obtain ⟨_, hkey, hmember⟩ := WithExtra.exists_of_bind h
  obtain rfl := Except.ok.inj hkey
  rw [owner?]
  rcases hfind : fields.find? (answersTo key) with _ | field
  · rw [hfind] at hmember
    exact .inr ⟨rfl, WithExtra.exists_of_bind hmember⟩
  · simp only [hfind] at hmember
    by_cases hseen : seen.contains field.name = true
    · rw [if_pos hseen] at hmember
      cases hmember
    · rw [if_neg hseen] at hmember
      exact .inl ⟨field, List.mem_of_find?_eq_some hfind, rfl,
        fun hmem => hseen (List.contains_iff_mem.mpr hmem), WithExtra.exists_of_bind hmember⟩

theorem owners_cons (fields : List (Field (Except Fault) ν α)) (member : String × ν)
    (members : List (String × ν)) :
    owners fields (member :: members) =
      (owner? fields member.1).toList ++ owners fields members := by
  rw [owners, List.filterMap_cons]
  cases owner? fields member.1 <;> rfl

/-- A field that was read is not read again, so what it told stays; a field that is not read stays
unset. -/
theorem Law.Governs.readNamed (h : law.Governs fields)
    (hother : ∀ key v a a', other key v a = .ok a' → law.Spares a a') {seen seen' : List String}
    (hread : readNamed fields other (keyed members) seen a = .ok (b, seen')) :
    (∀ member ∈ members, owner? fields member.1 = some law.name → law.told member.2 b) ∧
      (law.name ∉ owners fields members → law.unset a → law.unset b) ∧
        (law.name ∈ seen → ∀ v, law.told v a → law.told v b) := by
  induction members generalizing seen a with
  | nil =>
    obtain ⟨rfl, -⟩ := Prod.mk.inj (Except.ok.inj hread)
    exact ⟨List.forall_mem_nil _, fun _ => id, fun _ _ => id⟩
  | cons member members ih =>
    rw [owners_cons, List.forall_mem_cons]
    rcases readNamed_cons_eq_ok hread with
      ⟨field, hfield, howner, hseen, a', ha', hrest⟩ | ⟨howner, a', ha', hrest⟩
    · obtain ⟨htold, hunset, hkept⟩ := ih hrest
      rw [howner]
      by_cases hname : field.name = law.name
      · -- the field of the law is read here, and from now on what it told stays
        have hmember := hkept (List.mem_cons.mpr (.inl hname.symm)) _
          (h.own field hfield hname _ _ _ ha')
        refine ⟨⟨fun _ => hmember, htold⟩, fun hnot => ?_, fun hmem => ?_⟩
        · have hmem : law.name ∈ [field.name] := hname ▸ List.mem_singleton_self _
          exact absurd (List.mem_append_left _ hmem) hnot
        · exact absurd (hname ▸ hmem) hseen
      · have hspares := h.others field hfield hname _ _ _ ha'
        refine ⟨⟨fun heq => absurd (Option.some.inj heq) hname, htold⟩, fun hnot hun => ?_,
          fun hmem v hv => ?_⟩
        · exact hunset (fun hmem => hnot (List.mem_append_right _ hmem)) (hspares.1 hun)
        · exact hkept (List.mem_cons_of_mem _ hmem) v (hspares.2 v hv)
    · obtain ⟨htold, hunset, hkept⟩ := ih hrest
      have hspares := hother _ _ _ _ ha'
      rw [howner]
      exact ⟨⟨nofun, htold⟩, fun hnot hun => hunset hnot (hspares.1 hun),
        fun hmem v hv => hkept hmem v (hspares.2 v hv)⟩

/-- What was seen by then was seen before, or a member went to it. -/
theorem mem_of_readNamed {seen seen' : List String}
    (hread : readNamed fields other (keyed members) seen a = .ok (b, seen')) {name : String}
    (hname : name ∈ seen') : name ∈ seen ∨ name ∈ owners fields members := by
  induction members generalizing seen a with
  | nil =>
    obtain ⟨-, rfl⟩ := Prod.mk.inj (Except.ok.inj hread)
    exact .inl hname
  | cons member members ih =>
    rw [owners_cons]
    rcases readNamed_cons_eq_ok hread with
      ⟨field, -, howner, -, a', -, hrest⟩ | ⟨howner, a', -, hrest⟩
    · rw [howner]
      rcases ih hrest with hmem | hmem
      · rcases List.mem_cons.mp hmem with rfl | hmem
        · exact .inr (List.mem_append_left _ (List.mem_singleton_self _))
        · exact .inl hmem
      · exact .inr (List.mem_append_right _ hmem)
    · rw [howner]
      exact ih hrest

/-- There is no fault at an end that is passed. -/
theorem close_eq_none {close : Option Fault} {u : Unit}
    (h : (Fault.check close : Except Fault Unit) = .ok u) : close = none := by
  rcases close with _ | fault
  · rfl
  · cases h

/-- What reading members comes to. -/
theorem readMembers_eq_ok {ms : Members (Except Fault) ν}
    (h : readMembers fields other a ms = .ok b) :
    ms.close = none ∧ ∃ seen, readNamed fields other ms.members [] a = .ok (b, seen) ∧
      ∀ field ∈ fields, field.required = true → field.name ∈ seen := by
  rw [readMembers] at h
  obtain ⟨⟨record, seen⟩, hnamed, hend⟩ := WithExtra.exists_of_bind h
  obtain ⟨_, hclose, hrequired⟩ := WithExtra.exists_of_bind hend
  obtain ⟨_, hcheck, hrecord⟩ := WithExtra.exists_of_bind hrequired
  obtain rfl := Except.ok.inj hrecord
  exact ⟨close_eq_none hclose, seen, hnamed, checkRequired_eq_ok_iff.mp hcheck⟩

/-- Members that are read have texts as keys. -/
theorem exists_keyed_of_readNamed {ms : List (Except Fault String × ν)} {seen : List String}
    {result : α × List String} (h : readNamed fields other ms seen a = .ok result) :
    ∃ members, ms = keyed members := by
  induction ms generalizing seen a with
  | nil => exact ⟨[], rfl⟩
  | cons m ms ih =>
    obtain ⟨key, v⟩ := m
    rcases key with e | key
    · cases h
    · obtain ⟨members, rfl⟩ : ∃ members, ms = keyed members := by
        rcases readNamed_cons_eq_ok h with ⟨_, _, _, _, _, _, hrest⟩ | ⟨_, _, _, hrest⟩ <;>
          exact ih hrest
      exact ⟨(key, v) :: members, rfl⟩

/-- Members that a record is read from have texts as keys, and no fault at their end. -/
theorem exists_keyed_of_readMembers {ms : Members (Except Fault) ν}
    (h : readMembers fields other a ms = .ok b) : ∃ members, ms = { members := keyed members } := by
  obtain ⟨hclose, seen, hnamed, -⟩ := readMembers_eq_ok h
  obtain ⟨members, hmembers⟩ := exists_keyed_of_readNamed hnamed
  obtain ⟨ms, close⟩ := ms
  obtain rfl : close = none := hclose
  obtain rfl : ms = keyed members := hmembers
  exact ⟨members, rfl⟩

/-- **A record that is read follows the laws** that govern its fields. -/
theorem Law.Governs.follows_of_readMembers (h : law.Governs fields)
    (hother : ∀ key v a a', other key v a = .ok a' → law.Spares a a') (hunset : law.unset a)
    {close : Option Fault}
    (hread : readMembers fields other a { members := keyed members, close } = .ok b) :
    law.Follows fields members b := by
  obtain ⟨-, seen, hnamed, -⟩ := readMembers_eq_ok hread
  obtain ⟨htold, hkept, -⟩ := h.readNamed hother hnamed
  exact ⟨htold, fun hnot => hkept hnot hunset⟩

/-- A member goes to every field that must be there. -/
theorem required_mem_owners {close : Option Fault}
    (hread : readMembers fields other a { members := keyed members, close } = .ok b)
    {field : Field (Except Fault) ν α} (hmem : field ∈ fields) (hmust : field.required = true) :
    field.name ∈ owners fields members := by
  obtain ⟨-, seen, hnamed, hrequired⟩ := readMembers_eq_ok hread
  exact (mem_of_readNamed hnamed (hrequired field hmem hmust)).resolve_left List.not_mem_nil

/-! ### Fields in their order -/

/-- What reading fields by position comes to if there are no more items. -/
theorem readPositional_nil_eq_ok {items : Items ν}
    (hread : readPositional items fields [] a = .ok b) :
    items.close = none ∧ (∀ field ∈ fields, field.required = false) ∧ b = a := by
  cases fields with
  | nil =>
    obtain ⟨_, hclose, hb⟩ := WithExtra.exists_of_bind hread
    exact ⟨close_eq_none hclose, List.forall_mem_nil _, (Except.ok.inj hb).symm⟩
  | cons field fields =>
    obtain ⟨_, hclose, hrequired⟩ := WithExtra.exists_of_bind hread
    obtain ⟨_, hcheck, hb⟩ := WithExtra.exists_of_bind hrequired
    refine ⟨close_eq_none hclose, fun field' hmem => ?_, (Except.ok.inj hb).symm⟩
    rcases hmust : field'.required with _ | _
    · rfl
    · exact absurd (checkRequired_eq_ok_iff.mp hcheck field' hmem hmust) List.not_mem_nil

/-- What reading a field by position comes to. -/
theorem readPositional_cons_eq_ok {items : Items ν} {field : Field (Except Fault) ν α} {v : ν}
    {vs : List ν} (hread : readPositional items (field :: fields) (v :: vs) a = .ok b) :
    ∃ a', field.read v a = .ok a' ∧ readPositional items fields vs a' = .ok b := by
  rw [readPositional] at hread
  exact WithExtra.exists_of_bind hread

/-- There are no more items than fields. -/
theorem length_le_of_readPositional {items : Items ν} {vs : List ν}
    (hread : readPositional items fields vs a = .ok b) :
    items.close = none ∧ vs.length ≤ fields.length := by
  induction fields generalizing vs a with
  | nil =>
    cases vs with
    | nil => exact ⟨(readPositional_nil_eq_ok hread).1, Nat.le_refl _⟩
    | cons v vs => cases hread
  | cons field fields ih =>
    cases vs with
    | nil => exact ⟨(readPositional_nil_eq_ok hread).1, Nat.zero_le _⟩
    | cons v vs =>
      obtain ⟨a', -, hrest⟩ := readPositional_cons_eq_ok hread
      exact ⟨(ih hrest).1, Nat.succ_le_succ (ih hrest).2⟩

/-- **A record that is read by position follows the laws**: an item is told by the field in its
place, and a field without an item need not be there and stays as it is. -/
theorem Law.Governs.follows_of_readPositional (h : law.Governs fields)
    (hnames : (fields.map (·.name)).Nodup) {items : Items ν} {vs : List ν}
    (hread : readPositional items fields vs a = .ok b) :
    (law.name ∉ fields.map (·.name) → law.Spares a b) ∧
      ∀ (i : Nat) (field : Field (Except Fault) ν α), fields[i]? = some field →
        field.name = law.name → (∀ v, vs[i]? = some v → law.told v b) ∧
          (vs[i]? = none → field.required = false ∧ law.Spares a b) := by
  have hrefl : ∀ a, law.Spares a a := fun a => ⟨id, fun _ => id⟩
  induction fields generalizing vs a with
  | nil =>
    cases vs with
    | nil =>
      obtain ⟨-, -, rfl⟩ := readPositional_nil_eq_ok hread
      exact ⟨fun _ => hrefl _, nofun⟩
    | cons v vs => cases hread
  | cons field fields ih =>
    cases vs with
    | nil =>
      obtain ⟨-, hrequired, rfl⟩ := readPositional_nil_eq_ok hread
      exact ⟨fun _ => hrefl _, fun i field' hfield' _ =>
        ⟨nofun, fun _ => ⟨hrequired field' (List.mem_of_getElem? hfield'), hrefl _⟩⟩⟩
    | cons v vs =>
      obtain ⟨a', ha', hrest⟩ := readPositional_cons_eq_ok hread
      have hlaw : law.Governs fields :=
        ⟨fun field' hmem => h.own field' (List.mem_cons_of_mem _ hmem),
          fun field' hmem => h.others field' (List.mem_cons_of_mem _ hmem)⟩
      rw [List.map_cons, List.nodup_cons] at hnames
      obtain ⟨hspares, hat⟩ := ih hlaw hnames.2 hrest
      have hfirst : field.name ≠ law.name → law.Spares a a' := fun hne =>
        h.others field List.mem_cons_self hne _ _ _ ha'
      refine ⟨fun hnot => ?_, fun i field' hfield' hname => ?_⟩
      · obtain ⟨hne, hnot⟩ := not_or.mp (mt List.mem_cons.mpr hnot)
        exact (hfirst (Ne.symm hne)).trans (hspares hnot)
      · cases i with
        | zero =>
          obtain rfl := Option.some.inj hfield'
          refine ⟨fun w hw => ?_, nofun⟩
          obtain rfl := Option.some.inj hw
          exact (hspares (hname ▸ hnames.1)).2 _ (h.own field List.mem_cons_self hname _ _ _ ha')
        | succ i =>
          have hne : field.name ≠ law.name := by
            rintro heq
            refine hnames.1 ?_
            rw [heq, ← hname]
            exact List.mem_map_of_mem (List.mem_of_getElem? hfield')
          obtain ⟨htold, hnone⟩ := hat i field' hfield' hname
          exact ⟨htold, fun hw => ⟨(hnone hw).1, (hfirst hne).trans (hnone hw).2⟩⟩

/-! ### Members that can be read -/

/-- **A member can be read**, whatever the record is like. -/
def CanRead (fields : List (Field (Except Fault) ν α)) (other : String → ν → α → Except Fault α)
    (member : String × ν) : Prop :=
  (∀ field, fields.find? (answersTo member.1) = some field → ∀ a, ∃ a',
    field.read member.2 a = .ok a') ∧
  (fields.find? (answersTo member.1) = none → ∀ a, ∃ a', other member.1 member.2 a = .ok a')

/-- Members can be read in a row if each of them can, and no two go to the same field. -/
theorem exists_readNamed (hcan : ∀ member ∈ members, CanRead fields other member)
    (howners : (owners fields members).Nodup) {seen : List String}
    (hseen : ∀ name ∈ seen, name ∉ owners fields members) (a : α) :
    ∃ b seen', readNamed fields other (keyed members) seen a = .ok (b, seen') ∧
      ∀ name, name ∈ seen ∨ name ∈ owners fields members → name ∈ seen' := by
  induction members generalizing seen a with
  | nil => exact ⟨a, seen, rfl, fun name hname => hname.resolve_right List.not_mem_nil⟩
  | cons member members ih =>
    obtain ⟨⟨hfield, hother⟩, hcan⟩ := List.forall_mem_cons.mp hcan
    rw [owners_cons, owner?] at howners hseen
    simp only [owners_cons, owner?]
    rcases hfind : fields.find? (answersTo member.1) with _ | field
    · rw [hfind] at howners hseen
      obtain ⟨a', ha'⟩ := hother hfind a
      obtain ⟨b, seen', hread, hmem⟩ := ih hcan howners hseen a'
      exact ⟨b, seen', (readNamed_other hfind ha').trans hread, hmem⟩
    · rw [hfind] at howners hseen
      obtain ⟨hnot, howners⟩ := List.nodup_cons.mp howners
      obtain ⟨a', ha'⟩ := hfield field hfind a
      have hfresh : ∀ name ∈ field.name :: seen, name ∉ owners fields members := by
        intro name hname hmem
        rcases List.mem_cons.mp hname with rfl | hname
        · exact hnot hmem
        · exact hseen name hname (List.mem_cons_of_mem _ hmem)
      have hnotSeen : ¬seen.contains field.name = true := fun h =>
        hseen field.name (List.contains_iff_mem.mp h) List.mem_cons_self
      obtain ⟨b, seen', hread, hmem⟩ := ih hcan howners hfresh a'
      refine ⟨b, seen', (readNamed_field hfind hnotSeen ha').trans hread, fun name hname => ?_⟩
      refine hmem name ?_
      rcases hname with hname | hname
      · exact .inl (List.mem_cons_of_mem _ hname)
      rcases List.mem_cons.mp hname with rfl | hname
      · exact .inl List.mem_cons_self
      · exact .inr hname

/-- **Members can be read** if each of them can, no two go to the same field, and one goes to every
field that must be there. -/
theorem exists_readMembers (hcan : ∀ member ∈ members, CanRead fields other member)
    (howners : (owners fields members).Nodup)
    (hrequired : ∀ field ∈ fields, field.required = true → field.name ∈ owners fields members)
    (a : α) :
    ∃ b, readMembers fields other a { members := keyed members } = .ok b := by
  obtain ⟨b, seen, hread, hseen⟩ := exists_readNamed hcan howners (List.forall_mem_nil _) a
  have hcheck : checkRequired fields seen = (.ok () : Except Fault Unit) :=
    checkRequired_eq_ok_iff.mpr fun field hmem hmust =>
      hseen _ (.inr (hrequired field hmem hmust))
  refine ⟨b, ?_⟩
  rw [readMembers, hread]
  show (checkRequired fields seen >>= fun _ => pure b) = _
  rw [hcheck]
  rfl

end Field

end ApiAnnotation
