import ApiAnnotation.Form.Document
import ApiAnnotation.Proofs.Form.Shown

/-!
# Members that are kept

A record may keep the members that it does not know. They are sorted and brought into normal form
when the record has been read, so what is kept of a text is not what stands there; but it is what is
kept of the text that is then written. `ApiAnnotation.WithExtra.Kept` is what is known of kept
members wherever they come from: they are no fields, they are in normal form, and they nest no
deeper than the text did in which they stood.

## Main statements

* `ApiAnnotation.WithExtra.extra_of_read`: what a record keeps of what it is read from.
* `ApiAnnotation.WithExtra.reads_keep`: kept members are kept again.
-/

namespace ApiAnnotation

open ShowsJson

/-! ### The names of fields -/

namespace Field

variable {m : Type → Type} {ν α : Type}

/-- **Fields go by names**, each by its own and no other. -/
def GoBy (fields : List (Field m ν α)) (names : List String) : Prop :=
  fields.map (fun field => (field.name, field.alias?)) = names.map fun name => (name, none)

/-- A name that is none of the fields' is left to the others. -/
theorem GoBy.find?_eq_none_iff {fields : List (Field m ν α)} {names : List String}
    (h : GoBy fields names) {key : String} :
    fields.find? (answersTo key) = none ↔ key ∉ names := by
  induction fields generalizing names with
  | nil =>
    obtain rfl : names = [] := List.map_eq_nil_iff.mp (Eq.symm h)
    exact iff_of_true rfl List.not_mem_nil
  | cons field fields ih =>
    rcases names with _ | ⟨name, names⟩
    · cases h
    · obtain ⟨hfield, hrest⟩ := List.cons.inj h
      obtain ⟨hname, halias⟩ := Prod.mk.inj hfield
      have hanswers : answersTo key field = decide (name = key) := by
        rw [answersTo, hname, halias]
        simp
      rw [List.find?_cons, hanswers]
      by_cases hkey : name = key
      · subst hkey
        simp
      · rw [decide_eq_false hkey]
        simp only [ih hrest, List.mem_cons, not_or]
        exact (and_iff_right (Ne.symm hkey)).symm

/-! ### What reading members preserves -/

/-- **What no member spoils** holds of the record that is read. -/
theorem readNamed_preserves {fields : List (Field (Except Fault) ν α)}
    {other : String → ν → α → Except Fault α} {P : α → Prop}
    {members : List (Except Fault String × ν)}
    (hfield : ∀ field ∈ fields, ∀ member ∈ members, ∀ a a', P a →
      field.read member.2 a = .ok a' → P a')
    (hother : ∀ member ∈ members, ∀ key, member.1 = .ok key →
      fields.find? (answersTo key) = none → ∀ a a', P a → other key member.2 a = .ok a' → P a')
    {seen seen' : List String} {a b : α}
    (h : readNamed fields other members seen a = .ok (b, seen')) (ha : P a) : P b := by
  induction members generalizing seen a with
  | nil =>
    obtain ⟨rfl, -⟩ := Prod.mk.inj (Except.ok.inj h)
    exact ha
  | cons member members ih =>
    obtain ⟨key, v⟩ := member
    have hlater := @ih (fun field hmem member hmember => hfield field hmem member
      (List.mem_cons_of_mem _ hmember)) (fun member hmember => hother member
        (List.mem_cons_of_mem _ hmember))
    rcases key with e | key
    · cases h
    rw [readNamed] at h
    simp only [bind, Except.bind] at h
    split at h
    · next field hfind =>
      split at h
      · cases h
      · rcases hread : field.read v a with e | a'
        · rw [hread] at h
          cases h
        · rw [hread] at h
          have ha' : P a' :=
            hfield field (List.mem_of_find?_eq_some hfind) _ List.mem_cons_self a a' ha hread
          exact hlater h ha'
    · next hfind =>
      rcases hread : other key v a with e | a'
      · rw [hread] at h
        cases h
      · rw [hread] at h
        exact hlater h (hother _ List.mem_cons_self key rfl hfind a a' ha hread)

/-- What no member spoils holds of the record that is read from them. -/
theorem readMembers_preserves {fields : List (Field (Except Fault) ν α)}
    {other : String → ν → α → Except Fault α} {P : α → Prop} {members : Members (Except Fault) ν}
    (hfield : ∀ field ∈ fields, ∀ member ∈ members.members, ∀ a a', P a →
      field.read member.2 a = .ok a' → P a')
    (hother : ∀ member ∈ members.members, ∀ key, member.1 = .ok key →
      fields.find? (answersTo key) = none → ∀ a a', P a → other key member.2 a = .ok a' → P a')
    {a b : α} (h : readMembers fields other a members = .ok b) (ha : P a) : P b := by
  rw [readMembers] at h
  rcases hread : readNamed fields other members.members [] a with e | ⟨record, seen⟩
  · rw [hread] at h
    cases h
  have hrecord : P record := readNamed_preserves hfield hother hread ha
  rw [hread] at h
  simp only [bind, Except.bind] at h
  split at h
  · cases h
  split at h
  · cases h
  · exact Except.ok.inj h ▸ hrecord

end Field

namespace WithExtra

variable {α β : Type} {names : List String} {room : Nat}

/-! ### Kept members -/

/-- **Members that a record keeps**: they go by none of the given names, they are in normal form,
and `room` more lists and objects nest in them. -/
structure Kept (names : List String) (room : Nat) (extra : SortedMap Json) : Prop where
  /-- They go by none of the names. -/
  foreign : ∀ entry ∈ extra.entries, entry.1 ∉ names
  /-- They are in normal form. -/
  normal : ∀ entry ∈ extra.entries, entry.2.normal = entry.2
  /-- They do not nest too deep. -/
  depth_le : ∀ entry ∈ extra.entries, entry.2.depth ≤ room

namespace Kept

variable {extra : SortedMap Json}

theorem empty : Kept names room ∅ where
  foreign := List.forall_mem_nil _
  normal := List.forall_mem_nil _
  depth_le := List.forall_mem_nil _

/-- What goes by none of the names goes by none of fewer. -/
theorem mono (h : Kept names room extra) {fewer : List String} (hfewer : fewer ⊆ names) :
    Kept fewer room extra where
  foreign entry hentry hmem := h.foreign entry hentry (hfewer hmem)
  normal := h.normal
  depth_le := h.depth_le

/-- Kept members stay in normal form. -/
theorem map_normal (h : Kept names room extra) : extra.map Json.normal = extra := by
  refine SortedMap.ext ?_
  refine (List.map_congr_left fun entry hentry => ?_).trans (List.map_id _)
  exact Prod.ext rfl (h.normal entry hentry)

/-- A text can hold kept members whose numbers it can hold. -/
theorem fits (h : Kept names room extra)
    (hnumbers : ∀ entry ∈ extra.entries, ∀ v, Json.Part v entry.2 → v.NumberFits) :
    ∀ entry ∈ extra.entries, entry.2.Fits room := by
  intro entry hentry
  refine ⟨h.depth_le entry hentry, fun v hv => ?_, hnumbers entry hentry⟩
  rw [← h.normal entry hentry] at hv
  exact Json.keysDiffer_of_part_normal _ v hv

/-- Without a key, kept members go by one name less. -/
theorem erase (h : Kept names room extra) (key : String) :
    Kept (key :: names) room (extra.erase key) where
  foreign entry hentry hmem := by
    obtain ⟨hentry, hne⟩ := List.mem_filter.mp hentry
    rcases List.mem_cons.mp hmem with heq | hmem
    · exact absurd heq (by simpa using hne)
    · exact h.foreign entry hentry hmem
  normal entry hentry := h.normal entry (List.mem_filter.mp hentry).1
  depth_le entry hentry := h.depth_le entry (List.mem_filter.mp hentry).1

end Kept

/-- Names of a record and the keys of members that go by none of them differ. -/
theorem nodup_append {extra : SortedMap Json} (h : ∀ entry ∈ extra.entries, entry.1 ∉ names)
    (own : List String) (hown : own.Nodup) (hnames : own ⊆ names) :
    (own ++ extra.entries.map (·.1)).Nodup := by
  refine List.nodup_append.mpr ⟨hown, extra.nodup_keys, fun name hname key hkey heq => ?_⟩
  obtain ⟨entry, hentry, rfl⟩ := List.mem_map.mp hkey
  exact h entry hentry (heq ▸ hnames hname)

/-- What was read is sorted and brought into normal form. -/
theorem exists_of_mem_normalExtra {state : WithExtra α} {entry : String × Json}
    (h : entry ∈ state.normalExtra.entries) :
    ∃ j, (entry.1, j) ∈ state.extra ∧ entry.2 = j.normal := by
  obtain ⟨⟨key, j⟩, hj, rfl⟩ := List.mem_map.mp h
  exact ⟨j, Entries.mem_sort hj, rfl⟩

/-- What was read, sorted and in normal form, is kept. -/
theorem kept_normalExtra {state : WithExtra α}
    (h : ∀ entry ∈ state.extra, entry.1 ∉ names ∧ entry.2.depth ≤ room) :
    Kept names room state.normalExtra := by
  refine ⟨fun entry hmem => ?_, fun entry hmem => ?_, fun entry hmem => ?_⟩
  · obtain ⟨j, hj, -⟩ := exists_of_mem_normalExtra hmem
    exact (h _ hj).1
  · obtain ⟨j, -, heq⟩ := exists_of_mem_normalExtra hmem
    rw [heq, Json.normal_normal]
  · obtain ⟨j, hj, heq⟩ := exists_of_mem_normalExtra hmem
    rw [heq]
    exact Nat.le_trans (Json.depth_normal_le j) (h _ hj).2

/-- What is read after something else was. -/
theorem exists_of_bind {γ : Type} {x : Except Fault β} {f : β → Except Fault γ} {c : γ}
    (h : x >>= f = .ok c) : ∃ y, x = .ok y ∧ f y = .ok c := by
  rcases x with e | y
  · cases h
  · exact ⟨y, rfl, h⟩

/-- What is returned of something that was read. -/
theorem exists_of_bind_pure {γ : Type} {x : Except Fault β} {f : β → γ} {c : γ}
    (h : (do return f (← x)) = Except.ok c) : ∃ y, x = .ok y ∧ c = f y := by
  rcases x with e | y
  · cases h
  · exact ⟨y, rfl, (Except.ok.inj h).symm⟩

/-- Whether a field leaves the kept members alone. -/
def KeepsExtra {ν : Type} (field : Field (Except Fault) ν (WithExtra α)) : Prop :=
  ∀ v state state', field.read v state = .ok state' → state'.extra = state.extra

variable {ν : Type} [Readable ν (Except Fault)]

omit [Readable ν (Except Fault)] in
/-- A field of the record proper reads into the record. -/
theorem exists_of_ofRecord {name : String} {read : ν → α → Except Fault α} {v : ν}
    {state state' : WithExtra α} (h : (Field.ofRecord name read).read v state = .ok state') :
    ∃ record, read v state.record = .ok record ∧ state' = { state with record } := by
  exact exists_of_bind_pure h

omit [Readable ν (Except Fault)] in
theorem keepsExtra_ofRecord (name : String) (read : ν → α → Except Fault α) :
    KeepsExtra (Field.ofRecord name read) := by
  intro v state state' h
  obtain ⟨record, -, rfl⟩ := exists_of_ofRecord h
  rfl

/-- **What a record keeps of what it is read from** goes by no name of a field and stood there. -/
theorem extra_of_read {fields : List (Field (Except Fault) ν (WithExtra α))} {initial : α}
    {members : Members (Except Fault) ν} {state : WithExtra α} {P : String × Json → Prop}
    (hnames : Field.GoBy fields names) (hfields : ∀ field ∈ fields, KeepsExtra field)
    (hmembers : ∀ member ∈ members.members, ∀ key j, member.1 = .ok key →
      Readable.whole member.2 = .ok j → P (key, j))
    (h : read fields initial members = .ok state) :
    ∀ entry ∈ state.extra, entry.1 ∉ names ∧ P entry := by
  refine Field.readMembers_preserves
      (P := fun state => ∀ entry ∈ state.extra, entry.1 ∉ names ∧ P entry)
    (fun field hfield member _ a a' ha hread => ?_)
    (fun member hmember key hkey hfind a a' ha hread => ?_) h (List.forall_mem_nil _)
  · rw [hfields field hfield _ _ _ hread]
    exact ha
  · rw [keep] at hread
    rcases hj : Readable.whole member.2 with e | j
    · rw [hj] at hread
      cases hread
    · rw [hj] at hread
      obtain rfl := Except.ok.inj hread
      refine List.forall_mem_append.mpr ⟨ha, List.forall_mem_singleton.mpr ?_⟩
      exact ⟨hnames.find?_eq_none_iff.mp hfind, hmembers member hmember key j hkey hj⟩

omit [Readable ν (Except Fault)] in
/-- A field that gets its value and returns the record with it sets it in the record. -/
theorem sets_ofRecord {name : String} {read : ν → α → Except Fault α} {get : ν → Except Fault β}
    {set : β → α → α} (h : ∀ v a, read v a = do return set (← get v) a) :
    (Field.ofRecord name read).Sets get
      fun x state => { state with record := set x state.record } := by
  intro v state x hx
  rw [Field.ofRecord]
  simp only [h, hx]
  rfl

variable [ShowsJson ν]

/-- **Kept members are kept again.** -/
theorem reads_keep {fields : List (Field (Except Fault) ν (WithExtra α))}
    (hnames : Field.GoBy fields names) {entries : List (String × Json)}
    (hforeign : ∀ entry ∈ entries, entry.1 ∉ names)
    (hdepth : ∀ entry ∈ entries, entry.2.depth ≤ room) (record : α) (past : List (String × Json)) :
    Field.Reads fields keep room (entries.map fun entry => (entry.1, some entry.2))
      ⟨record, past⟩ ⟨record, past ++ entries⟩ := by
  induction entries generalizing past with
  | nil =>
    rw [List.append_nil]
    exact .done _
  | cons entry entries ih =>
    obtain ⟨hkey, hforeign⟩ := List.forall_mem_cons.mp hforeign
    obtain ⟨hentry, hdepth⟩ := List.forall_mem_cons.mp hdepth
    have hread : keep entry.1 (shown room entry.2 : ν) ⟨record, past⟩ =
        .ok ⟨record, past ++ [entry]⟩ := by
      rw [keep, whole_shown hentry]
      rfl
    have hrest := ih hforeign hdepth (past ++ [entry])
    rw [List.append_assoc] at hrest
    exact .other (hnames.find?_eq_none_iff.mpr hkey) hread hrest

end WithExtra

end ApiAnnotation
