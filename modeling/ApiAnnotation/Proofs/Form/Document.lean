import ApiAnnotation.Form.Document
import ApiAnnotation.Proofs.Form.Extra
import ApiAnnotation.Proofs.Form.Operation

/-!
# Metadata is read back

Metadata is written as members of the document that it belongs to, and what is said about the
interface is an object among them. Both keep the members that they do not know, and write these
after their own. Reading tells them apart by their names, so nothing is mixed up as long as what is
kept goes by none of the names of the fields (`ApiAnnotation.WithExtra.Kept`).

## Main statements

* `ApiAnnotation.Info.read_shown`: an `info` object is read back.
* `ApiAnnotation.Metadata.reads_members`: so are the members of metadata.
* `ApiAnnotation.Metadata.ofMembers_cons`: what becomes of metadata if the version of the format
  stands in front of its members.
-/

namespace ApiAnnotation

open ShowsJson WithExtra

variable {ν : Type} [Readable ν (Except Fault)] [ShowsJson ν] {room : Nat}

/-- Members that are kept, as members that are there. -/
def present (entries : List (String × Json)) : List (String × Option Json) :=
  entries.map fun entry => (entry.1, some entry.2)

@[simp] theorem keys_present (entries : List (String × Json)) :
    (present entries).map (·.1) = entries.map (·.1) := by
  rw [present, List.map_map]
  rfl

theorem present_fits {entries : List (String × Json)} (h : ∀ entry ∈ entries, entry.2.Fits room) :
    ∀ member ∈ present entries, ∀ j ∈ member.2, Json.Fits room j := by
  intro member hmember j hj
  obtain ⟨entry, hentry, rfl⟩ := List.mem_map.mp hmember
  obtain rfl := Option.some.inj hj
  exact h entry hentry

/-! ### What is said about the interface -/

namespace Info

/-- The names of the fields. -/
def names : List String := ["title", "version", "description"]

omit [ShowsJson ν] in
theorem fields_goBy : Field.GoBy (fields : List (Field (Except Fault) ν (WithExtra Info))) names :=
  rfl

/-- The members, those that may be left out included. -/
def members (info : Info) : List (String × Option Json) :=
  [("title", some (.string info.title)), ("version", some (.string info.version)),
    ("description", info.description.map .string)] ++ present info.extra.entries

theorem toJson_eq (info : Info) : info.toJson = .record info.members := by
  have hgiven : Json.given info.members = [("title", Json.string info.title),
      ("version", Json.string info.version)] ++
        (info.description.map fun s => ("description", Json.string s)).toList ++
          info.extra.entries := by
    rw [members, present, Json.given_append, Json.given_map_some]
    cases info.description <;> rfl
  exact congrArg Json.object hgiven.symm

variable {info : Info}

theorem nodup_members (h : ∀ entry ∈ info.extra.entries, entry.1 ∉ names) :
    (info.members.map (·.1)).Nodup := by
  have hkeys : info.members.map (·.1) = names ++ info.extra.entries.map (·.1) := by
    rw [members, List.map_append, keys_present]
    rfl
  rw [hkeys]
  exact nodup_append h names (by decide) (List.Subset.refl _)

theorem reads_members (h : Kept names room info.extra) :
    Field.Reads (fields : List (Field (Except Fault) ν (WithExtra Info))) keep room info.members
      ⟨{}, []⟩ ⟨{ info with extra := ∅ }, info.extra.entries⟩ := by
  refine .append ?_ (reads_keep fields_goBy h.foreign h.depth_le _ [])
  refine .value rfl rfl (sets_ofRecord fun _ _ => rfl) (text_shown _ _) ?_
  refine .value rfl rfl (sets_ofRecord fun _ _ => rfl) (text_shown _ _) ?_
  refine .optional rfl rfl (sets_ofRecord fun _ _ => rfl) nofun (text_shown _) rfl ?_
  exact .done _

/-- **An `info` object is read back** with the members that it keeps. -/
theorem read_shown (h : Kept names room info.extra) :
    read (shown (room + 1) info.toJson : ν) = .ok info := by
  have hstate :
      WithExtra.read fields {} { members := shownMembers room (Json.given info.members) } =
        (.ok ⟨{ info with extra := ∅ }, info.extra.entries⟩ : Except Fault (WithExtra Info)) :=
    (reads_members (ν := ν) h).readMembers (nodup_members h.foreign)
      (by simp [fields, Field.ofRecord])
  have hextra : (⟨{ info with extra := ∅ }, info.extra.entries⟩ : WithExtra Info).normalExtra =
      info.extra := by
    rw [normalExtra, SortedMap.ofList_entries, h.map_normal]
  rw [read, toJson_eq, Json.record, members_shown]
  show (WithExtra.read fields {} { members := shownMembers room (Json.given info.members) } >>=
    fun state => pure { state.record with extra := state.normalExtra }) = _
  rw [hstate]
  show Except.ok { info with extra := normalExtra _ } = _
  rw [hextra]

theorem toJson_fits (h : Kept names room info.extra)
    (hextra : ∀ entry ∈ info.extra.entries, entry.2.Fits room) : info.toJson.Fits (room + 1) := by
  rw [toJson_eq]
  refine .record (nodup_members h.foreign) (List.forall_mem_append.mpr ⟨?_, ?_⟩)
  · simp [Json.Fits.string]
  · exact present_fits hextra

/-- What is read as an `info` object keeps what a text can hold. -/
theorem kept_of_read {j : Json} (hj : j.depth ≤ room + 1) {info : Info} (h : read j = .ok info) :
    Kept names room info.extra := by
  cases j with
  | object members =>
    have hdepth := Json.depth_object_le_iff.mp hj
    rw [read] at h
    obtain ⟨state, hstate, rfl⟩ := exists_of_bind_pure h
    have hextra := extra_of_read (P := fun entry => entry.2.depth ≤ room) fields_goBy
      (by simp [fields, keepsExtra_ofRecord]) (by
        intro member hmember key value hkey hvalue
        obtain ⟨⟨name, j⟩, hmem, rfl⟩ := List.mem_map.mp hmember
        obtain rfl := Except.ok.inj hvalue
        exact hdepth (name, j) hmem) hstate
    exact kept_normalExtra hextra
  | _ => cases h

end Info

/-! ### Metadata -/

/-- A list is read that is left out when it is empty. -/
theorem Field.Reads.nonempty {α : Type} {fields : List (Field (Except Fault) ν α)}
    {other : String → ν → α → Except Fault α} {field : Field (Except Fault) ν α} {key : String}
    {set : List String → α → α} {texts : List String} {rest : List (String × Option Json)} {a b : α}
    (hfind : fields.find? (Field.answersTo key) = some field) (hname : field.name = key)
    (hsets : field.Sets (Readable.list Readable.text) set) (hempty : set [] a = a)
    (hrest : Field.Reads fields other (room + 1) rest (set texts a) b) :
    Field.Reads fields other (room + 1) ((key, Metadata.nonempty texts) :: rest) a b := by
  rw [Metadata.nonempty]
  split
  · next htexts =>
    subst htexts
    rw [hempty] at hrest
    exact .absent hrest
  · exact .value hfind hname hsets (Readable.strings_shown texts) hrest

namespace Metadata

/-- The names of the fields. -/
def names : List String := ["info", "host", "basePath", "schemes", "consumes", "produces"]

omit [ShowsJson ν] in
theorem fields_goBy :
    Field.GoBy (fields : List (Field (Except Fault) ν (WithExtra Metadata))) names :=
  rfl

/-- The members, those that may be left out included. -/
def members (m : Metadata) : List (String × Option Json) :=
  [("info", some m.info.toJson), ("host", m.host.map .string), ("basePath", m.basePath.map .string),
    ("schemes", nonempty m.schemes), ("consumes", nonempty m.consumes),
    ("produces", nonempty m.produces)] ++ present m.extra.entries

theorem toMembers_eq (m : Metadata) : m.toMembers = Json.given m.members := by
  rw [members, present, Json.given_append, Json.given_map_some]
  rfl

variable {m : Metadata}

theorem reads_members (hinfo : Kept Info.names room m.info.extra)
    (h : Kept names (room + 1) m.extra) (past : List (String × Json)) :
    Field.Reads (fields : List (Field (Except Fault) ν (WithExtra Metadata))) keep (room + 1)
      m.members ⟨{}, past⟩ ⟨{ m with extra := ∅ }, past ++ m.extra.entries⟩ := by
  refine .append ?_ (reads_keep fields_goBy h.foreign h.depth_le _ past)
  refine .value rfl rfl (sets_ofRecord fun _ _ => rfl) (Info.read_shown hinfo) ?_
  refine .optional rfl rfl (sets_ofRecord fun _ _ => rfl) nofun (text_shown _) rfl ?_
  refine .optional rfl rfl (sets_ofRecord fun _ _ => rfl) nofun (text_shown _) rfl ?_
  refine .nonempty rfl rfl (sets_ofRecord fun _ _ => rfl) rfl ?_
  refine .nonempty rfl rfl (sets_ofRecord fun _ _ => rfl) rfl ?_
  refine .nonempty rfl rfl (sets_ofRecord fun _ _ => rfl) rfl ?_
  exact .done _

theorem keys_members (m : Metadata) :
    m.members.map (·.1) = names ++ m.extra.entries.map (·.1) := by
  rw [members, List.map_append, keys_present]
  rfl

/-- **Metadata is read back**, a member of a free name in front of its own being kept. -/
theorem ofMembers_cons {key : String} (j : Json) (hinfo : Kept Info.names room m.info.extra)
    (h : Kept (key :: names) (room + 1) m.extra) (hkey : key ∉ names) :
    ofMembers ((key, j) :: m.toMembers) =
      .ok { m with extra := (SortedMap.ofList ((key, j) :: m.extra.entries)).map Json.normal } := by
  have hreads : Field.Reads (fields : List (Field (Except Fault) Json (WithExtra Metadata))) keep
      (room + 1) ((key, some j) :: m.members) ⟨{}, []⟩
      ⟨{ m with extra := ∅ }, (key, j) :: m.extra.entries⟩ :=
    .other (fields_goBy.find?_eq_none_iff.mpr hkey) rfl
      (reads_members hinfo (h.mono (List.subset_cons_self _ _)) [(key, j)])
  have hnodup : (((key, some j) :: m.members).map (·.1)).Nodup := by
    rw [List.map_cons, keys_members, ← List.cons_append]
    exact nodup_append h.foreign (key :: names) (List.nodup_cons.mpr ⟨hkey, by decide⟩)
      (List.Subset.refl _)
  have hstate := hreads.readMembers hnodup (by simp [fields, Field.ofRecord])
  rw [toMembers_eq, ofMembers]
  exact congrArg (fun read => read >>= fun state =>
    pure { state.record with extra := state.normalExtra }) hstate

/-- What is read as metadata keeps members of the names that were there, and what is read as an
`info` object keeps what a text can hold. -/
theorem kept_of_ofMembers {entries : List (String × Json)} {others : List String}
    (hforeign : ∀ entry ∈ entries, entry.1 ∉ others)
    (hdepth : ∀ entry ∈ entries, entry.2.depth ≤ room + 1) (h : ofMembers entries = .ok m) :
    Kept (names ++ others) (room + 1) m.extra ∧ Kept Info.names room m.info.extra := by
  rw [ofMembers] at h
  obtain ⟨state, hstate, rfl⟩ := exists_of_bind_pure h
  constructor
  · have hextra := extra_of_read (P := fun entry => entry ∈ entries) fields_goBy
      (by simp [fields, keepsExtra_ofRecord]) (by
        intro member hmember key value hkey hvalue
        obtain ⟨⟨name, j⟩, hmem, rfl⟩ := List.mem_map.mp hmember
        obtain rfl := Except.ok.inj hkey
        obtain rfl := Except.ok.inj hvalue
        exact hmem) hstate
    refine kept_normalExtra fun entry hentry => ?_
    obtain ⟨hname, hmem⟩ := hextra entry hentry
    refine ⟨fun hin => ?_, hdepth entry hmem⟩
    exact (List.mem_append.mp hin).elim hname (hforeign entry hmem)
  · refine Field.readMembers_preserves
      (P := fun state : WithExtra Metadata => Kept Info.names room state.record.info.extra)
      (fun field hfield member hmember a a' ha hread => ?_)
      (fun member hmember key hkey hfind a a' ha hread => ?_) hstate .empty
    · obtain ⟨⟨name, j⟩, hmem, rfl⟩ := List.mem_map.mp hmember
      simp only [fields, List.mem_cons, List.not_mem_nil, or_false] at hfield
      rcases hfield with rfl | hfield
      · obtain ⟨record, hrecord, rfl⟩ := exists_of_ofRecord hread
        obtain ⟨info, hinfo, rfl⟩ := exists_of_bind_pure hrecord
        exact Info.kept_of_read (hdepth (name, j) hmem) hinfo
      · -- the other fields do not touch what is said about the interface
        rcases hfield with rfl | rfl | rfl | rfl | rfl
        all_goals
          obtain ⟨record, hrecord, rfl⟩ := exists_of_ofRecord hread
          obtain ⟨x, -, rfl⟩ := exists_of_bind_pure hrecord
          exact ha
    · obtain ⟨j, -, rfl⟩ := exists_of_bind_pure hread
      exact ha

/-- A text can hold the members of metadata if it can hold what is kept. -/
theorem toMembers_fits (hinfo : m.info.toJson.Fits (room + 1))
    (hextra : ∀ entry ∈ m.extra.entries, entry.2.Fits (room + 1)) :
    ∀ member ∈ m.toMembers, member.2.Fits (room + 1) := by
  have hnonempty : ∀ texts : List String, ∀ j ∈ nonempty texts, j.Fits (room + 1) := by
    intro texts j hj
    rw [nonempty] at hj
    split at hj
    · cases hj
    · obtain rfl := Option.some.inj hj
      exact .strings texts
  have hmembers : ∀ member ∈ m.members, ∀ j ∈ member.2, j.Fits (room + 1) := by
    refine List.forall_mem_append.mpr ⟨?_, present_fits hextra⟩
    simpa [Json.Fits.string, hinfo] using
      ⟨hnonempty m.schemes, hnonempty m.consumes, hnonempty m.produces⟩
  intro member hmember
  rw [toMembers_eq] at hmember
  exact hmembers _ (Json.exists_of_mem_given hmember) _ rfl

end Metadata

end ApiAnnotation
