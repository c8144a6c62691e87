import ApiAnnotation.Proofs.Document.Merge
import ApiAnnotation.Proofs.Form.Document

/-!
# Written documents are read back

A document is written with everything that it keeps, and its text is a template. Reading finds the
version of the format among the members that a template keeps, since a template has no field for it,
and it is dropped again when the template becomes a document. The rest has to come back as it was.

What may stand in the way is that two members of the text go by one name, that lists and objects
nest deeper than a reader goes, or that what is kept is not in normal form. None of this happens to
a document whose template was read from a text itself (`ApiAnnotation.Document.Restorable`): what it
keeps was told from the fields by its name, was no deeper in the text from which it was read than it
is in the one that is written, and has been in normal form since.

## Main statements

* `ApiAnnotation.Document.Restorable.exists_read`: such a document is read back from any format that
  shows JSON values.
* `ApiAnnotation.Template.kept_of_read`: what a template keeps of a text.
* `ApiAnnotation.Document.restore_written`: documents that arise from a text are restored from the
  one that they are written as.
-/

namespace ApiAnnotation

open ShowsJson WithExtra

variable {ν : Type} [Readable ν (Except Fault)] [ShowsJson ν] {room : Nat}

namespace Template

/-- The names of the fields that are read where they stand. -/
def names : List String := ["paths", "tags", "definitions"]

omit [ShowsJson ν] in
theorem fields_goBy :
    Field.GoBy (fields : List (Field (Except Fault) ν (WithExtra Template))) names :=
  rfl

end Template

namespace Document

/-- The names of all fields of a document. -/
def names : List String := formatKey :: Metadata.names ++ Template.names

/-- **Documents that are read back**: what they keep goes by none of the names of fields and has
room to nest, and no tag has the name of another. -/
structure Restorable (room : Nat) (doc : Document) : Prop where
  /-- The version of the format is the one that is written. -/
  swagger : doc.swagger = formatVersion
  /-- The names of tags differ. -/
  tags : (doc.tags.map (·.name)).Nodup
  /-- The further members of the document were kept. -/
  extra : Kept names (room + 6) doc.metadata.extra
  /-- The further members of `info` were kept. -/
  infoExtra : Kept Info.names (room + 5) doc.metadata.info.extra
  /-- Their numbers are integers of 64 bits. -/
  numbers : ∀ extra ∈ [doc.metadata.extra, doc.metadata.info.extra], ∀ entry ∈ extra.entries,
    ∀ v, Json.Part v entry.2 → v.NumberFits

/-- The members that are no parts. -/
def kept (doc : Document) : List (String × Json) :=
  (formatKey, .string doc.swagger) :: doc.metadata.toMembers

theorem toJson_eq (doc : Document) : doc.toJson =
    .record (present doc.kept ++ present (partMembers doc.paths doc.tags doc.definitions)) := by
  have hgiven : Json.given (present doc.kept ++
      present (partMembers doc.paths doc.tags doc.definitions)) =
        doc.kept ++ partMembers doc.paths doc.tags doc.definitions := by
    rw [present, present, Json.given_append, Json.given_map_some, Json.given_map_some]
  exact congrArg Json.object hgiven.symm

/-- The members, those that may be left out included. -/
def members (doc : Document) : List (String × Option Json) :=
  ((formatKey, some (.string doc.swagger)) :: doc.metadata.members) ++
    present (partMembers doc.paths doc.tags doc.definitions)

theorem given_members (doc : Document) :
    Json.given doc.members = doc.kept ++ partMembers doc.paths doc.tags doc.definitions := by
  rw [members, Json.given_append, present, Json.given_map_some, kept, Metadata.toMembers_eq]
  rfl

theorem toJson_eq_members (doc : Document) : doc.toJson = .record doc.members :=
  congrArg Json.object (given_members doc).symm

variable {doc : Document}

/-- No key of a document stands twice, even if all members are there. -/
theorem nodup_members (h : ∀ entry ∈ doc.metadata.extra.entries, entry.1 ∉ names) :
    (doc.members.map (·.1)).Nodup := by
  have hkeys : doc.members.map (·.1) =
      (formatKey :: Metadata.names) ++ doc.metadata.extra.entries.map (·.1) ++ Template.names := by
    rw [members, List.map_append, List.map_cons, Metadata.keys_members, keys_present]
    rfl
  have hall : (names ++ doc.metadata.extra.entries.map (·.1)).Nodup :=
    nodup_append h names (by decide) (List.Subset.refl _)
  rw [hkeys, List.append_assoc]
  refine (List.Perm.nodup_iff ?_).mp hall
  rw [names, List.append_assoc]
  exact List.perm_append_comm.append_left _

namespace Restorable

theorem fits_kept (h : Restorable room doc) : ∀ member ∈ doc.kept, member.2.Fits (room + 6) := by
  have hinfo : ∀ entry ∈ doc.metadata.info.extra.entries, entry.2.Fits (room + 5) :=
    h.infoExtra.fits (h.numbers _ (by simp))
  have hextra : ∀ entry ∈ doc.metadata.extra.entries, entry.2.Fits (room + 6) :=
    h.extra.fits (h.numbers _ (by simp))
  refine List.forall_mem_cons.mpr ⟨.string _, ?_⟩
  exact Metadata.toMembers_fits (Info.toJson_fits h.infoExtra hinfo) hextra

/-- Kept members go by none of the names of parts. -/
theorem foreign_kept (h : Restorable room doc) :
    ∀ member ∈ doc.kept, member.1 ∉ Template.names := by
  have hformat : formatKey ∉ Template.names := by decide
  refine List.forall_mem_cons.mpr ⟨hformat, fun member hmember => ?_⟩
  rw [Metadata.toMembers_eq] at hmember
  have hkey : member.1 ∈ Metadata.names ++ doc.metadata.extra.entries.map (·.1) := by
    rw [← Metadata.keys_members]
    exact (Json.keys_given_sublist _).subset (List.mem_map_of_mem hmember)
  rcases List.mem_append.mp hkey with hname | hname
  · have hdisjoint : ∀ name ∈ Metadata.names, name ∉ Template.names := by decide
    exact hdisjoint member.1 hname
  · obtain ⟨entry, hentry, heq⟩ := List.mem_map.mp hname
    rw [← heq]
    exact fun hmem => h.extra.foreign entry hentry (List.mem_append_right _ hmem)

/-- No key of a document stands twice. -/
theorem nodup_keys (h : Restorable room doc) :
    ((present doc.kept ++ present (partMembers doc.paths doc.tags doc.definitions)).map
      (·.1)).Nodup := by
  rw [present, present, ← List.map_append, ← present, keys_present, ← given_members]
  exact (nodup_members h.extra.foreign).sublist (Json.keys_given_sublist _)

/-- **A text can hold the document.** -/
theorem toJson_fits (h : Restorable room doc) : doc.toJson.Fits (room + 7) := by
  have htags : (Json.array (doc.tags.map Tag.toJson)).Fits (room + 6) :=
    .list _ (Tag.toJson_fits (room + 4))
  have hparts : ∀ member ∈ partMembers doc.paths doc.tags doc.definitions,
      member.2.Fits (room + 6) := by
    simpa [partMembers] using
      ⟨Paths.toJson_fits room doc.paths, htags, Definitions.toJson_fits (room + 1) doc.definitions⟩
  rw [toJson_eq]
  exact .record h.nodup_keys
    (List.forall_mem_append.mpr ⟨present_fits h.fits_kept, present_fits hparts⟩)

/-- The parts are read where they stand, and everything else is kept. -/
theorem reads_toJson (h : Restorable room doc) :
    Field.Reads (Template.fields : List (Field (Except Fault) ν (WithExtra Template))) keep
      (room + 6) (present doc.kept ++ present (partMembers doc.paths doc.tags doc.definitions))
      ⟨{}, []⟩
      ⟨{ paths := doc.paths, tags := doc.tags, definitions := doc.definitions }, doc.kept⟩ := by
  refine .append (reads_keep Template.fields_goBy h.foreign_kept
    (fun member hmember => (h.fits_kept member hmember).depth_le) _ []) ?_
  refine .value rfl rfl (sets_ofRecord fun _ _ => rfl) (Paths.read_shown room _) ?_
  refine .value rfl rfl (sets_ofRecord fun _ _ => rfl)
    (Readable.list_shown fun t _ => Tag.read_shown (room + 4) t) ?_
  refine .value rfl rfl (sets_ofRecord fun _ _ => rfl) (Definitions.read_shown (room + 1) _) ?_
  exact .done _

/-- Sorted out again, what was kept is what the document keeps, but for the format's version. -/
theorem erase_formatKey (h : Restorable room doc) (j : Json) :
    ((SortedMap.ofList ((formatKey, j) :: doc.metadata.extra.entries)).map Json.normal).erase
      formatKey = doc.metadata.extra := by
  refine SortedMap.ext_get? fun key => ?_
  rw [SortedMap.get?_erase, SortedMap.get?_map, SortedMap.ofList_cons_entries, SortedMap.get?_union]
  by_cases hkey : key = formatKey
  · rw [if_pos hkey]
    rcases hget : doc.metadata.extra.get? key with _ | value
    · rfl
    · have hmem := SortedMap.mem_entries.mpr hget
      exact absurd (hkey ▸ List.mem_cons_self) (h.extra.foreign _ hmem)
  · have hnormal : (doc.metadata.extra.map Json.normal).get? key = doc.metadata.extra.get? key := by
      rw [h.extra.map_normal]
    rw [SortedMap.get?_map] at hnormal
    rw [if_neg hkey, SortedMap.get?_insert, if_neg hkey, SortedMap.get?_empty, Option.or_none,
      hnormal]

/-- **The document is read back**, as the template that it comes from without any fragment. -/
theorem exists_read (h : Restorable room doc) :
    ∃ t, Template.read (shown (room + 7) doc.toJson : ν) = .ok t ∧ ofTemplate t = doc := by
  have hextra : Kept (formatKey :: Metadata.names) (room + 6) doc.metadata.extra :=
    h.extra.mono (List.subset_append_left _ _)
  have hmetadata : Metadata.ofMembers doc.kept = .ok { doc.metadata with
      extra := (SortedMap.ofList ((formatKey, .string doc.swagger) ::
        doc.metadata.extra.entries)).map Json.normal } :=
    Metadata.ofMembers_cons (.string doc.swagger) h.infoExtra hextra (by decide)
  have hmembers : Readable.members (shown (room + 7) doc.toJson : ν) =
      .ok { members := shownMembers (room + 6) (Json.given
        (present doc.kept ++ present (partMembers doc.paths doc.tags doc.definitions))) } := by
    rw [toJson_eq, Json.record, members_shown]
    rfl
  have hstate := (h.reads_toJson (ν := ν)).readMembers h.nodup_keys
    (by simp [Template.fields, Field.ofRecord])
  have htags : doc.tags.foldl addTag [] = doc.tags :=
    (Tag.foldl_addTag_distinct [] doc.tags).trans (Tag.distinct_of_nodup h.tags)
  refine ⟨⟨{ doc.metadata with extra := (SortedMap.ofList ((formatKey, .string doc.swagger) ::
    doc.metadata.extra.entries)).map Json.normal }, doc.paths, doc.tags, doc.definitions⟩, ?_, ?_⟩
  · rw [Template.read, hmembers]
    simp only [bind, Except.bind, WithExtra.read, hstate, hmetadata]
    rfl
  · rw [ofTemplate, htags, h.erase_formatKey, ← h.swagger]

end Restorable

end Document

/-! ### What is kept of a text -/

/-- In the members of a text there is room for one list or object less. -/
theorem Json.Text.room_of_members {tree : Json.Tree} {ms : Members (Except Fault) Json.Text}
    (h : Readable.members (⟨tree, room + 1⟩ : Json.Text) = .ok ms) :
    ∀ member ∈ ms.members, member.2.room = room := by
  cases tree with
  | object members close =>
    obtain rfl := Except.ok.inj h
    intro member hmember
    obtain ⟨entry, -, rfl⟩ := List.mem_map.mp hmember
    rfl
  | _ => cases h

theorem ofExcept_eq_ok {α : Type} {x : Except Fault α} {a : α}
    (h : (MonadExcept.ofExcept x : Except Fault α) = .ok a) : x = .ok a := by
  rcases x with e | a'
  · cases h
  · exact h

omit [ShowsJson ν] in
/-- **What reading a template comes to**: its members, and metadata from those that it keeps. -/
theorem Template.exists_of_read {v : ν} {t : Template} (h : read v = .ok t) :
    ∃ ms state metadata, Readable.members v = .ok ms ∧ WithExtra.read fields {} ms = .ok state ∧
      Metadata.ofMembers state.extra = .ok metadata ∧ t = { state.record with metadata } := by
  rw [read] at h
  obtain ⟨ms, hmembers, hfields⟩ := exists_of_bind h
  obtain ⟨state, hstate, hkept⟩ := exists_of_bind hfields
  obtain ⟨metadata, hmetadata, ht⟩ := exists_of_bind_pure hkept
  exact ⟨ms, state, metadata, hmembers, hstate, ofExcept_eq_ok hmetadata, ht⟩

/-- **What a template keeps of a text** goes by no name of a field and has room to nest. -/
theorem Template.kept_of_read {tree : Json.Tree} {t : Template}
    (h : read (⟨tree, room + 7⟩ : Json.Text) = .ok t) :
    Kept (Metadata.names ++ names) (room + 6) t.metadata.extra ∧
      Kept Info.names (room + 5) t.metadata.info.extra := by
  obtain ⟨ms, state, metadata, hmembers, hstate, hmetadata, rfl⟩ := exists_of_read h
  have hextra := extra_of_read (P := fun entry => entry.2.depth ≤ room + 6) fields_goBy
    (by simp [fields, keepsExtra_ofRecord]) (by
      intro member hmember key value hkey hvalue
      have hroom := Json.Text.room_of_members hmembers member hmember
      have hdepth := (Json.tree_and_depth_of_value member.2.room member.2.tree value hvalue).2
      rwa [hroom] at hdepth) hstate
  exact Metadata.kept_of_ofMembers (fun entry hentry => (hextra entry hentry).1)
    (fun entry hentry => (hextra entry hentry).2) hmetadata

/-! ### Documents that arise from a text -/

/-- **Templates as they are given**: read from a text, or made of a title and a version. -/
def Template.Given (t : Template) : Prop :=
  (∃ text, Json.decode Template.read text = .ok t) ∨ ∃ title version, t = .titled title version

theorem Template.Given.kept {t : Template} (h : t.Given) :
    Kept (Metadata.names ++ names) 126 t.metadata.extra ∧
      Kept Info.names 125 t.metadata.info.extra := by
  rcases h with ⟨text, htext⟩ | ⟨title, version, rfl⟩
  · exact Template.kept_of_read (Json.read_of_decode htext)
  · exact ⟨.empty, .empty⟩

/-- Whether all numbers in the further members of metadata are integers of 64 bits. -/
def Metadata.NumbersFit (m : Metadata) : Prop :=
  ∀ extra ∈ [m.extra, m.info.extra], ∀ entry ∈ extra.entries,
    ∀ v, Json.Part v entry.2 → v.NumberFits

namespace Document

variable {doc : Document}

/-- **Documents as they arise**: from a template that was given, by taking in any fragments. -/
def Arises (doc : Document) : Prop :=
  ∃ t fs, Template.Given t ∧ doc = (ofTemplate t).mergeAll fs

theorem Arises.restorable (h : doc.Arises) (hnumbers : doc.metadata.NumbersFit) :
    Restorable 120 doc := by
  obtain ⟨t, fs, ht, rfl⟩ := h
  obtain ⟨hextra, hinfo⟩ := ht.kept
  have hgathers := gathers_mergeAll t fs
  refine ⟨hgathers.swagger, ?_, ?_, ?_, hnumbers⟩
  · rw [hgathers.tags]
    exact Tag.nodup_names_distinct _
  · rw [hgathers.metadata]
    exact hextra.erase formatKey
  · rw [hgathers.metadata]
    exact hinfo

/-- A document that arises is decoded from its text, as a template that makes the document. -/
theorem Arises.exists_decode (h : doc.Arises) (hnumbers : doc.metadata.NumbersFit) :
    ∃ t, Json.decode Template.read doc.toJson.pretty = .ok t ∧ ofTemplate t = doc := by
  have hdoc := h.restorable hnumbers
  obtain ⟨t, hread, ht⟩ := hdoc.exists_read (ν := Json.Text)
  have hdecode := Json.decode_written Json.Spacing.isBlank_indented hdoc.toJson_fits.numberFits 0
    (Template.read : Json.Text → Except Fault Template)
  exact ⟨t, hdecode.trans hread, ht⟩

/-- **A written document can be read back as a template without loss.** Its text is JSON in which no
object has a key twice; what is read from it makes the same document, and so the same text again;
and no other document has that text. -/
theorem restore_written (h : doc.Arises) (hnumbers : doc.metadata.NumbersFit) :
    Json.ofText doc.toJson.pretty = .ok doc.toJson ∧
      (∀ v, Json.Part v doc.toJson → v.KeysDiffer) ∧
      (∃ t, Json.decode Template.read doc.toJson.pretty = .ok t ∧ ofTemplate t = doc ∧
        (ofTemplate t).toJson.pretty = doc.toJson.pretty) ∧
      ∀ other : Document, other.Arises → other.metadata.NumbersFit →
        other.toJson.pretty = doc.toJson.pretty → other = doc := by
  have hfits := (h.restorable hnumbers).toJson_fits
  obtain ⟨t, hdecode, ht⟩ := h.exists_decode hnumbers
  refine ⟨Json.ofText_pretty hfits, hfits.keysDiffer, ⟨t, hdecode, ht, by rw [ht]⟩, ?_⟩
  intro other hother hotherNumbers hsame
  obtain ⟨t', hdecode', ht'⟩ := hother.exists_decode hotherNumbers
  rw [hsame, hdecode] at hdecode'
  rw [← ht', ← Except.ok.inj hdecode', ht]

/-- A document whose template says something of its own of the interface and of what is in it. -/
theorem restore_written_limits :
    let text :=
      "\x7b\"swagger\": \"1.2\", \"x-limits\": \x7b\"b\": [1, -2], \"a\": null\x7d, \"info\": " ++
      "\x7b\"license\": \"\u00e9\\n\", \"title\": \"Pets\"\x7d, " ++
      "\"tags\": [\x7b\"name\": \"a\"\x7d, \x7b\"name\": \"a\"\x7d]\x7d"
    let t : Template :=
      { metadata :=
          { info := { title := "Pets", extra := .ofList [("license", .string "\u00e9\n")] }
            extra := .ofList [("swagger", .string "1.2"),
              ("x-limits", .object [("a", .null), ("b", .array [.int 1, .int (-2)])])] }
        tags := [⟨"a", none⟩, ⟨"a", none⟩] }
    let doc := (ofTemplate t).mergeAll [{ tags := [⟨"b", some "B"⟩] }]
    Json.decode Template.read text = .ok t ∧ doc.metadata.NumbersFit ∧
      Json.ofText doc.toJson.pretty = .ok doc.toJson ∧
      ∃ t', Json.decode Template.read doc.toJson.pretty = .ok t' ∧ ofTemplate t' = doc := by
  intro text t doc
  have hdecode : Json.decode Template.read text = .ok t := by decide +kernel
  have hextra : doc.metadata.extra.entries =
      [("x-limits", .object [("a", .null), ("b", .array [.int 1, .int (-2)])])] := by decide +kernel
  have hinfo : doc.metadata.info.extra.entries = [("license", .string "\u00e9\n")] := by
    decide +kernel
  have hnumbers : doc.metadata.NumbersFit := by
    simp [Metadata.NumbersFit, hextra, hinfo, Json.forall_part_object, Json.forall_part_array,
      Json.part_null, Json.part_number, Json.part_string, Json.NumberFits, Json.int, Number.IsWord]
  obtain ⟨hread, -, ⟨t', hdecode', ht', -⟩, -⟩ :=
    restore_written ⟨t, _, Or.inl ⟨text, hdecode⟩, rfl⟩ hnumbers
  exact ⟨hdecode, hnumbers, hread, t', hdecode', ht'⟩

end Document

end ApiAnnotation
