import ApiAnnotation.Proofs.Document.RoundTrip
import ApiAnnotation.Proofs.Form.DocumentParts

/-!
# What a template seeds stays

A template may come with paths, tags and definitions of its own, and with members that this library
has no field for. The document without any fragment is written with all of them. Its parts come back
part by part, down to the texts, and nothing is added but defaults; of several tags with one name
the first comes back. Members of the template and of its `info` that have no field come back in
normal form, except for the version of the format, which is not the template's to say.

Inside of paths, tags and definitions there is no such room: what an operation, say, has no field
for does not come back.

## Main definitions

* `ApiAnnotation.Document.parts`: what a document has fields for.

## Main statements

* `ApiAnnotation.Document.keepsOpen_of_decode`: the document of a template keeps what stands in it.
* `ApiAnnotation.Document.not_keeps_every_flag`: a member that has no field does not come back.
-/

namespace ApiAnnotation

open Json.Tree Readable WithExtra

variable {ν : Type} [Readable ν (Except Fault)] [HasTree ν]

/-! ### Tags -/

namespace Tag

/-- How the tags of a template come back: all but those whose name stands further in front, part by
part and in their order. -/
inductive KeepsFirst : Json.Tree → Json → Prop
  /-- The tags. -/
  | intro {items : List Json.Tree} {tags : List Tag} :
    List.Forall₂ (fun item tag => KeepsRecord parts item tag.toJson) items tags →
      KeepsFirst (.array items none) (.array ((distinct tags).map toJson))

theorem carries_first :
    Carries (Readable.list read : ν → Except Fault (List Tag))
      (fun tags => .array ((tags.foldl addTag []).map toJson)) KeepsFirst := by
  intro v tags h
  obtain ⟨items, htree, hitems⟩ := exists_of_list h
  have hdistinct : tags.foldl addTag [] = distinct tags := foldl_addTag_distinct [] tags
  rw [htree]
  show KeepsFirst _ (.array ((tags.foldl addTag []).map toJson))
  rw [hdistinct]
  exact .intro (List.forall₂_map_left_iff.mpr (hitems.imp carries_read))

end Tag

/-! ### Parts that are read where they stand -/

namespace Template

/-- The parts of a template that are read where they stand. -/
def parts : List Part :=
  [{ name := "paths", keeps := Paths.Keeps, default := some (.object []) },
   { name := "tags", keeps := Tag.KeepsFirst, default := some (.array []) },
   { name := "definitions", keeps := Definitions.Keeps, default := some (.object []) }]

/-- The members of the document that these parts come back as. -/
def own (t : Template) : List (String × Option Json) :=
  present (partMembers t.paths (t.tags.foldl addTag []) t.definitions)

theorem fields_forms :
    Field.Forms (fun state => own state.record) 0
      (fields : List (Field (Except Fault) ν (WithExtra Template))) parts := by
  refine .cons (enters_ofRecord
    (.value rfl rfl (fun _ _ => rfl) Paths.carries_read fun _ _ => rfl)) ?_
  refine .cons (enters_ofRecord
    (.value rfl rfl (fun _ _ => rfl) Tag.carries_first fun _ _ => rfl)) ?_
  refine .cons (enters_ofRecord
    (.value rfl rfl (fun _ _ => rfl) Definitions.carries_read fun _ _ => rfl)) ?_
  exact .nil _

omit [HasTree ν] in
theorem keepsExtra_fields :
    ∀ field ∈ (fields : List (Field (Except Fault) ν (WithExtra Template))), KeepsExtra field := by
  simp [fields, keepsExtra_ofRecord]

end Template

/-! ### The document -/

namespace Document

/-- The version of the format. It is the same whatever the template says of it. -/
def formatPart : Part where
  name := formatKey
  keeps _ j := j = .string formatVersion
  default := some (.string formatVersion)

/-- **The parts of a document.** -/
def parts : List Part := formatPart :: (Metadata.parts ++ Template.parts)

end Document

namespace Template

variable {v : ν} {t : Template}

omit [HasTree ν] in
/-- What the document of a template keeps goes by no name of a field. -/
theorem foreign_of_read (h : read v = .ok t) :
    ∀ entry ∈ (Document.ofTemplate t).metadata.extra.entries, entry.1 ∉ Document.names := by
  obtain ⟨ms, state, metadata, -, hstate, hmetadata, rfl⟩ := exists_of_read h
  have hextra : ∀ entry ∈ state.extra, entry.1 ∉ names :=
    foreign_extra fields_goBy keepsExtra_fields hstate
  intro entry hentry hmem
  obtain ⟨hentry, hne⟩ := List.mem_filter.mp hentry
  rw [Document.names, List.cons_append] at hmem
  rcases List.mem_cons.mp hmem with heq | hmem
  · exact absurd heq (by simpa using hne)
  · exact Metadata.foreign_of_ofMembers hextra hmetadata entry hentry hmem

section Kept

variable {ms : List (String × ν)} {state : WithExtra Template} {metadata : Metadata}
  (hstate : WithExtra.read fields {} { members := Field.keyed ms } = .ok state)
  (hmetadata : Metadata.ofMembers state.extra = .ok metadata)

include hstate hmetadata

/-- A part of metadata is kept by the template, and from there it goes to the metadata. -/
theorem keepsOf_metadata {part : Part} (hpart : part ∈ Metadata.parts) :
    part.KeepsOf (HasTree.trees ms) ((Json.given metadata.own).lookup part.name) := by
  have hdisjoint : ∀ part ∈ Metadata.parts, part.name ∉ names := by decide
  refine (Metadata.keepsOf_of_ofMembers hmetadata hpart).congr fun tree => ?_
  rw [trees_extra fields_goBy keepsExtra_fields hstate, List.mem_filter]
  exact (and_iff_left (decide_eq_true (hdisjoint part hpart))).symm

/-- So does a member that metadata has no field for either. -/
theorem rel_extra_metadata {key : String} (hkey : key ∉ Metadata.names ++ names) :
    Option.Rel KeepsWhole ((HasTree.trees ms).reverse.lookup key) (metadata.extra.get? key) := by
  obtain ⟨hmetadataName, hname⟩ := not_or.mp (mt List.mem_append.mpr hkey)
  rw [← lookup_trees_extra fields_goBy keepsExtra_fields hstate hname]
  exact Metadata.rel_extra_of_ofMembers hmetadata hmetadataName

end Kept

/-- **The document of a template keeps what stands in it**: its parts come back part by part, and
all other members as they are. -/
theorem carries_read :
    Carries (read : ν → Except Fault Template) (fun t => (Document.ofTemplate t).toJson)
      (KeepsOpen Document.parts) := by
  intro v t h
  have hnodup := Document.nodup_members (foreign_of_read h)
  obtain ⟨ms, state, metadata, hms, hstate, hmetadata, rfl⟩ := exists_of_read h
  obtain ⟨ms, rfl⟩ := Field.exists_keyed_of_readMembers hstate
  set doc := Document.ofTemplate { state.record with metadata }
  rw [HasTree.tree_of_members hms]
  show KeepsOpen _ _ doc.toJson
  rw [Document.toJson_eq_members]
  refine .record hnodup (fun part hpart => ?_) fun key hkey => ?_
  · rcases List.mem_cons.mp hpart with rfl | hpart
    · -- the version of the format is written whatever stands in the template
      have hvalue : (Json.given doc.members).lookup Document.formatPart.name =
          some (.string Document.formatVersion) :=
        Json.lookup_given List.mem_cons_self hnodup
      rw [hvalue]
      exact ⟨fun _ _ => .given rfl, fun _ => .absent rfl⟩
    rcases List.mem_append.mp hpart with hpart | hpart
    · have hsub : metadata.own ⊆ doc.members := fun member hmember =>
        List.mem_append_left _ (List.mem_append_left _ (List.mem_cons_of_mem _ hmember))
      have hnames : (Metadata.parts.map (·.name)).Nodup := by decide
      have hname : part.name ∈ metadata.own.map (·.1) := List.mem_map_of_mem (f := (·.name)) hpart
      rw [Json.lookup_given_of_subset hsub hnames hnodup hname]
      exact keepsOf_metadata hstate hmetadata hpart
    · have hsub : own state.record ⊆ doc.members := List.subset_append_right _ _
      have hnames : (parts.map (·.name)).Nodup := by decide
      have hname : part.name ∈ (own state.record).map (·.1) :=
        List.mem_map_of_mem (f := (·.name)) hpart
      rw [Json.lookup_given_of_subset hsub hnames hnodup hname]
      exact keepsOf_of_read fields_forms fields_goBy (fun _ => rfl) hnames (by decide) hstate hpart
  · -- no field goes by the key, neither of the template nor of metadata
    obtain ⟨hformat, hkey⟩ := not_or.mp (mt List.mem_cons.mpr hkey)
    replace hkey : key ∉ Metadata.names ++ names := hkey
    have hbefore : key ∉ Document.formatKey :: Metadata.names := fun hmem =>
      (List.mem_cons.mp hmem).elim hformat fun hname => hkey (List.mem_append_left _ hname)
    have hafter : key ∉ names := fun hmem => hkey (List.mem_append_right _ hmem)
    have hextra : doc.metadata.extra.get? key = metadata.extra.get? key :=
      SortedMap.get?_erase.trans (if_neg hformat)
    have hmembers : doc.members =
        ((Document.formatKey, some (.string doc.swagger)) :: doc.metadata.own) ++
          present doc.metadata.extra.entries ++
            present (partMembers doc.paths doc.tags doc.definitions) := rfl
    rw [hmembers, Json.lookup_given_present hbefore hafter, hextra]
    exact rel_extra_metadata hstate hmetadata hkey

end Template

/-! ### Documents of a text -/

namespace Document

variable {text : String} {t : Template}

/-- **What a template seeds is not lost.** Of a text that is read as a template, the document's JSON
holds paths, definitions and the first tag of each name part by part at any depth, and so what is
said about the interface. All other members of the template and of `info` stand in it as well.
Nothing but defaults is added. -/
theorem keepsOpen_of_decode (h : Json.decode Template.read text = .ok t) :
    KeepsOpen parts (Json.Tree.ofText text).1 (ofTemplate t).toJson :=
  Template.carries_read _ t (Json.read_of_decode h)

/-- A template with members that have no field at the top, in `info` and at an operation, and with a
tag whose name stands further in front. -/
theorem keepsOpen_of_decode_pets :
    let text :=
      "\x7b\"x-limits\": [1], \"info\": \x7b\"license\": \"MIT\", \"title\": \"Pets\"\x7d, " ++
      "\"paths\": \x7b\"/a\": \x7b\"get\": \x7b\"summary\": \"A\", \"x\": true\x7d\x7d\x7d, " ++
      "\"tags\": [\x7b\"name\": \"a\"\x7d, \x7b\"name\": \"a\", \"description\": \"B\"\x7d]\x7d"
    let t : Template :=
      { metadata :=
          { info := { title := "Pets", extra := .ofList [("license", .string "MIT")] }
            extra := .ofList [("x-limits", .array [.int 1])] }
        paths := .ofList [("/a", .ofList [("get", { summary := some "A" })])]
        tags := [⟨"a", none⟩, ⟨"a", some "B"⟩] }
    Json.decode Template.read text = .ok t ∧
      KeepsOpen parts (Json.Tree.ofText text).1 (ofTemplate t).toJson := by
  intro text t
  have hdecode : Json.decode Template.read text = .ok t := by decide +kernel
  exact ⟨hdecode, keepsOpen_of_decode hdecode⟩

end Document

/-! ### What does not come back -/

/-- The value at a place in nested objects. -/
def Json.at? : Json → List String → Option Json
  | j, [] => some j
  | .object members, key :: path => (members.lookup key).bind (at? · path)
  | _, _ :: _ => none

/-- **Not every truth value of a path comes back**: operations have no field for `deprecated`. -/
theorem Document.not_keeps_every_flag :
    ¬∀ (text : String) (j : Json) (t : Template), Json.ofText text = .ok j →
      Json.decode Template.read text = .ok t → ∀ (path : List String) (b : Bool),
        j.at? ("paths" :: path) = some (.bool b) →
          (ofTemplate t).toJson.at? ("paths" :: path) = some (.bool b) := by
  intro h
  let operation : Json := .object [("deprecated", .bool true)]
  have hkept := h
    "\x7b\"paths\":\x7b\"/a\":\x7b\"get\":\x7b\"deprecated\":true\x7d\x7d\x7d\x7d"
    (.object [("paths", .object [("/a", .object [("get", operation)])])])
    { paths := .ofList [("/a", .ofList [("get", {})])] } (by decide +kernel) (by decide +kernel)
    ["/a", "get", "deprecated"] true (by decide +kernel)
  exact absurd hkept (by decide +kernel)

end ApiAnnotation
