import ApiAnnotation.Document
import ApiAnnotation.Proofs.FilterPast
import ApiAnnotation.Proofs.Paths

/-!
# What a document gathers

A document takes in fragments one after the other, with three policies side by side: of the
operations of one method of one path the last one counts, of the definitions of one name the last
one counts, and of the tags of one name the first one does. `ApiAnnotation.Document.Gathers` says
what that comes to without any order of steps, the template standing before all the fragments.

## Main statements

* `ApiAnnotation.Document.Gathers.merge`: taking in one more fragment keeps the description.
* `ApiAnnotation.Document.mergeAll_ofTemplate`: the document after any fragments.
-/

namespace ApiAnnotation

/-! ### The first tag of each name -/

/-- The tags without those whose name occurred earlier. -/
def Tag.distinct (tags : List Tag) : List Tag :=
  filterPast (fun past tag => !past.any (·.name = tag.name)) tags

namespace Tag

theorem distinct_concat (tags : List Tag) (tag : Tag) :
    distinct (tags ++ [tag]) =
      if tags.any (·.name = tag.name) then distinct tags else distinct tags ++ [tag] := by
  rw [distinct, filterPast_concat]
  by_cases h : tags.any (·.name = tag.name)
  · rw [if_pos h, h, Bool.not_true, if_neg Bool.false_ne_true, List.append_nil]
    rfl
  · rw [if_neg h, Bool.eq_false_iff.mpr h, Bool.not_false, if_pos rfl]
    rfl

/-- The first tag of a name is kept. -/
theorem find?_distinct (name : String) (tags : List Tag) :
    (distinct tags).find? (·.name = name) = tags.find? (·.name = name) := by
  induction tags using List.reverseRecOn with
  | nil => rfl
  | append_singleton tags tag ih =>
    rw [distinct_concat, List.find?_append]
    by_cases h : tags.any (·.name = tag.name)
    · rw [if_pos h, ih]
      by_cases hname : tag.name = name
      · -- an earlier tag of the name is found first
        subst hname
        obtain ⟨first, hfirst⟩ := Option.isSome_iff_exists.mp (List.find?_isSome.mpr
          (List.any_eq_true.mp h))
        rw [hfirst]
        rfl
      · rw [List.find?_cons_of_neg (by simpa using hname), List.find?_nil, Option.or_none]
    · rw [if_neg h, List.find?_append, ih]

theorem any_distinct (name : String) (tags : List Tag) :
    (distinct tags).any (·.name = name) = tags.any (·.name = name) := by
  have h := congrArg Option.isSome (find?_distinct name tags)
  rw [Bool.eq_iff_iff, List.find?_isSome, List.find?_isSome] at h
  rw [Bool.eq_iff_iff, List.any_eq_true, List.any_eq_true]
  exact h

/-- No name is lost. -/
theorem mem_names_distinct {name : String} {tags : List Tag} :
    name ∈ (distinct tags).map (·.name) ↔ name ∈ tags.map (·.name) := by
  have hany := Bool.eq_iff_iff.mp (any_distinct name tags)
  simpa [List.any_eq_true, List.mem_map] using hany

/-- No name is left twice. -/
theorem nodup_names_distinct (tags : List Tag) : ((distinct tags).map (·.name)).Nodup := by
  induction tags using List.reverseRecOn with
  | nil => exact List.nodup_nil
  | append_singleton tags tag ih =>
    rw [distinct_concat]
    by_cases h : tags.any (·.name = tag.name)
    · rw [if_pos h]
      exact ih
    · rw [if_neg h, List.map_append, List.nodup_append]
      refine ⟨ih, List.nodup_singleton _, fun name hname name' hname' heq => h ?_⟩
      rw [← any_distinct]
      obtain ⟨earlier, hmem, rfl⟩ := List.mem_map.mp hname
      rw [List.map_singleton, List.mem_singleton] at hname'
      exact List.any_eq_true.mpr ⟨earlier, hmem, decide_eq_true (heq.trans hname')⟩

/-- Tags with different names are distinct. -/
theorem distinct_of_nodup {tags : List Tag} (h : (tags.map (·.name)).Nodup) :
    distinct tags = tags := by
  induction tags using List.reverseRecOn with
  | nil => rfl
  | append_singleton tags tag ih =>
    rw [List.map_append, List.nodup_append] at h
    obtain ⟨htags, -, hdiffer⟩ := h
    have hnew : ¬(tags.any fun earlier => earlier.name = tag.name) = true := by
      intro hany
      obtain ⟨earlier, hmem, hname⟩ := List.any_eq_true.mp hany
      exact hdiffer earlier.name (List.mem_map_of_mem hmem) tag.name List.mem_cons_self
        (of_decide_eq_true hname)
    rw [distinct_concat, if_neg hnew, ih htags]

/-- Adding tags one by one drops those whose name occurred earlier. -/
theorem foldl_addTag_distinct (tags more : List Tag) :
    more.foldl addTag (distinct tags) = distinct (tags ++ more) := by
  induction more generalizing tags with
  | nil => rw [List.append_nil, List.foldl_nil]
  | cons tag more ih =>
    have hadd : addTag (distinct tags) tag = distinct (tags ++ [tag]) := by
      rw [addTag, any_distinct, distinct_concat]
    rw [List.foldl_cons, hadd, ih, List.append_assoc, List.singleton_append]

end Tag

namespace Document

variable {t : Template} {fs : List Fragment} {doc : Document} {f : Fragment}

/-! ### Taking in one fragment -/

/-- A path of the fragment is entered, its methods over those of the document. -/
theorem get?_paths_merge (doc : Document) (f : Fragment) (uri : String) :
    SortedMap.get? (doc.merge f).paths uri =
      ((SortedMap.get? f.paths uri).map fun methods =>
        ((SortedMap.get? doc.paths uri).getD ∅).union methods).or (SortedMap.get? doc.paths uri) :=
  SortedMap.get?_foldl_alter
    (fun (methods : SortedMap Operation) (before : Option (SortedMap Operation)) =>
      (before.getD ∅).union methods)
    f.paths.entries f.paths.sorted doc.paths uri

/-- **The operations of a fragment replace those of the document**, method by method. -/
theorem operation?_merge (doc : Document) (f : Fragment) (uri method : String) :
    (doc.merge f).paths.operation? uri method =
      (f.operation? uri method).or (doc.paths.operation? uri method) := by
  -- a path that the fragment does not have stays, any other is a union of methods
  rw [Fragment.operation?, Paths.operation?, Paths.operation?, Paths.operation?, get?_paths_merge]
  rcases SortedMap.get? f.paths uri with _ | methods
  · rfl
  · rw [Option.map_some, Option.some_or, Option.bind_some, Option.bind_some, SortedMap.get?_union]
    cases SortedMap.get? doc.paths uri <;> rfl

theorem mem_keys_merge (doc : Document) (f : Fragment) (uri : String) :
    uri ∈ SortedMap.keys (doc.merge f).paths ↔
      uri ∈ SortedMap.keys doc.paths ∨ uri ∈ SortedMap.keys f.paths := by
  rw [SortedMap.mem_keys, SortedMap.mem_keys, SortedMap.mem_keys, get?_paths_merge]
  rcases SortedMap.get? f.paths uri with _ | methods <;> simp

/-! ### Taking in any fragments -/

/-- **What a document gathers** from a template and the fragments taken in after it. -/
structure Gathers (t : Template) (fs : List Fragment) (doc : Document) : Prop where
  /-- An operation is that of the last fragment that has it, and else that of the template. -/
  operation? : ∀ uri method, doc.paths.operation? uri method =
    (fs.reverse.findSome? (·.operation? uri method)).or (t.paths.operation? uri method)
  /-- The paths are those of the template and of all the fragments. -/
  uris : ∀ uri, uri ∈ SortedMap.keys doc.paths ↔
    uri ∈ SortedMap.keys t.paths ∨ ∃ f ∈ fs, uri ∈ SortedMap.keys f.paths
  /-- A definition is that of the last fragment that has it, and else that of the template. -/
  definition : ∀ name, doc.definitions.get? name =
    (fs.reverse.findSome? (·.definitions.get? name)).or (t.definitions.get? name)
  /-- The tags are all those there were, without the ones whose name occurred earlier. -/
  tags : doc.tags = Tag.distinct (t.tags ++ fs.flatMap (·.tags))
  /-- The metadata is the template's, but for the version of the format. -/
  metadata : doc.metadata = { t.metadata with extra := t.metadata.extra.erase "swagger" }
  /-- The version of the format is fixed. -/
  swagger : doc.swagger = "2.0"

theorem gathers_ofTemplate (t : Template) : Gathers t [] (ofTemplate t) where
  operation? _ _ := rfl
  uris uri := by simp [ofTemplate]
  definition _ := rfl
  tags := by
    rw [List.flatMap_nil, List.append_nil]
    exact Tag.foldl_addTag_distinct [] t.tags
  metadata := rfl
  swagger := rfl

/-- **Taking in a fragment.** It stands behind those taken in before. -/
theorem Gathers.merge (h : Gathers t fs doc) (f : Fragment) :
    Gathers t (fs ++ [f]) (doc.merge f) where
  operation? uri method := by
    rw [operation?_merge, h.operation?, List.reverse_append, List.reverse_singleton,
      List.singleton_append, List.findSome?_cons]
    cases f.operation? uri method <;> rfl
  uris uri := by
    rw [mem_keys_merge, h.uris]
    simp only [List.mem_append, List.mem_singleton, or_and_right, exists_or, exists_eq_left,
      or_assoc]
  definition name := by
    refine (SortedMap.get?_union (m := doc.definitions)).trans ?_
    rw [h.definition, List.reverse_append, List.reverse_singleton, List.singleton_append,
      List.findSome?_cons]
    cases f.definitions.get? name <;> rfl
  tags := by
    have hfold : (doc.merge f).tags = f.tags.foldl addTag doc.tags := rfl
    rw [hfold, h.tags, Tag.foldl_addTag_distinct, List.flatMap_append, List.flatMap_singleton,
      List.append_assoc]
  metadata := h.metadata
  swagger := h.swagger

/-- A document gathers the fragments it takes in. -/
theorem gathers_mergeAll (t : Template) (fs : List Fragment) :
    Gathers t fs ((ofTemplate t).mergeAll fs) := by
  induction fs using List.reverseRecOn with
  | nil => exact gathers_ofTemplate t
  | append_singleton fs f ih =>
    rw [mergeAll, List.foldl_append]
    exact ih.merge f

/-- The slots of a document are those of the template and of the fragments. -/
theorem Gathers.slots (h : Gathers t fs doc) :
    doc.paths.slots.toFinset =
      ((t.paths :: fs.map (·.paths)).flatMap Paths.slots).toFinset := by
  ext ⟨uri, method⟩
  rw [List.mem_toFinset, List.mem_toFinset, Paths.mem_slots, h.operation?, Option.isSome_or,
    Bool.or_eq_true, List.findSome?_isSome_iff, List.flatMap_cons, List.mem_append, Paths.mem_slots,
    List.mem_flatMap, or_comm]
  refine or_congr Iff.rfl ⟨?_, ?_⟩
  · rintro ⟨f, hf, hop⟩
    exact ⟨f.paths, List.mem_map_of_mem (List.mem_reverse.mp hf), Paths.mem_slots.mpr hop⟩
  · rintro ⟨paths, hpaths, hslot⟩
    obtain ⟨f, hf, rfl⟩ := List.mem_map.mp hpaths
    exact ⟨f, List.mem_reverse.mpr hf, Paths.mem_slots.mp hslot⟩

/-- **The document after any fragments.** The names of its tags differ and each has the description
that came first; its operations are counted by the slots of the template and the fragments; and of
the template's further members the version of the format alone is missing. -/
theorem mergeAll_ofTemplate (t : Template) (fs : List Fragment) :
    let doc := (ofTemplate t).mergeAll fs
    doc.Gathers t fs ∧
      (doc.tags.map (·.name)).Nodup ∧
      (∀ name, doc.tags.find? (·.name = name) =
        (t.tags ++ fs.flatMap (·.tags)).find? (·.name = name)) ∧
      doc.operationCount = ((t.paths :: fs.map (·.paths)).flatMap Paths.slots).toFinset.card ∧
      ∀ key, doc.metadata.extra.get? key =
        if key = "swagger" then none else t.metadata.extra.get? key := by
  intro doc
  have h : doc.Gathers t fs := gathers_mergeAll t fs
  refine ⟨h, ?_, ?_, ?_, ?_⟩
  · rw [h.tags]
    exact Tag.nodup_names_distinct _
  · intro name
    rw [h.tags, Tag.find?_distinct]
  · rw [operationCount, Paths.operationCount_eq_card, h.slots]
  · intro key
    rw [h.metadata]
    exact SortedMap.get?_erase

end Document

end ApiAnnotation
