import ApiAnnotation.Proofs.Document.Merge
import Mathlib.Data.List.Perm.Basic

/-!
# Taking in fragments again and in another order

Of the operations and definitions a document keeps what came last, and of the tags what came first.
The two policies pull in opposite directions, and yet neither minds if all fragments come a second
time: what came last comes last again, and what came first is there already.

The order matters to each policy in its own way. Operations and definitions do not mind an exchange
of two fragments that have none of them in common, even if both have methods of one path. Tags
stand in the order in which their names came, so another order of fragments leaves only the names as
they were; what else the tags say may change with it, unless all tags of a name say the same.

## Main statements

* `ApiAnnotation.Tag.foldl_addTag`: what is left of the tags that come in.
* `ApiAnnotation.Document.SameContents.mergeAll_perm`: fragments that have nothing in common may be
  taken in in any order.
* `ApiAnnotation.Document.mergeAll_again_and_reordered`: both facts for whole documents.
-/

namespace ApiAnnotation

/-! ### Tags that come in -/

namespace Tag

variable {tags more : List Tag}

/-- **What is left of the tags that come in**: those of a name that is new, the first one of each
name. -/
theorem foldl_addTag (tags more : List Tag) :
    more.foldl addTag tags =
      tags ++ distinct (more.filter fun tag => !tags.any (·.name = tag.name)) := by
  induction more using List.reverseRecOn with
  | nil => exact (List.append_nil tags).symm
  | append_singleton more tag ih =>
    rw [List.foldl_append, ih, List.foldl_cons, List.foldl_nil, addTag, List.any_append,
      any_distinct, List.filter_append]
    by_cases hold : tags.any (·.name = tag.name)
    · rw [List.filter_cons_of_neg (by rw [hold]; exact Bool.false_ne_true), List.filter_nil,
        List.append_nil, hold, Bool.true_or, if_pos rfl]
    · have hnew : (tags.any fun earlier => earlier.name = tag.name) = false :=
        Bool.eq_false_iff.mpr hold
      rw [List.filter_cons_of_pos (by rw [hnew]; rfl), List.filter_nil, distinct_concat, hnew,
        Bool.false_or]
      split
      · rfl
      · exact List.append_assoc _ _ _

theorem mem_names_foldl_addTag {name : String} :
    name ∈ (more.foldl addTag tags).map (·.name) ↔
      name ∈ tags.map (·.name) ∨ name ∈ more.map (·.name) := by
  rw [foldl_addTag, List.map_append, List.mem_append, mem_names_distinct]
  constructor
  · rintro (hold | hnew)
    · exact Or.inl hold
    · obtain ⟨tag, htag, rfl⟩ := List.mem_map.mp hnew
      exact Or.inr (List.mem_map_of_mem (List.mem_filter.mp htag).1)
  · rintro (hold | hmore)
    · exact Or.inl hold
    · by_cases hold : name ∈ tags.map (·.name)
      · exact Or.inl hold
      · obtain ⟨tag, htag, rfl⟩ := List.mem_map.mp hmore
        refine Or.inr (List.mem_map_of_mem (List.mem_filter.mpr ⟨htag, ?_⟩))
        rw [Bool.not_eq_true', Bool.eq_false_iff]
        intro hany
        obtain ⟨earlier, hearlier, hname⟩ := List.any_eq_true.mp hany
        exact hold (List.mem_map.mpr ⟨earlier, hearlier, of_decide_eq_true hname⟩)

/-- Tags whose names are all there leave nothing. -/
theorem foldl_addTag_of_subset (h : ∀ tag ∈ more, tag.name ∈ tags.map (·.name)) :
    more.foldl addTag tags = tags := by
  have hnone : more.filter (fun tag => !tags.any (·.name = tag.name)) = [] := by
    refine List.filter_eq_nil_iff.mpr fun tag htag => ?_
    obtain ⟨earlier, hearlier, hname⟩ := List.mem_map.mp (h tag htag)
    have hany : (tags.any fun earlier => earlier.name = tag.name) = true :=
      List.any_eq_true.mpr ⟨earlier, hearlier, decide_eq_true hname⟩
    rw [hany]
    exact Bool.false_ne_true
  rw [foldl_addTag, hnone]
  exact List.append_nil tags

/-- **Tags say the same of the same name.** -/
def Agree (tags : List Tag) : Prop :=
  ∀ tag ∈ tags, ∀ other ∈ tags, tag.name = other.name → tag.description = other.description

theorem Agree.subset (h : Agree tags) (hmore : more ⊆ tags) : Agree more :=
  fun tag htag other hother => h tag (hmore htag) other (hmore hother)

/-- Where tags agree, none of them is lost. -/
theorem Agree.mem_distinct (h : Agree tags) {tag : Tag} : tag ∈ distinct tags ↔ tag ∈ tags := by
  have hmem : ∀ tag ∈ distinct tags, tag ∈ tags := by
    intro tag htag
    obtain ⟨past, rest, rfl, -⟩ := mem_of_mem_filterPast htag
    exact List.mem_append_right past List.mem_cons_self
  refine ⟨hmem tag, fun htag => ?_⟩
  -- a tag of the name is left, and it says the same
  obtain ⟨other, hother, hname⟩ := List.mem_map.mp
    (mem_names_distinct.mpr (List.mem_map_of_mem htag))
  have hdescription := h other (hmem other hother) tag htag hname
  obtain rfl : other = tag := by
    cases other
    cases tag
    congr
  exact hother

/-- Where tags agree, the same ones are left in any order. -/
theorem Agree.distinct_perm (h : Agree tags) (hperm : tags.Perm more) :
    (distinct tags).Perm (distinct more) := by
  have hmore : Agree more := h.subset hperm.symm.subset
  refine (List.perm_ext_iff_of_nodup ?_ ?_).mpr fun tag => ?_
  · exact (nodup_names_distinct tags).of_map _
  · exact (nodup_names_distinct more).of_map _
  · rw [h.mem_distinct, hmore.mem_distinct, hperm.mem_iff]

end Tag

/-! ### Operations and definitions -/

/-- **Fragments that have nothing in common** but perhaps paths and tags. -/
structure Fragment.Disjoint (f g : Fragment) : Prop where
  /-- No method of a path is in both. -/
  operation? : ∀ uri method, f.operation? uri method = none ∨ g.operation? uri method = none
  /-- No definition of a name is in both. -/
  definition : ∀ name, f.definitions.get? name = none ∨ g.definitions.get? name = none

theorem Fragment.Disjoint.symm {f g : Fragment} (h : f.Disjoint g) : g.Disjoint f where
  operation? uri method := (h.operation? uri method).symm
  definition name := (h.definition name).symm

/-- Of two values one of which is missing, either may come first. -/
theorem or_left_comm_of_eq_none {α : Type} {a b : Option α} (h : a = none ∨ b = none)
    (c : Option α) : a.or (b.or c) = b.or (a.or c) := by
  rcases h with rfl | rfl
  · rw [Option.none_or, Option.none_or]
  · rw [Option.none_or, Option.none_or]

namespace Document

variable {doc doc' doc'' : Document} {f g : Fragment} {fs gs : List Fragment}

/-- **Documents with the same operations and definitions**, under the same paths. -/
structure SameContents (doc doc' : Document) : Prop where
  /-- The operations are the same. -/
  paths : doc.paths = doc'.paths
  /-- The definitions are the same. -/
  definitions : doc.definitions = doc'.definitions

namespace SameContents

theorem trans (h : doc.SameContents doc') (h' : doc'.SameContents doc'') :
    doc.SameContents doc'' where
  paths := h.paths.trans h'.paths
  definitions := h.definitions.trans h'.definitions

/-- A fragment adds the same to the same. -/
theorem merge (h : doc.SameContents doc') (f : Fragment) :
    (doc.merge f).SameContents (doc'.merge f) where
  paths := by rw [Document.merge, Document.merge, h.paths]
  definitions := by rw [Document.merge, Document.merge, h.definitions]

/-- **Two fragments that have nothing in common** may be taken in either way round. -/
theorem merge_comm (h : doc.SameContents doc') (hdisjoint : f.Disjoint g) :
    ((doc.merge f).merge g).SameContents ((doc'.merge g).merge f) := by
  refine ((h.merge f).merge g).trans ⟨?_, ?_⟩
  · refine Paths.ext_operation? (fun uri => ?_) fun uri method => ?_
    · simp only [mem_keys_merge, or_right_comm]
    · rw [operation?_merge, operation?_merge, operation?_merge, operation?_merge]
      exact or_left_comm_of_eq_none (hdisjoint.symm.operation? uri method) _
  · refine SortedMap.ext_get? fun name => ?_
    show ((doc'.definitions.union f.definitions).union g.definitions).get? name =
      ((doc'.definitions.union g.definitions).union f.definitions).get? name
    rw [SortedMap.get?_union, SortedMap.get?_union, SortedMap.get?_union, SortedMap.get?_union]
    exact or_left_comm_of_eq_none (hdisjoint.symm.definition name) _

theorem mergeAll (h : doc.SameContents doc') (fs : List Fragment) :
    (doc.mergeAll fs).SameContents (doc'.mergeAll fs) := by
  induction fs generalizing doc doc' with
  | nil => exact h
  | cons f fs ih => exact ih (h.merge f)

/-- **Fragments that have nothing in common may be taken in in any order.** -/
theorem mergeAll_perm (hperm : fs.Perm gs) (hdisjoint : fs.Pairwise Fragment.Disjoint)
    (h : doc.SameContents doc') : (doc.mergeAll fs).SameContents (doc'.mergeAll gs) := by
  induction hperm generalizing doc doc' with
  | nil => exact h
  | cons f _ ih => exact ih hdisjoint.of_cons (h.merge f)
  | swap f g fs =>
    have hfg : g.Disjoint f := (List.pairwise_cons.mp hdisjoint).1 f List.mem_cons_self
    exact (h.merge_comm hfg).mergeAll fs
  | trans hperm _ ih ih' =>
    have hmiddle := (hperm.pairwise_iff Fragment.Disjoint.symm).mp hdisjoint
    exact (ih hdisjoint h).trans (ih' hmiddle ⟨rfl, rfl⟩)

/-- What is taken in twice was there after the first time. -/
theorem mergeAll_mergeAll (doc : Document) (fs : List Fragment) :
    ((doc.mergeAll fs).mergeAll fs).SameContents (doc.mergeAll fs) := by
  -- the contents are those of a document that starts from a template
  let t : Template := { paths := doc.paths, definitions := doc.definitions }
  have hseed : doc.SameContents (ofTemplate t) := ⟨rfl, rfl⟩
  have htwice : (doc.mergeAll fs).mergeAll fs = doc.mergeAll (fs ++ fs) :=
    (List.foldl_append).symm
  have honce := gathers_mergeAll t fs
  have hagain := gathers_mergeAll t (fs ++ fs)
  rw [htwice]
  refine ⟨?_, ?_⟩
  · rw [(hseed.mergeAll fs).paths, (hseed.mergeAll (fs ++ fs)).paths]
    refine Paths.ext_operation? (fun uri => ?_) fun uri method => ?_
    · rw [honce.uris, hagain.uris]
      simp only [List.mem_append, or_self]
    · rw [honce.operation?, hagain.operation?, List.reverse_append, List.findSome?_append,
        Option.or_self]
  · rw [(hseed.mergeAll fs).definitions, (hseed.mergeAll (fs ++ fs)).definitions]
    refine SortedMap.ext_get? fun name => ?_
    rw [honce.definition, hagain.definition, List.reverse_append, List.findSome?_append,
      Option.or_self]

end SameContents

/-! ### Whole documents -/

attribute [ext] Document

/-- The tags come in as those of one fragment would. -/
theorem tags_mergeAll (doc : Document) (fs : List Fragment) :
    (doc.mergeAll fs).tags = (fs.flatMap (·.tags)).foldl addTag doc.tags := by
  induction fs generalizing doc with
  | nil => rfl
  | cons f fs ih =>
    rw [List.flatMap_cons, List.foldl_append]
    exact ih (doc.merge f)

/-- What is said of the interface stays. -/
theorem metadata_mergeAll (doc : Document) (fs : List Fragment) :
    (doc.mergeAll fs).metadata = doc.metadata ∧ (doc.mergeAll fs).swagger = doc.swagger := by
  induction fs generalizing doc with
  | nil => exact ⟨rfl, rfl⟩
  | cons f fs ih => exact ih (doc.merge f)

/-- **Fragments may be taken in twice, and in another order.** A second time they change nothing. If
no two of them have an operation or a definition in common, another order leaves the operations, the
definitions and the names of the tags; if moreover tags of one name say the same, it leaves the
tags but for their order. -/
theorem mergeAll_again_and_reordered (doc : Document) (fs : List Fragment) :
    (doc.mergeAll fs).mergeAll fs = doc.mergeAll fs ∧
      ∀ gs, fs.Perm gs → fs.Pairwise Fragment.Disjoint →
        (doc.mergeAll gs).paths = (doc.mergeAll fs).paths ∧
        (doc.mergeAll gs).definitions = (doc.mergeAll fs).definitions ∧
        (doc.mergeAll gs).operationCount = (doc.mergeAll fs).operationCount ∧
        (∀ name, name ∈ (doc.mergeAll gs).tags.map (·.name) ↔
          name ∈ (doc.mergeAll fs).tags.map (·.name)) ∧
        (Tag.Agree (fs.flatMap (·.tags)) → (doc.mergeAll gs).tags.Perm (doc.mergeAll fs).tags) := by
  constructor
  · have hcontents := SameContents.mergeAll_mergeAll doc fs
    have htags : ((doc.mergeAll fs).mergeAll fs).tags = (doc.mergeAll fs).tags := by
      rw [tags_mergeAll]
      refine Tag.foldl_addTag_of_subset fun tag htag => ?_
      rw [tags_mergeAll, Tag.mem_names_foldl_addTag]
      exact Or.inr (List.mem_map_of_mem htag)
    obtain ⟨hmetadata, hswagger⟩ := metadata_mergeAll (doc.mergeAll fs) fs
    exact Document.ext hswagger hmetadata hcontents.paths htags hcontents.definitions
  · intro gs hperm hdisjoint
    have hcontents : (doc.mergeAll fs).SameContents (doc.mergeAll gs) :=
      .mergeAll_perm hperm hdisjoint ⟨rfl, rfl⟩
    have hmore : (fs.flatMap (·.tags)).Perm (gs.flatMap (·.tags)) := hperm.flatMap_right _
    refine ⟨hcontents.paths.symm, hcontents.definitions.symm, ?_, fun name => ?_, fun hagree => ?_⟩
    · rw [operationCount, operationCount, hcontents.paths]
    · rw [tags_mergeAll, tags_mergeAll, Tag.mem_names_foldl_addTag, Tag.mem_names_foldl_addTag,
        (hmore.map _).mem_iff]
    · -- what comes in is the same but for its order, and goes behind the same tags
      rw [tags_mergeAll, tags_mergeAll, Tag.foldl_addTag, Tag.foldl_addTag]
      refine List.Perm.append_left _ (Tag.Agree.distinct_perm ?_ (hmore.filter _)).symm
      exact hagree.subset (List.filter_subset_self _)

/-- Two fragments have methods of one path, and a tag in common that the document has not got. -/
theorem mergeAll_again_and_reordered_pets :
    let doc := ofTemplate { tags := [{ name := "seed" }] }
    let pets : Tag := { name := "pets", description := some "All pets" }
    let f : Fragment :=
      { paths := Paths.alter ∅ "/pets" "get" fun _ => { tags := ["pets"] }, tags := [pets] }
    let g : Fragment :=
      { paths := Paths.alter ∅ "/pets" "put" fun _ => { tags := ["cats"] }
        tags := [{ name := "cats" }, pets] }
    [f, g].Perm [g, f] ∧ [f, g].Pairwise Fragment.Disjoint ∧
      Tag.Agree ([f, g].flatMap (·.tags)) ∧
      (doc.mergeAll [f, g]).mergeAll [f, g] = doc.mergeAll [f, g] ∧
      (doc.mergeAll [g, f]).paths = (doc.mergeAll [f, g]).paths ∧
      (doc.mergeAll [g, f]).tags.Perm (doc.mergeAll [f, g]).tags ∧
      (doc.mergeAll [g, f]).tags ≠ (doc.mergeAll [f, g]).tags := by
  intro doc pets f g
  have hperm : [f, g].Perm [g, f] := .swap g f []
  have hfg : f.Disjoint g := by
    refine ⟨fun uri method => ?_, fun name => Or.inl rfl⟩
    by_cases hmethod : method = "get"
    · refine Or.inr (Paths.operation?_alter _ |>.trans (if_neg ?_))
      rintro ⟨-, rfl⟩
      exact absurd hmethod (by decide)
    · exact Or.inl (Paths.operation?_alter _ |>.trans (if_neg fun h => hmethod h.2))
  have hdisjoint : [f, g].Pairwise Fragment.Disjoint := by simpa using hfg
  have hagree : Tag.Agree ([f, g].flatMap (·.tags)) := by
    unfold Tag.Agree
    decide
  obtain ⟨hagain, hreordered⟩ := mergeAll_again_and_reordered doc [f, g]
  obtain ⟨hpaths, -, -, -, htags⟩ := hreordered [g, f] hperm hdisjoint
  exact ⟨hperm, hdisjoint, hagree, hagain, hpaths, htags hagree, by decide⟩

end Document

end ApiAnnotation
