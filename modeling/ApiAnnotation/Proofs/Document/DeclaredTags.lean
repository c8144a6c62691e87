import ApiAnnotation.Proofs.Compile.Origin
import ApiAnnotation.Proofs.Document.Merge

/-!
# The tags of operations are declared

Operations name their tags, and what is said about a tag stands in a list of its own. The two are
filled by different rules: an operation is replaced by a later one of the same method and path,
while of the tags with one name the first one stays. So an operation that is replaced leaves its tag
behind, and one that comes in brings its tag along or finds one of the same name.

No name is lost in this way. Every fragment lists the tags of its own operations
(`ApiAnnotation.Block.tagsAmong_of_fragment?`), and taking in such a fragment keeps the invariant
`ApiAnnotation.Document.TagsDeclared`.

## Main statements

* `ApiAnnotation.Document.TagsDeclared.merge`: taking in a fragment keeps the tags declared.
* `ApiAnnotation.Document.count_tags_mergeAll`: each tag of an operation is declared exactly once.
-/

namespace ApiAnnotation

/-- **The tags of all operations are among the given ones**, as far as their names go. -/
def Paths.TagsAmong (paths : Paths) (tags : List Tag) : Prop :=
  ∀ uri method op, paths.operation? uri method = some op →
    ∀ name ∈ op.tags, name ∈ tags.map (·.name)

/-! ### Fragments -/

/-- The operations that directives describe all have the tag of the block. -/
theorem Fragment.Describes.tagsAmong {block : Block} {ds : List Directive} {f : Fragment}
    (h : f.Describes block ds) : f.paths.TagsAmong f.tags := by
  intro uri method op hop name hname
  have hdescribed := (h.operation? uri method).symm.trans hop
  by_cases hroute : ⟨method, uri⟩ ∈ Directive.routes ds
  · -- the tag stands in the fragment once for each route, and there is this one
    rw [if_pos hroute] at hdescribed
    obtain rfl := Option.some.inj hdescribed
    obtain rfl := List.mem_singleton.mp hname
    rw [h.tags, List.map_map]
    exact List.mem_map.mpr ⟨⟨method, uri⟩, hroute, rfl⟩
  · rw [if_neg hroute] at hdescribed
    exact absurd hdescribed.symm (Option.some_ne_none op)

/-- **A fragment lists the tags of its operations.** -/
theorem Block.tagsAmong_of_fragment? {block : Block} {f : Fragment}
    (h : block.fragment? = some f) : f.paths.TagsAmong f.tags := by
  rcases typedef_or_describes h with ⟨-, typedef, -, rfl⟩ | hdescribes
  · -- a definition comes without operations
    intro uri method op hop
    exact absurd (show none = some op from hop).symm (Option.some_ne_none op)
  · exact hdescribes.tagsAmong

namespace Document

/-- **The tags of all operations are declared** in a document, no name twice. -/
structure TagsDeclared (doc : Document) : Prop where
  /-- What an operation names is the name of a tag. -/
  among : doc.paths.TagsAmong doc.tags
  /-- The names of the tags differ. -/
  nodup : (doc.tags.map (·.name)).Nodup

variable {t : Template} {doc : Document} {f : Fragment} {fs : List Fragment}

/-- A template that declares the tags of its operations makes a document that does. -/
theorem tagsDeclared_ofTemplate (h : t.paths.TagsAmong t.tags) : (ofTemplate t).TagsDeclared := by
  have htags : (ofTemplate t).tags = Tag.distinct t.tags := Tag.foldl_addTag_distinct [] t.tags
  refine ⟨fun uri method op hop name hname => ?_, ?_⟩
  · rw [htags, Tag.mem_names_distinct]
    exact h uri method op hop name hname
  · rw [htags]
    exact Tag.nodup_names_distinct t.tags

/-- **Taking in a fragment keeps the tags declared**: the operations that stay have theirs in the
document, those that come in have theirs in the fragment. -/
theorem TagsDeclared.merge (h : doc.TagsDeclared) (hf : f.paths.TagsAmong f.tags) :
    (doc.merge f).TagsDeclared := by
  have htags : (doc.merge f).tags = Tag.distinct (doc.tags ++ f.tags) := by
    rw [← Tag.foldl_addTag_distinct, Tag.distinct_of_nodup h.nodup]
    rfl
  refine ⟨fun uri method op hop name hname => ?_, ?_⟩
  · rw [htags, Tag.mem_names_distinct, List.map_append, List.mem_append]
    rw [operation?_merge, Option.or_eq_some_iff] at hop
    -- an operation that comes in, or one that it did not replace
    rcases hop with hnew | ⟨-, hold⟩
    · exact Or.inr (hf uri method op hnew name hname)
    · exact Or.inl (h.among uri method op hold name hname)
  · rw [htags]
    exact Tag.nodup_names_distinct _

/-- Taking in any compiled fragments keeps the tags declared. -/
theorem TagsDeclared.mergeAll (h : doc.TagsDeclared) (hfs : ∀ f ∈ fs, f.Compiled) :
    (doc.mergeAll fs).TagsDeclared := by
  induction fs generalizing doc with
  | nil => exact h
  | cons f fs ih =>
    obtain ⟨hf, hfs⟩ := List.forall_mem_cons.mp hfs
    obtain ⟨block, hblock⟩ := hf.exists_block
    exact ih (h.merge (Block.tagsAmong_of_fragment? hblock)) hfs

/-- **Every tag of an operation is declared exactly once**, after each of the fragments that a
document takes in, if the template declares the tags of its own operations. -/
theorem count_tags_mergeAll (ht : t.paths.TagsAmong t.tags) (hfs : ∀ f ∈ fs, f.Compiled) :
    ∀ past, past <+: fs → ∀ uri method op,
      ((ofTemplate t).mergeAll past).paths.operation? uri method = some op → ∀ name ∈ op.tags,
        (((ofTemplate t).mergeAll past).tags.map (·.name)).count name = 1 := by
  intro past hpast uri method op hop name hname
  have hcompiled : ∀ f ∈ past, f.Compiled := fun f hf => hfs f (hpast.subset hf)
  have h := (tagsDeclared_ofTemplate ht).mergeAll hcompiled
  exact List.count_eq_one_of_mem h.nodup (h.among uri method op hop name hname)

/-- An operation of the template is replaced twice, and the two blocks describe their group
otherwise. -/
theorem count_tags_mergeAll_pets :
    let t : Template :=
      { paths := Paths.alter ∅ "/pets" "get" fun _ => { tags := ["seed"] }
        tags := [{ name := "seed" }, { name := "seed", description := some "Again" }] }
    let route : Directive := { title := "route", description := "GET /pets" }
    let blocks : List Block :=
      [{ directives := [route, { title := "group", description := "pets-All pets" }] },
        { directives := [{ title := "group", description := "pets-Cats only" }, route] }]
    t.paths.TagsAmong t.tags ∧ ∃ fs, compile? blocks = some fs ∧ (∀ f ∈ fs, f.Compiled) ∧
      ∀ past, past <+: fs → ∀ uri method op,
        ((ofTemplate t).mergeAll past).paths.operation? uri method = some op → ∀ name ∈ op.tags,
          (((ofTemplate t).mergeAll past).tags.map (·.name)).count name = 1 := by
  intro t route blocks
  have ht : t.paths.TagsAmong t.tags := by
    intro uri method op hop name hname
    rw [show t.paths = Paths.alter ∅ "/pets" "get" _ from rfl, Paths.operation?_alter] at hop
    split at hop
    · obtain rfl := Option.some.inj hop
      obtain rfl := List.mem_singleton.mp hname
      decide
    · exact absurd hop.symm (Option.some_ne_none op)
  obtain ⟨fs, hcompile⟩ : ∃ fs, compile? blocks = some fs :=
    Option.isSome_iff_exists.mp (by decide +kernel)
  have hfs : ∀ f ∈ fs, f.Compiled := fun f hf => .ofBlocks hcompile hf
  exact ⟨ht, fs, hcompile, hfs, count_tags_mergeAll ht hfs⟩

end Document

end ApiAnnotation
