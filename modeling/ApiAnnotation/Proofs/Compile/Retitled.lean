import ApiAnnotation.Proofs.Block.Retitled
import ApiAnnotation.Proofs.Compile.Returns
import ApiAnnotation.Proofs.Draft.Interleaving

/-!
# Sources with other titles

The comments of a source are read alike when directives in them are given other titles of the same
group, such as `arg` for `param`. What comes after does not know of the groups: parameters are read
off the directives titled `param`, properties off those titled `property`, and only responses have
two titles. So a retitled source need not compile to the same
(`ApiAnnotation.not_compileAlike_argument_and_prop`).

What can change is told by `ApiAnnotation.Fragment.SameFrame`: the parameters of operations, and
what a definition consists of. And it does not change if the same directives are read as before,
those titled `property` in a comment that defines a schema and those titled `param` in any other one
that opens a route (`ApiAnnotation.Block.marks`).

## Main statements

* `ApiAnnotation.Block.retitled_ofSource`: the blocks of a retitled source.
* `ApiAnnotation.Block.Retitled.fragment?_sameFrame`: what a retitled block is compiled to.
* `ApiAnnotation.Block.Retitled.fragment?_eq`: when that is the same.
* `ApiAnnotation.compileSource_of_retitledSource`: both, for a source.
-/

namespace ApiAnnotation

variable {ds ds' : List Directive} {d d' : Directive} {block block' : Block}
  {source source' : String}

/-! ### Sources -/

/-- **A source with other titles** in its doc comments: its tokens are the same but for these. -/
def RetitledSource (source source' : String) : Prop :=
  ∃ texts, List.Forall₂ (Lexeme.Rewritten RetitledBody) (Lexeme.ofText none source.toList) texts ∧
    source'.toList = texts.flatten

/-- A source that is one doc comment, with other titles in it. -/
theorem retitledSource_of_body {body body' : String} (hbody : IsDocBody body.toList)
    (h : RetitledBody body body') :
    RetitledSource ("/**" ++ body ++ "*/") ("/**" ++ body' ++ "*/") := by
  have hlexemes : Lexeme.ofText none ("/**" ++ body ++ "*/").toList =
      [⟨.docComment body, ['/', '*', '*'] ++ body.toList ++ ['*', '/'], []⟩] := by
    have htext : ("/**" ++ body ++ "*/").toList =
        '/' :: '*' :: '*' :: (body.toList ++ ['*', '/'] ++ []) := by
      simp
    rw [htext, Lexeme.ofText, Lexeme.first_docComment none hbody.1 hbody.2, String.ofList_toList,
      Lexeme.ofText]
  refine ⟨[['/', '*', '*'] ++ body'.toList ++ ['*', '/']], ?_, by simp⟩
  rw [hlexemes]
  exact .cons (.doc rfl h) .nil

theorem Block.retitled_refl (block : Block) : block.Retitled block :=
  ⟨rfl, List.forall₂_same.mpr fun _ _ => ⟨Or.inl rfl, rfl⟩⟩

/-- **The blocks of a retitled source** are retitled. -/
theorem Block.retitled_ofSource (h : RetitledSource source source') :
    List.Forall₂ Block.Retitled (ofSource source) (ofSource source') := by
  obtain ⟨texts, htexts, hsource'⟩ := h
  have hkinds := Lexeme.forall₂_kind_ofText (R := RetitledBody) RetitledBody.isDocBody none
    source.toList texts htexts
  have hkind : ∀ kind kind', Token.Kind.Rewritten RetitledBody kind kind' →
      Option.Rel Block.Retitled (ofKind? kind) (ofKind? kind') := by
    intro kind kind' h
    cases h with
    | same =>
      rcases ofKind? kind with _ | block
      · exact .none
      · exact .some (retitled_refl block)
    | doc hbody => exact .some (retitled_ofComment hbody)
  have hblocks : List.Forall₂ Block.Retitled ((ofSource source).map unplaced)
      ((ofSource source').map unplaced) := by
    rw [map_unplaced_ofSource, map_unplaced_ofSource, Token.scan, Token.scan,
      Token.map_kind_scanFrom, Token.map_kind_scanFrom, hsource', List.filterMap_append,
      List.filterMap_append]
    exact List.rel_append (List.rel_filterMap hkind hkinds) .nil
  rw [List.forall₂_map_left_iff, List.forall₂_map_right_iff] at hblocks
  exact hblocks.imp fun _ _ hblock => ⟨hblock.description, hblock.directives⟩

/-! ### What the readers take -/

/-- What is taken of related lists is the same if the same items are taken, and the same of each. -/
theorem filter_map_eq_of_forall₂ {α β : Type} {R : α → α → Prop} {p : α → Bool} {g : α → β}
    {l l' : List α} (h : List.Forall₂ R l l')
    (hR : ∀ a b, R a b → p a = p b ∧ (p a = true → g a = g b)) :
    (l.filter p).map g = (l'.filter p).map g := by
  induction h with
  | nil => rfl
  | @cons a b l l' hab _ ih =>
    obtain ⟨hp, hg⟩ := hR a b hab
    by_cases ha : p a = true
    · rw [List.filter_cons_of_pos ha, List.filter_cons_of_pos (hp ▸ ha), List.map_cons,
        List.map_cons, hg ha, ih]
    · rw [List.filter_cons_of_neg ha, List.filter_cons_of_neg (hp ▸ ha), ih]

/-- Lists that are related and are mapped to the same are related along with what they are mapped
to. -/
theorem forall₂_and_of_map_eq {α β : Type} {R : α → α → Prop} {g : α → β} {l l' : List α}
    (h : List.Forall₂ R l l') (hmap : l.map g = l'.map g) :
    List.Forall₂ (fun a b => R a b ∧ g a = g b) l l' := by
  have hg : List.Forall₂ (fun a b => g a = g b) l l' := by
    rw [← List.forall₂_map_left_iff (R := fun x b => x = g b), ← List.forall₂_map_right_iff,
      List.forall₂_eq_eq_eq]
    exact hmap
  exact h.mp (fun _ _ hR hg => ⟨hR, hg⟩) hg

namespace Directive

theorem Retitled.eq_of_title (h : d.Retitled d') (htitle : d.title = d'.title) : d = d' := by
  rw [h.eq, ← htitle]

/-- A title that has no alias is kept. -/
theorem Retitled.eq_or (h : d.Retitled d') : d = d' ∨ IsAlias d.title d'.title :=
  h.title.imp_left h.eq_of_title

/-- **Directives of titles without aliases are the same.** -/
theorem filter_eq_of_retitled (h : List.Forall₂ Retitled ds ds') {p : String → Bool}
    (hp : ∀ group ∈ aliasGroups, ∀ title ∈ group, p title = false) :
    ds.filter (fun d => p d.title) = ds'.filter (fun d => p d.title) := by
  have hmap := filter_map_eq_of_forall₂ (p := fun d => p d.title) (g := id) h fun d d' hd => by
    rcases hd.eq_or with rfl | ⟨group, hgroup, htitle, htitle'⟩
    · exact ⟨rfl, fun _ => rfl⟩
    · rw [hp group hgroup _ htitle, hp group hgroup _ htitle']
      exact ⟨rfl, fun hfalse => absurd hfalse Bool.false_ne_true⟩
  rwa [List.map_id, List.map_id] at hmap

/-- **Directives of one title are the same** if the same directives have it. -/
theorem filter_title_eq_of_retitled (h : List.Forall₂ Retitled ds ds') {title : String}
    (hmarks : ds.map (fun d => decide (d.title = title)) =
      ds'.map (fun d => decide (d.title = title))) :
    ds.filter (·.title = title) = ds'.filter (·.title = title) := by
  have hmap := filter_map_eq_of_forall₂ (p := fun d => decide (d.title = title)) (g := id)
    (forall₂_and_of_map_eq h hmarks) fun d d' hd => by
      refine ⟨hd.2, fun htitle => hd.1.eq_of_title ?_⟩
      have htitle' := hd.2 ▸ htitle
      exact (of_decide_eq_true htitle).trans (of_decide_eq_true htitle').symm
  rwa [List.map_id, List.map_id] at hmap

/-- The responses are read off both of their titles. -/
theorem responses_eq_of_retitled (h : List.Forall₂ Retitled ds ds') :
    Responses.ofDirectives ds = Responses.ofDirectives ds' := by
  have hgroups : ∀ group ∈ aliasGroups, ∀ title ∈ group, ∀ title' ∈ group,
      (title = "returns" || title = "return") = (title' = "returns" || title' = "return") := by
    decide
  rw [Responses.ofDirectives, Responses.ofDirectives]
  refine congrArg SortedMap.ofList (filter_map_eq_of_forall₂ h fun d d' hd => ⟨?_, fun _ => ?_⟩)
  · rcases hd.eq_or with rfl | ⟨group, hgroup, htitle, htitle'⟩
    · rfl
    · exact hgroups group hgroup _ htitle _ htitle'
  · rw [hd.eq]
    rfl

theorem tag_eq_of_retitled (h : List.Forall₂ Retitled ds ds') :
    Tag.ofDirectives ds = Tag.ofDirectives ds' := by
  have hgroup := filter_eq_of_retitled h (p := (· = "group")) (by decide)
  rw [Tag.ofDirectives, Tag.ofDirectives, ← List.head?_filter, ← List.head?_filter, hgroup]

/-- The routes and their details have no other titles. -/
theorem operational_eq_of_retitled (h : List.Forall₂ Retitled ds ds') :
    ds.filter (·.isOperational) = ds'.filter (·.isOperational) :=
  filter_eq_of_retitled h
    (p := ["route", "operationId", "summary", "produces", "consumes"].contains) (by decide)

theorem routes_eq_of_retitled (h : List.Forall₂ Retitled ds ds') : routes ds = routes ds' := by
  rw [← routes_filter, operational_eq_of_retitled h, routes_filter]

theorem lastText?_eq_of_retitled (h : List.Forall₂ Retitled ds ds') (detail : Detail)
    (route : Route) : lastText? detail route ds = lastText? detail route ds' := by
  rw [← lastText?_filter, operational_eq_of_retitled h, lastText?_filter]

end Directive

/-! ### Fragments but for the parameters -/

/-- The operation without its parameters. -/
def Operation.withoutParameters (op : Operation) : Operation := { op with parameters := [] }

theorem Operation.eq_of_withoutParameters {op op' : Operation}
    (h : op.withoutParameters = op'.withoutParameters)
    (hparameters : op.parameters = op'.parameters) : op = op' := by
  have hfill (op : Operation) : op = { op.withoutParameters with parameters := op.parameters } :=
    rfl
  rw [hfill op, h, hparameters, ← hfill op']

/-- **Fragments of the same frame**: but for the parameters of operations, and but for what the
definitions consist of, they are equal. -/
structure Fragment.SameFrame (f f' : Fragment) : Prop where
  /-- The operations are equal but for their parameters. -/
  paths : Paths.mapOperations Operation.withoutParameters f.paths =
    Paths.mapOperations Operation.withoutParameters f'.paths
  /-- The tags are equal. -/
  tags : f.tags = f'.tags
  /-- The same names are defined. -/
  definitions : SortedMap.keys f.definitions = SortedMap.keys f'.definitions

namespace Block

/-- **Which directives of a block are read under one of several titles only**: the properties if the
block defines a schema, and the parameters if it opens a route. -/
def marks (block : Block) : List Bool :=
  if block.isTypedef then block.directives.map (·.title = "property")
  else if Directive.routes block.directives = [] then []
  else block.directives.map (·.title = "param")

namespace Retitled

/-- Both blocks have no directive, or each has a first one. -/
theorem nil_or_cons (h : block.Retitled block') :
    (block.directives = [] ∧ block'.directives = []) ∨
      ∃ d rest d' rest', block.directives = d :: rest ∧ block'.directives = d' :: rest' ∧
        d.Retitled d' ∧ List.Forall₂ Directive.Retitled rest rest' := by
  have hdirectives := h.directives
  rcases hnil : block.directives with _ | ⟨d, rest⟩
  · rw [hnil] at hdirectives
    exact Or.inl ⟨rfl, List.forall₂_nil_left_iff.mp hdirectives⟩
  · rw [hnil, List.forall₂_cons_left_iff] at hdirectives
    obtain ⟨d', rest', hd, hrest, hcons⟩ := hdirectives
    exact Or.inr ⟨d, rest, d', rest', rfl, hcons, hd, hrest⟩

/-- A block that defines a schema goes on to do so. -/
theorem isTypedef_eq (h : block.Retitled block') : block.isTypedef = block'.isTypedef := by
  have hkept : ∀ group ∈ aliasGroups, ∀ title ∈ group, title ≠ "typedef" := by decide
  rw [isTypedef, isTypedef]
  obtain ⟨hnil, hnil'⟩ | ⟨d, rest, d', rest', hcons, hcons', hd, -⟩ := h.nil_or_cons
  · rw [hnil, hnil']
  · rw [hcons, hcons', List.head?_cons, List.head?_cons, Option.map_some, Option.map_some]
    rcases hd.eq_or with rfl | ⟨group, hgroup, htitle, htitle'⟩
    · rfl
    · simp [hkept group hgroup _ htitle, hkept group hgroup _ htitle']

/-- A block that has a directive goes on to have one. -/
theorem isSignificant_eq (h : block.Retitled block') :
    block.isSignificant = block'.isSignificant := by
  rw [isSignificant, isSignificant]
  obtain ⟨hnil, hnil'⟩ | ⟨d, rest, d', rest', hcons, hcons', -⟩ := h.nil_or_cons
  · rw [hnil, hnil']
  · rw [hcons, hcons']
    rfl

/-- But for the parameters the operation of a route is described alike. -/
theorem described_eq (h : block.Retitled block') (route : Route) :
    (Operation.described block block.directives route).withoutParameters =
      (Operation.described block' block'.directives route).withoutParameters := by
  simp only [Operation.described, Operation.withoutParameters, h.description,
    Directive.tag_eq_of_retitled h.directives, Directive.responses_eq_of_retitled h.directives,
    Directive.lastText?_eq_of_retitled h.directives]

/-- Blocks that define no schema describe fragments. -/
theorem exists_describes (h : block.Retitled block') (hoperations : block.isTypedef = false) :
    ∃ f f', block.fragment? = some f ∧ block'.fragment? = some f' ∧
      f.Describes block block.directives ∧ f'.Describes block' block'.directives := by
  obtain ⟨f, hf, hdescribes⟩ := Draft.exists_fragment?_describes hoperations
  obtain ⟨f', hf', hdescribes'⟩ :=
    Draft.exists_fragment?_describes (h.isTypedef_eq.symm.trans hoperations)
  exact ⟨f, f', hf, hf', hdescribes, hdescribes'⟩

/-- **What is described has the same frame.** -/
theorem sameFrame_of_describes (h : block.Retitled block') {f f' : Fragment}
    (hf : f.Describes block block.directives) (hf' : f'.Describes block' block'.directives) :
    f.SameFrame f' := by
  have hroutes := Directive.routes_eq_of_retitled h.directives
  refine ⟨Paths.ext_operation? (fun uri => ?_) fun uri method => ?_, ?_, ?_⟩
  · rw [Paths.mem_keys_mapOperations, Paths.mem_keys_mapOperations, hf.uris, hf'.uris, hroutes]
  · have hop := hf.operation? uri method
    have hop' := hf'.operation? uri method
    rw [Fragment.operation?] at hop hop'
    rw [Paths.operation?_mapOperations, Paths.operation?_mapOperations, hop, hop', hroutes]
    split
    · exact congrArg some (h.described_eq _)
    · rfl
  · rw [hf.tags, hf'.tags, hroutes, Directive.tag_eq_of_retitled h.directives]
  · rw [hf.definitions, hf'.definitions]

/-- **What a retitled block is compiled to** has the same frame. It fails if the block did. -/
theorem fragment?_sameFrame (h : block.Retitled block') :
    Option.Rel Fragment.SameFrame block.fragment? block'.fragment? := by
  by_cases htypedef : block.isTypedef = true
  · rw [fragment?, fragment?, if_pos htypedef, if_pos (h.isTypedef_eq ▸ htypedef)]
    obtain ⟨hnil, hnil'⟩ | ⟨d, rest, d', rest', hcons, hcons', hd, -⟩ := h.nil_or_cons
    · rw [hnil, hnil']
      exact .none
    · have hname : d.name = d'.name := by rw [hd.eq]
      rw [hcons, hcons', Typedef.ofDirectives?, Typedef.ofDirectives?, hname]
      split
      · exact .none
      · exact .some ⟨rfl, rfl, rfl⟩
  · obtain ⟨f, f', hf, hf', hdescribes, hdescribes'⟩ :=
      h.exists_describes (Bool.eq_false_of_not_eq_true htypedef)
    rw [hf, hf']
    exact .some (h.sameFrame_of_describes hdescribes hdescribes')

/-- **What a retitled block describes** is the same if the parameters are, or if there is no route
to give them to. -/
theorem describes (h : block.Retitled block') {f : Fragment}
    (hparameters : Directive.routes block.directives = [] ∨
      Directive.parameters block.directives = Directive.parameters block'.directives)
    (hf : f.Describes block block.directives) : f.Describes block' block'.directives := by
  have hroutes := Directive.routes_eq_of_retitled h.directives
  refine ⟨fun uri method => ?_, fun uri => ?_, ?_, hf.definitions⟩
  · rw [hf.operation?, ← hroutes]
    rcases hparameters with hnone | hparameters
    · rw [hnone, if_neg List.not_mem_nil, if_neg List.not_mem_nil]
    · rw [Operation.eq_of_withoutParameters (h.described_eq ⟨method, uri⟩) hparameters]
  · rw [hf.uris, hroutes]
  · rw [hf.tags, hroutes, Directive.tag_eq_of_retitled h.directives]

/-- **The same schema is defined** if the same directives are properties. -/
theorem sameDefinition (h : block.Retitled block') (htypedef : block.isTypedef = true)
    (hmarks : block.marks = block'.marks) : block.SameDefinition block' := by
  have htypedef' : block'.isTypedef = true := h.isTypedef_eq ▸ htypedef
  rw [marks, marks, if_pos htypedef, if_pos htypedef'] at hmarks
  obtain ⟨hnil, hnil'⟩ | ⟨d, rest, d', rest', hcons, hcons', hd, hrest⟩ := h.nil_or_cons
  · exact ⟨⟨htypedef, htypedef'⟩, by rw [hnil, hnil'], by rw [hnil, hnil']⟩
  · rw [hcons, hcons'] at hmarks
    have hname : d.name = d'.name := by rw [hd.eq]
    have hproperties := Directive.filter_title_eq_of_retitled hrest (List.cons.inj hmarks).2
    refine ⟨⟨htypedef, htypedef'⟩, ?_, ?_⟩
    · rw [hcons, hcons']
      exact congrArg some hname
    · rw [hcons, hcons']
      exact hproperties

/-- The same parameters are taken up if the same directives are parameters. -/
theorem parameters_eq (h : block.Retitled block') (hoperations : block.isTypedef = false)
    (hmarks : block.marks = block'.marks) (hroutes : Directive.routes block.directives ≠ []) :
    Directive.parameters block.directives = Directive.parameters block'.directives := by
  rw [marks, marks, ← h.isTypedef_eq, ← Directive.routes_eq_of_retitled h.directives, hoperations,
    if_neg Bool.false_ne_true, if_neg Bool.false_ne_true, if_neg hroutes, if_neg hroutes] at hmarks
  rw [Directive.parameters, Directive.parameters,
    Directive.filter_title_eq_of_retitled h.directives hmarks]

/-- **A retitled block is compiled to the same** if the same directives are read under one title. -/
theorem fragment?_eq (h : block.Retitled block') (hmarks : block.marks = block'.marks) :
    block.fragment? = block'.fragment? := by
  by_cases htypedef : block.isTypedef = true
  · exact (h.sameDefinition htypedef hmarks).fragment?_eq
  · have hoperations := Bool.eq_false_of_not_eq_true htypedef
    obtain ⟨f, f', hf, hf', hdescribes, hdescribes'⟩ := h.exists_describes hoperations
    have hparameters := or_iff_not_imp_left.mpr (h.parameters_eq hoperations hmarks)
    rw [hf, hf', (h.describes hparameters hdescribes).unique hdescribes']

end Retitled

end Block

/-! ### Compiling a retitled source -/

/-- **Two sources of a file compile to related fragments**, one for one, or both fail at a comment
that defines a schema without a name. -/
def CompileRelated (R : Fragment → Fragment → Prop) (file source source' : String) : Prop :=
  match compileSource file source, compileSource file source' with
  | .ok fs, .ok fs' => List.Forall₂ R fs fs'
  | .error e, .error e' => ∃ span span', e = .namelessAt file span ∧ e' = .namelessAt file span'
  | _, _ => False

variable {R : Fragment → Fragment → Prop} {file : String}

/-- As a source only ever fails in this way, it is enough to look at the fragments. -/
theorem compileRelated_iff : CompileRelated R file source source' ↔
    Option.Rel (List.Forall₂ R) (compileSource file source).toOption
      (compileSource file source').toOption := by
  rw [CompileRelated]
  rcases h : compileSource file source with e | fs <;>
    rcases h' : compileSource file source' with e' | fs'
  · obtain ⟨span, he, -⟩ := compileSource_eq_error h
    obtain ⟨span', he', -⟩ := compileSource_eq_error h'
    exact iff_of_true ⟨span, span', he, he'⟩ .none
  · exact iff_of_false id nofun
  · exact iff_of_false id nofun
  · exact (Option.rel_some_some (r := List.Forall₂ R) (a := fs) (b := fs')).symm

/-- Values that may be missing are related by equality if they are equal. -/
theorem rel_eq_iff {α : Type} {a a' : Option α} : Option.Rel (· = ·) a a' ↔ a = a' := by
  refine ⟨fun h => ?_, ?_⟩
  · cases h with
    | none => rfl
    | some h => exact congrArg some h
  · rintro rfl
    cases a with
    | none => exact .none
    | some a => exact .some rfl

/-- Sources that compile to equal fragments compile alike. -/
theorem CompileRelated.compileAlike (h : CompileRelated (· = ·) file source source') :
    CompileAlike file source source' := by
  rw [compileRelated_iff, List.forall₂_eq_eq_eq] at h
  exact compileAlike_iff.mpr (rel_eq_iff.mp h)

/-- Going through related lists gives related results, if it does so at every item. -/
theorem rel_mapM {α β : Type} {R : α → α → Prop} {S : β → β → Prop} {f : α → Option β}
    (hf : ∀ a a', R a a' → Option.Rel S (f a) (f a')) {l l' : List α} (h : List.Forall₂ R l l') :
    Option.Rel (List.Forall₂ S) (l.mapM f) (l'.mapM f) := by
  induction h with
  | nil => exact .some .nil
  | @cons a a' l l' ha _ ih =>
    have hitem := hf a a' ha
    rw [List.mapM_cons, List.mapM_cons]
    generalize f a = b, f a' = b' at hitem
    generalize l.mapM f = bs, l'.mapM f = bs' at ih
    cases hitem with
    | none => exact .none
    | some hb =>
      cases ih with
      | none => exact .none
      | some hbs => exact .some (.cons hb hbs)

/-- Sources of related blocks compile to related fragments, if these blocks do. -/
theorem compileRelated_of_forall₂ {B : Block → Block → Prop}
    (hblocks : List.Forall₂ B (Block.ofSource source) (Block.ofSource source'))
    (hsignificant : ∀ block block', B block block' → block.isSignificant = block'.isSignificant)
    (hfragment : ∀ block block', B block block' → Option.Rel R block.fragment? block'.fragment?)
    (file : String) : CompileRelated R file source source' := by
  rw [compileRelated_iff, ← compile?_ofSource, ← compile?_ofSource, compile?, compile?]
  refine rel_mapM hfragment (List.rel_filter ?_ hblocks)
  exact fun block block' hblock => iff_of_eq (congrArg (· = true) (hsignificant _ _ hblock))

/-- **What a retitled source compiles to.** It compiles to as many fragments as before, of the same
frames, or fails as before. It compiles alike if, comment by comment, the same directives are read
under one title. -/
theorem compileSource_of_retitledSource (h : RetitledSource source source') (file : String) :
    CompileRelated Fragment.SameFrame file source source' ∧
      ((Block.ofSource source).map Block.marks = (Block.ofSource source').map Block.marks →
        CompileAlike file source source') := by
  have hblocks := Block.retitled_ofSource h
  refine ⟨compileRelated_of_forall₂ hblocks (fun _ _ hblock => hblock.isSignificant_eq)
    (fun _ _ hblock => hblock.fragment?_sameFrame) file, fun hmarks => ?_⟩
  refine (compileRelated_of_forall₂ (forall₂_and_of_map_eq hblocks hmarks)
    (fun _ _ hblock => hblock.1.isSignificant_eq) (fun _ _ hblock => ?_) file).compileAlike
  exact rel_eq_iff.mpr (hblock.1.fragment?_eq hblock.2)

/-- A title ends at a space. -/
theorem not_isTitleChar_space {cs : List Char} :
    ∀ c ∈ (' ' :: cs).head?, isTitleChar c = false := by
  rintro _ ⟨⟩
  rfl

/-- Two responses and a parameter that is not taken up. -/
theorem compileSource_of_retitledSource_returns :
    let body := " @route GET /a\n * @param {string} q\n * @return 200\n * @arg b "
    let body' := " @route GET /a\n * @param {string} q\n * @returns 200\n * @argument b "
    let source := "/**" ++ body ++ "*/"
    let source' := "/**" ++ body' ++ "*/"
    RetitledSource source source' ∧
      (Block.ofSource source).map Block.marks = (Block.ofSource source').map Block.marks ∧
      CompileAlike "a.js" source source' := by
  intro body body' source source'
  have hlines : body.toList.splitOn '\n' =
      [" @route GET /a".toList, " * @param {string} q".toList,
        [' ', '*', ' '] ++ '@' :: ("return".toList ++ ' ' :: "200".toList),
        [' ', '*', ' '] ++ '@' :: ("arg".toList ++ ' ' :: "b ".toList)] := by
    decide +kernel
  have hlines' : body'.toList.splitOn '\n' =
      [" @route GET /a".toList, " * @param {string} q".toList,
        [' ', '*', ' '] ++ '@' :: ("returns".toList ++ ' ' :: "200".toList),
        [' ', '*', ' '] ++ '@' :: ("argument".toList ++ ' ' :: "b ".toList)] := by
    decide +kernel
  have hfront : IsTagFront [' ', '*', ' '] :=
    ⟨[' '], [' '], List.forall_mem_singleton.mpr rfl, List.forall_mem_singleton.mpr rfl, Or.inr rfl⟩
  have hbody : RetitledBody body body' := by
    rw [RetitledBody, hlines, hlines']
    refine .cons (.same _) (.cons (.same _) (.cons ?_ (.cons ?_ .nil)))
    · exact .tag hfront (by decide) not_isTitleChar_space
    · exact .tag hfront (by decide) not_isTitleChar_space
  have hsource : RetitledSource source source' := retitledSource_of_body (by decide +kernel) hbody
  have hmarks :
      (Block.ofSource source).map Block.marks = (Block.ofSource source').map Block.marks := by
    decide +kernel
  exact ⟨hsource, hmarks, (compileSource_of_retitledSource hsource "a.js").2 hmarks⟩

/-- **Other titles matter to some sources.** The first one has a parameter no more when it is called
an argument, and the schema of the second one no property. -/
theorem not_compileAlike_argument_and_prop :
    let param := " @route GET /a\n@param {string} x "
    let arg := " @route GET /a\n@arg {string} x "
    let property := " @typedef Pet\n@property {string} x "
    let prop := " @typedef Pet\n@prop {string} x "
    let source (body : String) : String := "/**" ++ body ++ "*/"
    (RetitledSource (source param) (source arg) ∧
        ¬CompileAlike "a.js" (source param) (source arg)) ∧
      RetitledSource (source property) (source prop) ∧
        ¬CompileAlike "a.js" (source property) (source prop) := by
  intro param arg property prop source
  have hfront : IsTagFront [] :=
    ⟨[], [], List.forall_mem_nil _, List.forall_mem_nil _, Or.inl rfl⟩
  have hparam : RetitledBody param arg := by
    have hlines : param.toList.splitOn '\n' =
        [" @route GET /a".toList, [] ++ '@' :: ("param".toList ++ ' ' :: "{string} x ".toList)] := by
      decide +kernel
    have hlines' : arg.toList.splitOn '\n' =
        [" @route GET /a".toList, [] ++ '@' :: ("arg".toList ++ ' ' :: "{string} x ".toList)] := by
      decide +kernel
    rw [RetitledBody, hlines, hlines']
    exact .cons (.same _) (.cons (.tag hfront (by decide) not_isTitleChar_space) .nil)
  have hproperty : RetitledBody property prop := by
    have hlines : property.toList.splitOn '\n' =
        [" @typedef Pet".toList, [] ++ '@' :: ("property".toList ++ ' ' :: "{string} x ".toList)] := by
      decide +kernel
    have hlines' : prop.toList.splitOn '\n' =
        [" @typedef Pet".toList, [] ++ '@' :: ("prop".toList ++ ' ' :: "{string} x ".toList)] := by
      decide +kernel
    rw [RetitledBody, hlines, hlines']
    exact .cons (.same _) (.cons (.tag hfront (by decide) not_isTitleChar_space) .nil)
  rw [compileAlike_iff, compileAlike_iff]
  exact ⟨⟨retitledSource_of_body (by decide +kernel) hparam, by decide +kernel⟩,
    retitledSource_of_body (by decide +kernel) hproperty, by decide +kernel⟩

end ApiAnnotation
