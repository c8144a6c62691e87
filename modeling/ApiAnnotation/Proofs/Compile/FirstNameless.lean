import ApiAnnotation.Compile.Source
import ApiAnnotation.Proofs.Token.Tiling

/-!
# Where compiling a source stops

Blocks can be compiled without a source, and then a failure says no more than that there was one; or
they are those of a source, and then the failure points at a comment. Both ways take the blocks in
their order and stop at the first one that defines a schema without a name.
`ApiAnnotation.Block.IsNameless` says which these are without running anything, and
`ApiAnnotation.Block.StandsAt` says what it means to point at a comment.

## Main statements

* `ApiAnnotation.Block.fragment?_eq_none_iff`: a block fails exactly if it is nameless.
* `ApiAnnotation.Block.standsAt_of_mem_ofSource`: the blocks of a source stand where their spans
  say.
* `ApiAnnotation.compileSource_agrees`: the two ways succeed and fail together.
-/

namespace ApiAnnotation

universe u v w

/-! ### Going through a list until something fails -/

section FirstFailure

variable {ε : Type u} {α : Type v} {β : Type w}

/-- A walk that succeeds has succeeded at every item. -/
theorem mapM_eq_ok_iff {f : α → Except ε β} {l : List α} {bs : List β} :
    l.mapM f = .ok bs ↔ List.Forall₂ (fun a b => f a = .ok b) l bs := by
  induction l generalizing bs with
  | nil =>
    rw [List.mapM_nil, List.forall₂_nil_left_iff]
    exact ⟨fun h => (Except.ok.inj h).symm, fun h => h ▸ rfl⟩
  | cons a l ih =>
    rw [List.mapM_cons, List.forall₂_cons_left_iff]
    constructor
    · intro h
      rcases ha : f a with e | b
      · rw [ha] at h
        cases h
      rcases hl : l.mapM f with e | rest
      · rw [ha, hl] at h
        cases h
      rw [ha, hl] at h
      exact ⟨b, rest, rfl, ih.mp hl, (Except.ok.inj h).symm⟩
    · rintro ⟨b, rest, ha, hrest, rfl⟩
      rw [ha, ih.mpr hrest]
      rfl

/-- A walk that fails has failed at an item, and succeeded at all those before it. -/
theorem mapM_eq_error {f : α → Except ε β} {l : List α} {e : ε} (h : l.mapM f = .error e) :
    ∃ past a rest, l = past ++ a :: rest ∧ f a = .error e ∧ ∀ p ∈ past, ∃ b, f p = .ok b := by
  induction l with
  | nil => cases h
  | cons a l ih =>
    rw [List.mapM_cons] at h
    rcases ha : f a with e' | b
    · rw [ha] at h
      obtain rfl := Except.error.inj h
      exact ⟨[], a, l, rfl, ha, List.forall_mem_nil _⟩
    rcases hl : l.mapM f with e' | rest
    · rw [ha, hl] at h
      obtain rfl := Except.error.inj h
      obtain ⟨past, c, rest, rfl, hc, hpast⟩ := ih hl
      exact ⟨a :: past, c, rest, rfl, hc, List.forall_mem_cons.mpr ⟨⟨b, ha⟩, hpast⟩⟩
    · rw [ha, hl] at h
      cases h

/-- A walk fails at the first item that fails. -/
theorem mapM_append_eq_error {f : α → Except ε β} {past : List α} {a : α} {e : ε}
    (hpast : ∀ p ∈ past, ∃ b, f p = .ok b) (ha : f a = .error e) (rest : List α) :
    (past ++ a :: rest).mapM f = .error e := by
  induction past with
  | nil =>
    rw [List.nil_append, List.mapM_cons, ha]
    rfl
  | cons p past ih =>
    obtain ⟨⟨b, hb⟩, hpast⟩ := List.forall_mem_cons.mp hpast
    rw [List.cons_append, List.mapM_cons, hb, ih hpast]
    rfl

/-- Forgetting why a walk failed is forgetting it at every item. -/
theorem toOption_mapM (f : α → Except ε β) (l : List α) :
    (l.mapM f).toOption = l.mapM fun a => (f a).toOption := by
  induction l with
  | nil => rfl
  | cons a l ih =>
    rw [List.mapM_cons, List.mapM_cons, ← ih]
    cases f a with
    | error e => rfl
    | ok b => cases l.mapM f <;> rfl

end FirstFailure

/-! ### Blocks that fail -/

namespace Block

/-- **Whether a block defines a schema without a name**: its first directive is a `@typedef` that
names nothing. -/
def IsNameless (block : Block) : Prop :=
  ∃ d ∈ block.directives.head?, d.title = "typedef" ∧ d.name = ""

/-- A block without directives is not nameless. -/
theorem IsNameless.isSignificant {block : Block} (h : block.IsNameless) :
    block.isSignificant = true := by
  obtain ⟨d, hd, -⟩ := h
  obtain ⟨rest, hdirectives⟩ := List.head?_eq_some_iff.mp (Option.mem_def.mp hd)
  rw [Block.isSignificant, hdirectives]
  rfl

/-- A block that starts with a `@typedef` has a first directive of this title. -/
theorem isTypedef_iff (block : Block) :
    block.isTypedef = true ↔ ∃ d ∈ block.directives.head?, d.title = "typedef" := by
  rw [isTypedef, decide_eq_true_eq, Option.map_eq_some_iff]
  exact Iff.rfl

/-- **A block fails exactly if it is nameless.** -/
theorem fragment?_eq_none_iff (block : Block) : block.fragment? = none ↔ block.IsNameless := by
  rw [fragment?, IsNameless]
  by_cases htypedef : block.isTypedef = true
  · obtain ⟨d, hd, htitle⟩ := (isTypedef_iff block).mp htypedef
    obtain ⟨rest, hdirectives⟩ := List.head?_eq_some_iff.mp (Option.mem_def.mp hd)
    rw [if_pos htypedef, hdirectives, Typedef.ofDirectives?]
    by_cases hname : d.name = ""
    · rw [if_pos hname]
      exact iff_of_true rfl ⟨d, rfl, htitle, hname⟩
    · rw [if_neg hname]
      refine iff_of_false (Option.some_ne_none _) ?_
      rintro ⟨d', hd', -, hname'⟩
      obtain rfl := Option.some.inj hd'
      exact hname hname'
  · rw [if_neg htypedef]
    refine iff_of_false (Option.some_ne_none _) ?_
    rintro ⟨d, hd, htitle, -⟩
    exact htypedef ((isTypedef_iff block).mpr ⟨d, hd, htitle⟩)

/-- A block that is not nameless has a fragment. -/
theorem exists_fragment?_eq_some {block : Block} (h : ¬block.IsNameless) :
    ∃ f, block.fragment? = some f := by
  rw [← fragment?_eq_none_iff] at h
  exact Option.ne_none_iff_exists'.mp h

/-! ### Where blocks stand -/

/-- **A block stands at a span of a source**: the span covers a doc comment, from `/**` to `*/`, and
the block is what the text between these is read as. -/
def StandsAt (source : String) (span : Span) (block : Block) : Prop :=
  ∃ before body after : String, source = before ++ ("/**" ++ body ++ "*/") ++ after ∧
    span.offset = before.utf8ByteSize ∧ span.length = ("/**" ++ body ++ "*/").utf8ByteSize ∧
    block = { Block.ofComment body with span := some span }

/-- **The blocks of a source stand where their spans say.** -/
theorem standsAt_of_mem_ofSource {source : String} {block : Block} (h : block ∈ ofSource source) :
    ∃ span, block.span = some span ∧ block.StandsAt source span := by
  obtain ⟨t, ht, hblock⟩ := List.mem_filterMap.mp h
  rw [ofToken?] at hblock
  split at hblock
  · next body hkind =>
    obtain rfl := Option.some.inj hblock
    obtain ⟨before, text, after, hsource, hstart, hstop, hreads⟩ :=
      Token.exists_append_of_mem_scan ht
    rw [hkind] at hreads
    have htext : text = "/**" ++ body ++ "*/" := by
      rw [← String.toList_inj, hreads.1]
      simp
    subst htext
    have hlength : t.stop - t.start = ("/**" ++ body ++ "*/").utf8ByteSize := by
      rw [hstart, hstop, String.utf8ByteSize_append, Nat.add_sub_cancel_left]
    exact ⟨t.span, rfl, before, body, after, hsource, hstart, hlength, rfl⟩
  · cases hblock

end Block

/-! ### The two ways to compile -/

variable {file source : String}

/-- The place of a block plays no part in its fragment. -/
theorem Block.toOption_fragmentIn (file : String) (block : Block) :
    (block.fragmentIn file).toOption = block.fragment? := by
  rw [fragmentIn]
  rcases block.fragment? with _ | f
  · cases block.span <;> rfl
  · rfl

/-- **Compiling a source is compiling its blocks**, but for what is told about a failure. -/
theorem compile?_ofSource (file source : String) :
    compile? (Block.ofSource source) = (compileSource file source).toOption := by
  rw [compile?, compileSource, toOption_mapM]
  simp only [Block.toOption_fragmentIn]

/-- **The first nameless block of a source**: it stands at a span of the source, and every block
before it has a fragment. -/
def FirstNameless (source : String) (span : Span) : Prop :=
  ∃ past block rest, Block.ofSource source = past ++ block :: rest ∧ block.IsNameless ∧
    block.span = some span ∧ block.StandsAt source span ∧
    ∀ earlier ∈ past, ¬earlier.IsNameless ∧ ∃ f, earlier.fragment? = some f

/-- A source that fails does so at its first nameless block. -/
theorem compileSource_eq_error {e : CompileError} (h : compileSource file source = .error e) :
    ∃ span, e = .namelessAt file span ∧ FirstNameless source span := by
  obtain ⟨past, block, rest, hfilter, hfail, hpast⟩ := mapM_eq_error h
  obtain ⟨front, back, hsource, hfront, hback⟩ := List.filter_eq_append_iff.mp hfilter
  obtain ⟨skipped, rest', rfl, hskipped, -, -⟩ := List.filter_eq_cons_iff.mp hback
  have hsplit : Block.ofSource source = (front ++ skipped) ++ block :: rest' := by
    rw [hsource, List.append_assoc]
  have hmem : block ∈ Block.ofSource source := by
    rw [hsplit]
    exact List.mem_append_right _ List.mem_cons_self
  obtain ⟨span, hspan, hstands⟩ := Block.standsAt_of_mem_ofSource hmem
  have hnone : block.fragment? = none := by
    rw [← Block.toOption_fragmentIn file, hfail]
    rfl
  have hearlier : ∀ earlier ∈ front ++ skipped, ¬earlier.IsNameless := by
    intro earlier hearlier hnameless
    rcases List.mem_append.mp hearlier with hmem | hmem
    · -- a block that was compiled before
      have hpassed : earlier ∈ past := by
        rw [← hfront]
        exact List.mem_filter.mpr ⟨hmem, hnameless.isSignificant⟩
      obtain ⟨f, hf⟩ := hpast earlier hpassed
      have hsome := Block.toOption_fragmentIn file earlier
      rw [hf, (Block.fragment?_eq_none_iff earlier).mpr hnameless] at hsome
      cases hsome
    · -- a block that was passed over
      exact hskipped earlier hmem hnameless.isSignificant
  refine ⟨span, ?_, front ++ skipped, block, rest', hsplit,
    (Block.fragment?_eq_none_iff block).mp hnone, hspan, hstands,
    fun earlier hmem =>
      ⟨hearlier earlier hmem, Block.exists_fragment?_eq_some (hearlier earlier hmem)⟩⟩
  rw [Block.fragmentIn, hnone, hspan] at hfail
  exact (Except.error.inj hfail).symm

/-- **The two ways to compile a source agree.** If the source compiles, its blocks compile to the
same fragments, one for each block that has a directive, in their order. If it does not, its blocks
do not either, and the failure names the file and points at the first nameless block. -/
theorem compileSource_agrees (file source : String) :
    match compileSource file source with
    | .ok fs =>
      compile? (Block.ofSource source) = some fs ∧
        List.Forall₂ (fun block f => block.fragment? = some f)
          ((Block.ofSource source).filter (·.isSignificant)) fs
    | .error e =>
      compile? (Block.ofSource source) = none ∧
        ∃ span, e = .namelessAt file span ∧ FirstNameless source span := by
  have hcompile := compile?_ofSource file source
  rcases h : compileSource file source with e | fs
  · rw [h] at hcompile
    exact ⟨hcompile, compileSource_eq_error h⟩
  · rw [h] at hcompile
    refine ⟨hcompile, (mapM_eq_ok_iff.mp h).imp fun block f hf => ?_⟩
    rw [← Block.toOption_fragmentIn file, hf]
    rfl

example : compileSource "models.js" "/** @route GET /a */\n\n/**\n * @typedef\n */\n" =
    .error (.namelessAt "models.js" ⟨22, 19⟩) := by
  decide +kernel

end ApiAnnotation
