import ApiAnnotation.Journal.Compile
import ApiAnnotation.Proofs.Compile.FirstNameless
import ApiAnnotation.Proofs.Draft.Invariant
import Mathlib.Data.List.TakeWhile

/-!
# What the journals of a compilation say

The journal of a block is written while its directives are taken, by a draft that knows at each of
them whether a route is open. Yet it can be read off the block (`ApiAnnotation.Block.notes`): the
details that stand before the first route are dropped, each of them with a note, and from then on
only routes are noted, so the two kinds of notes never mix. Of a block that defines a schema nothing
is noted but the definition, since none of its other directives is taken.

Blocks are compiled on their own or as those of a source, and the journals of the two differ. Both
pass over blocks without directives, and only the first notes it. So the journal of a source is the
one of its blocks, after a heading, exactly if every comment has a directive
(`ApiAnnotation.compileSourceJournal_eq_iff`).

## Main statements

* `ApiAnnotation.Draft.journal_of_current_eq_none`: what is noted of directives, the first route
  being still to come.
* `ApiAnnotation.compileJournal_eq`, `ApiAnnotation.compileSourceJournal_eq`: the two journals, also
  of blocks and sources that fail.
* `ApiAnnotation.compileSourceJournal_eq_iff`: where they agree.
-/

namespace ApiAnnotation

/-! ### What is noted of directives -/

namespace Directive

/-- What is noted of a route. -/
def routeNote (d : Directive) : Note :=
  let route := Route.ofText d.description
  ⟨.trace, "route " ++ route.method ++ " " ++ route.uri⟩

/-- What is noted of a detail that no route stands before. -/
def droppedNote (d : Directive) : Note :=
  ⟨.debug, "dropping @" ++ d.title ++ " " ++ ticked d.description ++
    ": it precedes the block's @route"⟩

/-- Whether a directive sets a detail of an operation. -/
def isDetail (d : Directive) : Bool :=
  ["operationId", "summary", "produces", "consumes"].contains d.title

/-- **What is noted of directives**: each detail before the first route is dropped, and each route is
opened. -/
def notes (ds : List Directive) : Journal :=
  ((ds.takeWhile (·.title ≠ "route")).filter isDetail).map droppedNote ++
    (ds.filter (·.title = "route")).map routeNote

variable {ds : List Directive} {d : Directive}

theorem isSome_ofTitle?_eq (d : Directive) : (Detail.ofTitle? d.title).isSome = d.isDetail := by
  rw [isDetail, Detail.ofTitle?]
  generalize d.title = title
  split
  · next h => rw [h]; rfl
  split
  · next h => rw [h]; rfl
  split
  · next h => rw [h]; rfl
  split
  · next h => rw [h]; rfl
  · simp_all

theorem notes_cons_route (h : d.title = "route") (ds : List Directive) :
    notes (d :: ds) = routeNote d :: (ds.filter (·.title = "route")).map routeNote := by
  simp [notes, h]

theorem notes_cons_of_ne (h : d.title ≠ "route") (ds : List Directive) :
    notes (d :: ds) = (if d.isDetail then [d.droppedNote] else []) ++ notes ds := by
  by_cases hdetail : d.isDetail = true
  · simp [notes, h, hdetail]
  · simp [notes, h, hdetail]

end Directive

namespace Draft

open Directive

variable {draft : Draft} {d : Directive}

theorem notes_of_route (draft : Draft) (h : d.title = "route") :
    draft.notes d = [d.routeNote] :=
  if_pos h

theorem notes_of_ne (draft : Draft) (h : d.title ≠ "route") :
    draft.notes d = if d.isDetail && draft.current.isNone then [d.droppedNote] else [] := by
  rw [notes, if_neg h, isSome_ofTitle?_eq]
  rfl

/-- **Once a route is open, only routes are noted.** -/
theorem journal_of_isSome_current (h : draft.current.isSome) (ds : List Directive) :
    draft.journal ds = (ds.filter (·.title = "route")).map routeNote := by
  induction ds generalizing draft with
  | nil => rfl
  | cons d ds ih =>
    rw [journal, ih (isSome_current_step h d)]
    by_cases hroute : d.title = "route"
    · simp [notes_of_route draft hroute, hroute]
    · have hopen : draft.current.isNone = false := by rw [← Option.not_isSome, h]; rfl
      simp [notes_of_ne draft hroute, hroute, hopen]

/-- **What is noted of directives** as long as no route is open. -/
theorem journal_of_current_eq_none (h : draft.current = none) (ds : List Directive) :
    draft.journal ds = Directive.notes ds := by
  induction ds generalizing draft with
  | nil => rfl
  | cons d ds ih =>
    have hstep := current_step draft d
    rw [journal]
    by_cases hroute : d.title = "route"
    · rw [if_pos hroute] at hstep
      have hopen : (draft.step d).current.isSome := by rw [hstep]; rfl
      rw [notes_of_route draft hroute, journal_of_isSome_current hopen, notes_cons_route hroute]
      rfl
    · rw [if_neg hroute, h] at hstep
      rw [ih hstep, notes_of_ne draft hroute, notes_cons_of_ne hroute, h]
      simp

end Draft

/-! ### What is noted of blocks -/

/-- What is noted of a block without directives. -/
def skippedNote : Note := ⟨.debug, "skipping annotation block without directives"⟩

/-- What is noted of a file before its blocks are compiled. -/
def countNote (file : String) (blocks : List Block) : Note :=
  ⟨.debug, file ++ ": " ++ toString blocks.length ++ " doc comment(s)"⟩

namespace Block

/-- **What is noted of a block** when it is compiled on its own. -/
def notes (block : Block) : Journal :=
  match block.directives with
  | [] => [skippedNote]
  | d :: ds =>
    if d.title = "typedef" then [⟨.trace, "typedef " ++ d.name⟩] else Directive.notes (d :: ds)

variable {block : Block}

/-- Nothing is noted of a block that fails. -/
theorem journal_eq_nil (h : block.fragment? = none) : block.journal = [] := by
  rw [fragment?] at h
  split at h
  · next htypedef => rw [journal, if_pos htypedef, Option.map_eq_none_iff.mp h]; rfl
  · cases h

/-- The journal of a block that has directives and does not fail. -/
theorem journal_eq_notes (hsignificant : block.isSignificant = true)
    (h : block.fragment?.isSome = true) : block.journal = block.notes := by
  rcases hdirectives : block.directives with _ | ⟨d, ds⟩
  · rw [isSignificant, hdirectives] at hsignificant
    cases hsignificant
  by_cases htitle : d.title = "typedef"
  · have htypedef : block.isTypedef = true := by simp [isTypedef, hdirectives, htitle]
    rw [fragment?, if_pos htypedef, Option.isSome_map, hdirectives, Typedef.ofDirectives?] at h
    rw [journal, if_pos htypedef, notes, hdirectives, Typedef.ofDirectives?]
    by_cases hname : d.name = ""
    · rw [if_pos hname] at h
      cases h
    · simp [hname, htitle]
  · have htypedef : ¬block.isTypedef = true := by simp [isTypedef, hdirectives, htitle]
    rw [journal, if_neg htypedef, Draft.journal_of_current_eq_none rfl, notes, hdirectives]
    exact (if_neg htitle).symm

end Block

/-! ### The two journals -/

/-- **The journal of blocks**: what is noted of each of them in turn, until one fails. -/
theorem compileJournal_eq (blocks : List Block) :
    compileJournal blocks = (blocks.takeWhile (·.fragment?.isSome)).flatMap Block.notes := by
  induction blocks with
  | nil => rfl
  | cons block blocks ih =>
    rw [compileJournal]
    by_cases hsignificant : block.isSignificant = true
    · rw [hsignificant, if_neg (by decide)]
      rcases hfragment : block.fragment? with _ | f
      · -- the block fails, and nothing is noted of it or of what comes after it
        rw [List.takeWhile_cons, hfragment]
        exact Block.journal_eq_nil hfragment
      · have hsome : block.fragment?.isSome = true := by rw [hfragment]; rfl
        rw [List.takeWhile_cons, if_pos hsome, List.flatMap_cons, ← ih,
          Block.journal_eq_notes hsignificant hsome]
        rfl
    · have hnil : block.directives = [] := by simpa [Block.isSignificant] using hsignificant
      have hsome : block.fragment?.isSome = true := by simp [Block.fragment?, Block.isTypedef, hnil]
      rw [if_pos (by simpa using hsignificant), List.takeWhile_cons, if_pos hsome,
        List.flatMap_cons, ← ih, Block.notes, hnil]
      rfl

/-- Blocks with directives have the same journal either way. -/
theorem Block.journalOfAll_eq {blocks : List Block}
    (h : ∀ block ∈ blocks, block.isSignificant = true) :
    journalOfAll blocks = compileJournal blocks := by
  induction blocks with
  | nil => rfl
  | cons block blocks ih =>
    obtain ⟨hblock, hblocks⟩ := List.forall_mem_cons.mp h
    rw [journalOfAll, compileJournal, ih hblocks, hblock]
    rfl

/-- **The journal of a source** is, after a heading, that of the blocks that have a directive. -/
theorem compileSourceJournal_eq (file source : String) :
    compileSourceJournal file source = Block.journalOfSource source ++
      countNote file (Block.ofSource source) ::
        compileJournal ((Block.ofSource source).filter (·.isSignificant)) := by
  rw [compileSourceJournal, Block.journalOfAll_eq fun block hblock => (List.mem_filter.mp hblock).2]
  rfl

/-! ### Sources that compile -/

/-- Every block of a source that compiles has a fragment. -/
theorem isSome_fragment?_of_compileSource {file source : String} {fs : List Fragment}
    (h : compileSource file source = .ok fs) :
    ∀ block ∈ Block.ofSource source, block.fragment?.isSome = true := by
  have hsome : ∀ block ∈ (Block.ofSource source).filter (·.isSignificant),
      block.fragment?.isSome = true := by
    refine ((List.forall₂_and_left _ _).mp
      ((mapM_eq_ok_iff.mp h).imp fun block f hf => ⟨?_, hf⟩)).1
    rw [← Block.toOption_fragmentIn file, hf]
    rfl
  intro block hblock
  by_cases hsignificant : block.isSignificant = true
  · exact hsome block (List.mem_filter.mpr ⟨hblock, hsignificant⟩)
  · obtain ⟨f, hf⟩ := Block.exists_fragment?_eq_some fun h => hsignificant h.isSignificant
    rw [hf]
    rfl

/-- A block without directives adds one note to what the others are noted by. -/
theorem length_flatMap_notes (blocks : List Block) :
    (blocks.flatMap Block.notes).length =
      ((blocks.filter (·.isSignificant)).flatMap Block.notes).length +
        blocks.countP (!·.isSignificant) := by
  induction blocks with
  | nil => rfl
  | cons block blocks ih =>
    rw [List.flatMap_cons, List.length_append, ih, List.filter_cons, List.countP_cons]
    by_cases hsignificant : block.isSignificant = true
    · rw [hsignificant, if_pos rfl, if_neg (by decide), List.flatMap_cons, List.length_append]
      omega
    · have hnil : block.directives = [] := by simpa [Block.isSignificant] using hsignificant
      have hnotes : block.notes = [skippedNote] := by rw [Block.notes, hnil]
      rw [if_neg hsignificant, if_pos (by simpa using hsignificant), hnotes, List.length_singleton]
      omega

/-- **The journals of a source that compiles and of its blocks.** Both say what is noted of the
blocks one after the other, but only the second says which have no directives. So they agree, but
for the heading, exactly if every comment has a directive. -/
theorem compileSourceJournal_eq_iff {file source : String} {fs : List Fragment}
    (h : compileSource file source = .ok fs) :
    let blocks := Block.ofSource source
    let heading := Block.journalOfSource source ++ [countNote file blocks]
    compileJournal blocks = blocks.flatMap Block.notes ∧
      compileSourceJournal file source =
        heading ++ (blocks.filter (·.isSignificant)).flatMap Block.notes ∧
      (compileSourceJournal file source = heading ++ compileJournal blocks ↔
        ∀ block ∈ blocks, block.isSignificant = true) := by
  intro blocks heading
  have hsome : ∀ block ∈ blocks, block.fragment?.isSome = true :=
    isSome_fragment?_of_compileSource h
  have hall : compileJournal blocks = blocks.flatMap Block.notes := by
    rw [compileJournal_eq, List.takeWhile_eq_self_iff.mpr hsome]
  have hsource : compileSourceJournal file source =
      heading ++ (blocks.filter (·.isSignificant)).flatMap Block.notes := by
    rw [compileSourceJournal_eq, compileJournal_eq, List.takeWhile_eq_self_iff.mpr fun block hblock =>
      hsome block (List.mem_filter.mp hblock).1, List.append_cons]
  refine ⟨hall, hsource, ?_⟩
  rw [hsource, hall, List.append_cancel_left_eq]
  constructor
  · intro heq
    have hcount := length_flatMap_notes blocks
    rw [← heq, Nat.left_eq_add, List.countP_eq_zero] at hcount
    simpa using hcount
  · intro hsignificant
    rw [List.filter_eq_self.mpr hsignificant]

/-- A detail before its route, a definition, and a comment that is not closed. -/
theorem compileSourceJournal_eq_iff_open :
    let source := "/** @summary a\n@route GET /pets\n@summary b */ /** @typedef Pet */ /* open"
    let notes : Journal := [
      ⟨.debug, "dropping @summary \x60a\x60: it precedes the block's @route"⟩,
      ⟨.trace, "route get /pets"⟩,
      ⟨.trace, "typedef Pet"⟩]
    ∃ fs, compileSource "a.js" source = .ok fs ∧ compileJournal (Block.ofSource source) = notes ∧
      compileSourceJournal "a.js" source =
        [⟨.warn, "unterminated comment at 3:35 ignored"⟩, ⟨.debug, "a.js: 2 doc comment(s)"⟩] ++
          notes := by
  intro source notes
  have hok : (compileSource "a.js" source).isOk = true := by decide +kernel
  rcases hcompile : compileSource "a.js" source with e | fs
  · rw [hcompile] at hok
    cases hok
  have hsignificant : ∀ block ∈ Block.ofSource source, block.isSignificant = true := by
    decide +kernel
  have hblocks : compileJournal (Block.ofSource source) = notes := by decide +kernel
  have hheading : Block.journalOfSource source ++ [countNote "a.js" (Block.ofSource source)] =
      [⟨.warn, "unterminated comment at 3:35 ignored"⟩, ⟨.debug, "a.js: 2 doc comment(s)"⟩] := by
    decide +kernel
  refine ⟨fs, rfl, hblocks, ?_⟩
  rw [(compileSourceJournal_eq_iff hcompile).2.2.mpr hsignificant, hheading, hblocks]

/-- **A comment without directives is passed over in silence** when its source is compiled, though
its block is not when it is compiled on its own. -/
theorem not_noted_of_source :
    let source := "/** The pets. */"
    let heading := Block.journalOfSource source ++ [countNote "a.js" (Block.ofSource source)]
    compileSource "a.js" source = .ok [] ∧
      compileJournal (Block.ofSource source) = [skippedNote] ∧
      compileSourceJournal "a.js" source = heading ∧
      compileSourceJournal "a.js" source ≠ heading ++ compileJournal (Block.ofSource source) := by
  decide +kernel

end ApiAnnotation
