import ApiAnnotation.Proofs.Compile.FirstNameless
import ApiAnnotation.Proofs.Token.Returns

/-!
# Compiling a source whose lines end in a carriage return and a line feed

The same source may reach the compiler with line feeds alone or with a carriage return before each
of them. Its doc comments are cut into the same lines, so the blocks are the same if the tokens are,
but for the bytes at which they stand; and then so are the fragments.

For sources in general this is not so: the two places where the scanner takes a return for one more
character of a line (see `ApiAnnotation.Lexeme.LineEndsFree`) can each hide a doc comment or bring
one up (`ApiAnnotation.not_compileAlike_continued_and_broken`).

## Main statements

* `ApiAnnotation.Token.map_kind_scan_withReturns`: the tokens of a source with returns.
* `ApiAnnotation.Block.map_unplaced_ofSource_withReturns`: its blocks.
* `ApiAnnotation.compileAlike_of_map_unplaced`: sources of the same blocks compile alike.
* `ApiAnnotation.ofSource_and_compileAlike_withReturns`: what this comes to for a source with
  returns.
-/

namespace ApiAnnotation

open Text (stringWithReturns withReturns)

variable {source source' : String}

/-! ### The tokens of a source -/

namespace Token

/-- Scanning is cutting off one token after the other, and the end of the source. -/
theorem map_kind_scanFrom (before : Option Char) (offset : Nat) (cs : List Char) :
    (scanFrom before offset cs).map (·.kind) =
      (Lexeme.ofText before cs).map (·.kind) ++ [.endOfSource] := by
  fun_induction scanFrom before offset cs with
  | case1 before offset =>
    rw [Lexeme.ofText]
    rfl
  | case2 before offset c cs lexeme stop ih =>
    rw [List.map_cons, ih, Lexeme.ofText]
    rfl

/-- **The tokens of a source are the same with returns**, but for the returns in what they carry
along. -/
theorem map_kind_scan_withReturns
    (hfree : Lexeme.LineEndsFree (Lexeme.ofText none source.toList)) :
    (scan (stringWithReturns source)).map (·.kind) =
      ((scan source).map (·.kind)).map Kind.withReturns := by
  have htokens := Lexeme.map_kind_ofText_withReturns none source.toList none
    (withReturns source.toList) (Text.returned_withReturns _) hfree (Or.inl rfl)
  rw [scan, scan, map_kind_scanFrom, map_kind_scanFrom, stringWithReturns, String.toList_ofList,
    htokens, List.map_append, List.map_map]
  rfl

end Token

/-! ### The blocks of a source -/

namespace Block

/-- The block without the place at which it stands. -/
def unplaced (block : Block) : Block := { block with span := none }

/-- The block of a kind of token. -/
def ofKind? : Token.Kind → Option Block
  | .docComment body => some (ofComment body)
  | _ => none

/-- But for its place, a block depends on the kind of its token alone. -/
theorem map_unplaced_ofToken? (t : Token) : (ofToken? t).map unplaced = ofKind? t.kind := by
  rw [ofToken?]
  cases t.kind <;> rfl

theorem map_unplaced_ofSource (source : String) :
    (ofSource source).map unplaced = ((Token.scan source).map (·.kind)).filterMap ofKind? := by
  rw [ofSource, List.map_filterMap, List.filterMap_map]
  exact List.filterMap_congr fun t _ => map_unplaced_ofToken? t

/-- **A doc comment is read alike** with returns, if it has none of its own. -/
theorem ofComment_stringWithReturns {body : String} (h : '\r' ∉ body.toList) :
    ofComment (stringWithReturns body) = ofComment body := by
  have hlines : Text.lines (stringWithReturns body).toList = Text.lines body.toList := by
    rw [stringWithReturns, String.toList_ofList, Text.lines_withReturns h]
  rw [ofComment, ofComment, hlines]

/-- No return stands in a doc comment if none stands in its source. -/
theorem not_mem_of_docComment (hreturn : '\r' ∉ source.toList) {t : Token}
    (ht : t ∈ Token.scan source) {body : String} (hkind : t.kind = .docComment body) :
    '\r' ∉ body.toList := by
  obtain ⟨before, text, after, rfl, -, -, hreads⟩ := Token.exists_append_of_mem_scan ht
  rw [hkind] at hreads
  intro hmem
  refine hreturn ?_
  rw [String.toList_append, String.toList_append, hreads.1]
  simp [hmem]

/-- **The blocks of a source are the same with returns**, but for the places at which they
stand. -/
theorem map_unplaced_ofSource_withReturns (hreturn : '\r' ∉ source.toList)
    (hfree : Lexeme.LineEndsFree (Lexeme.ofText none source.toList)) :
    (ofSource (stringWithReturns source)).map unplaced = (ofSource source).map unplaced := by
  rw [map_unplaced_ofSource, map_unplaced_ofSource, Token.map_kind_scan_withReturns hfree,
    List.filterMap_map]
  refine List.filterMap_congr fun kind hkind => ?_
  obtain ⟨t, ht, rfl⟩ := List.mem_map.mp hkind
  rw [Function.comp_apply]
  cases h : t.kind with
  | docComment body =>
    exact congrArg some (ofComment_stringWithReturns (not_mem_of_docComment hreturn ht h))
  | _ => rfl

end Block

/-! ### Compiling a source -/

/-- **Two sources of a file compile alike**: to the same fragments, or both fail at a comment that
defines a schema without a name. -/
def CompileAlike (file source source' : String) : Prop :=
  match compileSource file source, compileSource file source' with
  | .ok fs, .ok fs' => fs = fs'
  | .error e, .error e' => ∃ span span', e = .namelessAt file span ∧ e' = .namelessAt file span'
  | _, _ => False

/-- As a source only ever fails in this way, it is enough to look at the fragments. -/
theorem compileAlike_iff {file : String} : CompileAlike file source source' ↔
    (compileSource file source).toOption = (compileSource file source').toOption := by
  rw [CompileAlike]
  rcases h : compileSource file source with e | fs <;>
    rcases h' : compileSource file source' with e' | fs'
  · obtain ⟨span, he, -⟩ := compileSource_eq_error h
    obtain ⟨span', he', -⟩ := compileSource_eq_error h'
    exact iff_of_true ⟨span, span', he, he'⟩ rfl
  · exact iff_of_false id (Option.some_ne_none fs').symm
  · exact iff_of_false id (Option.some_ne_none fs)
  · exact Option.some_inj.symm

/-- Where blocks stand plays no part in what they are compiled to. -/
theorem compile?_map_unplaced (blocks : List Block) :
    compile? (blocks.map Block.unplaced) = compile? blocks := by
  have hsignificant : (fun block : Block => block.isSignificant) ∘ Block.unplaced =
      (·.isSignificant) := rfl
  have hfragment : Block.fragment? ∘ Block.unplaced = Block.fragment? := rfl
  rw [compile?, compile?, List.filter_map, hsignificant, List.mapM_map, hfragment]

/-- **Sources of the same blocks compile alike.** -/
theorem compileAlike_of_map_unplaced (file : String)
    (h : (Block.ofSource source').map Block.unplaced = (Block.ofSource source).map Block.unplaced) :
    CompileAlike file source source' := by
  rw [compileAlike_iff, ← compile?_ofSource, ← compile?_ofSource, ← compile?_map_unplaced, ← h,
    compile?_map_unplaced]

/-- **Line ends do not matter** to a source whose tokens do not depend on them: with returns it has
the same blocks, but for the places at which they stand, and compiles alike. -/
theorem ofSource_and_compileAlike_withReturns (hreturn : '\r' ∉ source.toList)
    (hfree : Lexeme.LineEndsFree (Lexeme.ofText none source.toList)) (file : String) :
    (Block.ofSource (stringWithReturns source)).map Block.unplaced =
        (Block.ofSource source).map Block.unplaced ∧
      CompileAlike file source (stringWithReturns source) := by
  have hblocks := Block.map_unplaced_ofSource_withReturns hreturn hfree
  exact ⟨hblocks, compileAlike_of_map_unplaced file hblocks⟩

/-- The first string goes on over the end of a line in backticks, and where the second line breaks
off behind a comma no pattern comes next. -/
theorem ofSource_and_compileAlike_withReturns_template :
    let source := "/**\n * @route GET /a\n */\nf(\x60\n\x60, i++ / 2,\n'b') // c\n/** @typedef */"
    '\r' ∉ source.toList ∧ Lexeme.LineEndsFree (Lexeme.ofText none source.toList) ∧
      (Block.ofSource (stringWithReturns source)).map Block.unplaced =
        (Block.ofSource source).map Block.unplaced ∧
      CompileAlike "a.js" source (stringWithReturns source) := by
  intro source
  have hreturn : '\r' ∉ source.toList := by decide +kernel
  have hfree : Lexeme.LineEndsFree (Lexeme.ofText none source.toList) :=
    ⟨by decide +kernel, by decide +kernel⟩
  exact ⟨hreturn, hfree, ofSource_and_compileAlike_withReturns hreturn hfree "a.js"⟩

/-- **Line ends matter to some sources.** In the first one a backslash takes the line feed, and with
a return it does not, so that the string ends and the doc comment in it is found. In the second one
the line that looks like a pattern ends with a comma, and with a return it does not, so that the
pattern after it is taken for the start of a string, and the doc comment is lost in it. -/
theorem not_compileAlike_continued_and_broken :
    let continued := "'a\\\n/** @route GET /a */'"
    let broken := "f(i++ / 2,\n/'/) /** @route GET /a */"
    ('\r' ∉ continued.toList ∧ ¬CompileAlike "a.js" continued (stringWithReturns continued)) ∧
      '\r' ∉ broken.toList ∧ ¬CompileAlike "a.js" broken (stringWithReturns broken) := by
  intro continued broken
  rw [compileAlike_iff, compileAlike_iff]
  exact ⟨⟨by decide +kernel, by decide +kernel⟩, by decide +kernel, by decide +kernel⟩

end ApiAnnotation
