import ApiAnnotation.Compile.Source
import ApiAnnotation.Proofs.Token.Concat

/-!
# Sources in a row

A source that ends afresh can be compiled on its own, before anything is known of the text that
follows it: compiling both in a row is compiling one after the other. Only the places of the second
one's comments are different, so this is also what a failure there tells about.

## Main statements

* `ApiAnnotation.Block.ofSource_append`: the blocks of two sources in a row.
* `ApiAnnotation.compileSource_append`: compiling two sources in a row, failures included.
* `ApiAnnotation.ofSource_append_and_compileSource_append`: both, where both sources compile.
-/

namespace ApiAnnotation

universe u v w

variable {source : String}

/-! ### The blocks of two sources -/

/-- The bytes of a text that stands further on in a longer one. -/
def Span.shift (distance : Nat) (span : Span) : Span where
  offset := distance + span.offset
  length := span.length

namespace Block

/-- The block of a comment that stands further on. -/
def shift (distance : Nat) (block : Block) : Block :=
  { block with span := block.span.map (Span.shift distance) }

theorem ofToken?_shift (distance : Nat) (t : Token) :
    ofToken? (t.shift distance) = (ofToken? t).map (shift distance) := by
  have hspan : (t.shift distance).span = t.span.shift distance := by
    rw [Token.span, Token.span, Span.shift]
    congr 1
    exact Nat.add_sub_add_left _ _ _
  rw [ofToken?, ofToken?, hspan, show (t.shift distance).kind = t.kind from rfl]
  cases t.kind <;> rfl

/-- The blocks of tokens that stand further on. -/
theorem filterMap_shift (distance : Nat) (tokens : List Token) :
    (tokens.map (Token.shift distance)).filterMap ofToken? =
      (tokens.filterMap ofToken?).map (shift distance) := by
  rw [List.filterMap_map, List.map_filterMap]
  exact List.filterMap_congr fun t _ => ofToken?_shift distance t

/-- White space holds no block. -/
theorem filterMap_withoutBlanks (tokens : List Token) :
    (Token.withoutBlanks tokens).filterMap ofToken? = tokens.filterMap ofToken? := by
  rw [Token.withoutBlanks, List.filterMap_filter]
  refine List.filterMap_congr fun t _ => ?_
  split
  · rfl
  · next hblanks =>
    have hkind : t.kind = .blanks := by simpa using hblanks
    rw [ofToken?, hkind]

/-- The end of the source holds no block. -/
theorem filterMap_dropLast_scan (source : String) :
    (Token.scan source).dropLast.filterMap ofToken? = ofSource source := by
  conv_rhs => rw [ofSource, Token.scan, Token.scanFrom_eq_dropLast_append, List.filterMap_append]
  exact (List.append_nil _).symm

/-- **The blocks of two sources in a row** are those of the first and those of the second, which
stand further on by the bytes of the first. -/
theorem ofSource_append (h : Token.EndsAfresh source) (more : String) :
    ofSource (source ++ more) =
      ofSource source ++ (ofSource more).map (shift source.utf8ByteSize) := by
  rw [ofSource, ← filterMap_withoutBlanks, Token.withoutBlanks_scan_append h,
    List.filterMap_append, filterMap_withoutBlanks, filterMap_withoutBlanks,
    filterMap_dropLast_scan, filterMap_shift]
  rfl

end Block

/-! ### Compiling two sources -/

/-- The failure that a source causes further on. -/
def CompileError.shift (distance : Nat) : CompileError → CompileError
  | nameless => nameless
  | namelessAt file span => namelessAt file (span.shift distance)

/-- A block further on has the same fragment or fails further on. -/
theorem Block.fragmentIn_shift (file : String) (distance : Nat) (block : Block) :
    (block.shift distance).fragmentIn file =
      (block.fragmentIn file).mapError (CompileError.shift distance) := by
  have hfragment : (block.shift distance).fragment? = block.fragment? := rfl
  have hspan : (block.shift distance).span = block.span.map (Span.shift distance) := rfl
  rw [Block.fragmentIn, Block.fragmentIn, hfragment, hspan]
  cases block.fragment? with
  | some fragment => rfl
  | none => cases block.span <;> rfl

/-- Telling failures otherwise is doing so at every item. -/
theorem mapM_mapError {ε : Type u} {ε' : Type u} {α : Type v} {β : Type w} (g : ε → ε')
    (f : α → Except ε β) (l : List α) :
    (l.mapM fun a => (f a).mapError g) = (l.mapM f).mapError g := by
  induction l with
  | nil => rfl
  | cons a l ih =>
    rw [List.mapM_cons, List.mapM_cons, ih]
    cases f a with
    | error e => rfl
    | ok b => cases l.mapM f <;> rfl

/-- **Compiling two sources in a row** is compiling one after the other, with the failures of the
second further on by the bytes of the first. -/
theorem compileSource_append (h : Token.EndsAfresh source) (file more : String) :
    compileSource file (source ++ more) = do
      let fs ← compileSource file source
      let gs ← (compileSource file more).mapError (CompileError.shift source.utf8ByteSize)
      return fs ++ gs := by
  have hsignificant : (fun block : Block => block.isSignificant) ∘
      Block.shift source.utf8ByteSize = (·.isSignificant) := rfl
  have hmoved : Block.fragmentIn file ∘ Block.shift source.utf8ByteSize =
      fun block => (block.fragmentIn file).mapError (CompileError.shift source.utf8ByteSize) :=
    funext fun block => Block.fragmentIn_shift file _ block
  rw [compileSource, Block.ofSource_append h, List.filter_append, List.mapM_append,
    List.filter_map, hsignificant, List.mapM_map, hmoved, mapM_mapError]
  rfl

/-- **Extraction is compositional**: the blocks of two sources in a row are those of each, moved for
the second, and if each compiles so do both in a row, to the fragments of each. -/
theorem ofSource_append_and_compileSource_append (h : Token.EndsAfresh source) (more : String) :
    Block.ofSource (source ++ more) =
        Block.ofSource source ++ (Block.ofSource more).map (Block.shift source.utf8ByteSize) ∧
      ∀ file fs gs, compileSource file source = .ok fs → compileSource file more = .ok gs →
        compileSource file (source ++ more) = .ok (fs ++ gs) := by
  refine ⟨Block.ofSource_append h more, fun file fs gs hfs hgs => ?_⟩
  rw [compileSource_append h, hfs, hgs]
  rfl

/-- The slash after the semicolon opens a pattern, as it does at the start of a source, and the
quote within it no string. -/
theorem ofSource_append_and_compileSource_append_pattern :
    let source := "const n = 1;\n/** @route GET /n\u00e9 */\n"
    let more := "/'/g;\n/** @route PUT /a */\n"
    Token.EndsAfresh source ∧
      Block.ofSource (source ++ more) =
        Block.ofSource source ++ (Block.ofSource more).map (Block.shift source.utf8ByteSize) ∧
      ∃ fs gs, compileSource "a.js" source = .ok fs ∧ compileSource "a.js" more = .ok gs ∧
        compileSource "a.js" (source ++ more) = .ok (fs ++ gs) := by
  intro source more
  have hafresh : Token.EndsAfresh source := by
    refine ⟨by decide +kernel, fun t ht => ?_⟩
    have hlast :
        ((Token.scan source).filter (·.isSignificant)).getLast? = some ⟨.code, 10, 12⟩ := by
      decide +kernel
    rw [hlast] at ht
    obtain rfl := Option.some.inj ht
    exact ⟨';', by decide, "const n = 1;", "\n/** @route GET /n\u00e9 */\n", by decide +kernel,
      by decide +kernel, by decide +kernel⟩
  obtain ⟨hblocks, hcompile⟩ := ofSource_append_and_compileSource_append hafresh more
  have hsource : (compileSource "a.js" source).isOk = true := by decide +kernel
  have hmore : (compileSource "a.js" more).isOk = true := by decide +kernel
  rcases hfs : compileSource "a.js" source with e | fs
  · rw [hfs] at hsource
    cases hsource
  rcases hgs : compileSource "a.js" more with e | gs
  · rw [hgs] at hmore
    cases hmore
  exact ⟨hafresh, hblocks, fs, gs, rfl, rfl, hcompile "a.js" fs gs hfs hgs⟩

end ApiAnnotation
