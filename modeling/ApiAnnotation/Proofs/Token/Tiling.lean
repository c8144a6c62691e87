import ApiAnnotation.Proofs.Text.Boundary
import ApiAnnotation.Proofs.Token.Reading
import Mathlib.Data.List.Chain

/-!
# The tokens tile the source

Nothing of a source is lost and nothing is read twice: each token starts where the one before it
ended, and what it says about its text is true of the characters that it covers.

The scanner is looked at only once, in `ApiAnnotation.Token.tiles_scanFrom`, which puts its result
into the relation `ApiAnnotation.Token.Tiles`. What holds of the tokens is then shown by induction
on that relation, which no longer knows how a token is found.

## Main statements

* `ApiAnnotation.Token.tiles_scanFrom`: the tokens of a text tile it.
* `ApiAnnotation.Token.tiling_scan`: what that comes to for the bytes of a source.
-/

namespace ApiAnnotation

namespace Token

/-- **Tokens that tile a text** which starts at an offset: each covers a piece of it that is not
empty and about which it is right, and the end of the source comes last. -/
inductive Tiles : Nat → List Char → List Token → Prop
  /-- At the end there is one token, which covers nothing. -/
  | done (offset : Nat) : Tiles offset [] [⟨.endOfSource, offset, offset⟩]
  /-- Before it, a token covers the piece in front. -/
  | token {offset : Nat} {kind : Kind} {text after : List Char} {tokens : List Token} :
    text ≠ [] → kind.Reads text after → Tiles (offset + byteLength text) after tokens →
      Tiles offset (text ++ after) (⟨kind, offset, offset + byteLength text⟩ :: tokens)

/-- **The tokens of a text tile it**, whatever stands before it. -/
theorem tiles_scanFrom (before : Option Char) (offset : Nat) (cs : List Char) :
    Tiles offset cs (scanFrom before offset cs) := by
  fun_induction scanFrom before offset cs with
  | case1 before offset => exact Tiles.done offset
  | case2 before offset c cs lexeme stop ih =>
    have hne : lexeme.text ≠ [] := by
      intro hnil
      have hhead := Lexeme.head?_text_first before c cs
      rw [show (Lexeme.first before c cs).text = [] from hnil] at hhead
      exact absurd hhead.symm (Option.some_ne_none c)
    rw [← Lexeme.text_append_rest_first before c cs]
    exact Tiles.token hne (Lexeme.reads_first before c cs) ih

namespace Tiles

variable {offset : Nat} {cs : List Char} {tokens : List Token}

theorem head?_start (h : Tiles offset cs tokens) : tokens.head?.map (·.start) = some offset := by
  cases h <;> rfl

theorem eq_of_nil (h : Tiles offset [] tokens) : tokens = [⟨.endOfSource, offset, offset⟩] := by
  generalize hcs : ([] : List Char) = cs at h
  cases h with
  | done => rfl
  | token htext => exact absurd (List.append_eq_nil_iff.mp hcs.symm).1 htext

/-- Each token starts where the one before it ended. -/
theorem isChain (h : Tiles offset cs tokens) :
    tokens.IsChain fun t next => next.start = t.stop := by
  induction h with
  | done offset => exact List.isChain_singleton _
  | token _ _ hrest ih =>
    refine List.isChain_cons.mpr ⟨fun next hnext => ?_, ih⟩
    have hstart := hrest.head?_start
    rw [Option.mem_def.mp hnext] at hstart
    exact Option.some.inj hstart

/-- The last token stands for the end of the source. -/
theorem getLast? (h : Tiles offset cs tokens) :
    tokens.getLast? = some ⟨.endOfSource, offset + byteLength cs, offset + byteLength cs⟩ := by
  induction h with
  | done offset => rfl
  | @token offset kind text after tokens _ _ _ ih =>
    rw [List.getLast?_cons, ih, byteLength_append, ← Nat.add_assoc]
    rfl

/-- No token but the last is empty or the end of the source. -/
theorem of_mem_dropLast (h : Tiles offset cs tokens) {t : Token} (ht : t ∈ tokens.dropLast) :
    t.start < t.stop ∧ t.kind ≠ .endOfSource := by
  induction h with
  | done offset => exact absurd ht List.not_mem_nil
  | @token offset kind text after tokens htext hreads hrest ih =>
    have hne : tokens ≠ [] := by
      rintro rfl
      exact absurd hrest.head?_start.symm (Option.some_ne_none _)
    rw [List.dropLast_cons_of_ne_nil hne] at ht
    rcases List.mem_cons.mp ht with rfl | ht
    · exact ⟨Nat.lt_add_of_pos_right (byteLength_pos htext), hreads.ne_endOfSource htext⟩
    · exact ih ht

/-- Every token covers a piece of the text and is right about it. -/
theorem exists_append (h : Tiles offset cs tokens) {t : Token} (ht : t ∈ tokens) :
    ∃ before text after, cs = before ++ text ++ after ∧ t.start = offset + byteLength before ∧
      t.stop = offset + byteLength (before ++ text) ∧ t.kind.Reads text after := by
  induction h with
  | done offset =>
    obtain rfl := List.mem_singleton.mp ht
    exact ⟨[], [], [], rfl, rfl, rfl, rfl, rfl⟩
  | @token offset kind text after tokens _ hreads _ ih =>
    rcases List.mem_cons.mp ht with rfl | ht
    · exact ⟨[], text, after, rfl, rfl, rfl, hreads⟩
    · obtain ⟨before, text', after', rfl, hstart, hstop, hreads'⟩ := ih ht
      refine ⟨text ++ before, text', after', by simp, ?_, ?_, hreads'⟩
      · rw [hstart, byteLength_append, Nat.add_assoc]
      · rw [hstop, List.append_assoc, byteLength_append text, Nat.add_assoc]

/-- After a comment that is not closed only the end of the source comes. -/
theorem eq_of_openComment (h : Tiles offset cs tokens) {past rest : List Token} {t : Token}
    (htokens : tokens = past ++ t :: rest) (ht : t.kind = .openComment) :
    rest = [⟨.endOfSource, offset + byteLength cs, offset + byteLength cs⟩] := by
  induction h generalizing past with
  | done offset =>
    -- the only token is the end
    have hmem : t ∈ [(⟨.endOfSource, offset, offset⟩ : Token)] := by simp [htokens]
    obtain rfl := List.mem_singleton.mp hmem
    exact absurd ht (by simp)
  | @token offset kind text after tokens _ hreads hrest ih =>
    rw [byteLength_append, ← Nat.add_assoc]
    cases past with
    | nil =>
      -- the comment took all that was left
      obtain ⟨rfl, rfl⟩ := List.cons.inj htokens
      obtain rfl := hreads.eq_nil_of_openComment ht
      exact hrest.eq_of_nil
    | cons first past => exact ih (List.cons.inj htokens).2

end Tiles

/-! ### The bytes of a source -/

/-- **Tokens that tile a source.** A piece of the source between two offsets is given by the texts
before and after it, so the offsets are those of whole characters. -/
structure Tiling (source : String) (tokens : List Token) : Prop where
  /-- The first token starts at the start. -/
  start : tokens.head?.map (·.start) = some 0
  /-- Each token starts where the one before it ended. -/
  adjacent : tokens.IsChain fun t next => next.start = t.stop
  /-- The last token stands for the end of the source and is empty. -/
  last : tokens.getLast? = some ⟨.endOfSource, source.utf8ByteSize, source.utf8ByteSize⟩
  /-- No other token is empty or stands for the end of the source. -/
  others : ∀ t ∈ tokens.dropLast, t.start < t.stop ∧ t.kind ≠ .endOfSource
  /-- Tokens start and stop between characters. -/
  boundaries : ∀ t ∈ tokens,
    String.Pos.Raw.IsValid source ⟨t.start⟩ ∧ String.Pos.Raw.IsValid source ⟨t.stop⟩
  /-- What a token says about the piece that it covers is true. -/
  pieces : ∀ t ∈ tokens, ∃ before text after : String, source = before ++ text ++ after ∧
    t.start = before.utf8ByteSize ∧ t.stop = (before ++ text).utf8ByteSize ∧
    t.kind.Reads text.toList after.toList ∧ (text = "/**/" → ∀ body, t.kind ≠ .docComment body)
  /-- A comment that is not closed comes just before the end of the source. -/
  openComment : ∀ past t rest, tokens = past ++ t :: rest → t.kind = .openComment →
    rest = [⟨.endOfSource, source.utf8ByteSize, source.utf8ByteSize⟩]

/-- A token covers a piece of the source as it does of its characters. -/
theorem exists_append_of_mem_scan {source : String} {t : Token} (ht : t ∈ scan source) :
    ∃ before text after : String, source = before ++ text ++ after ∧
      t.start = before.utf8ByteSize ∧ t.stop = (before ++ text).utf8ByteSize ∧
      t.kind.Reads text.toList after.toList := by
  obtain ⟨before, text, after, hsource, hstart, hstop, hreads⟩ :=
    (tiles_scanFrom none 0 source.toList).exists_append ht
  refine ⟨String.ofList before, String.ofList text, String.ofList after, ?_, ?_, ?_, ?_⟩
  · rw [← String.ofList_append, ← String.ofList_append, ← hsource, String.ofList_toList]
  · rw [hstart, utf8ByteSize_ofList, Nat.zero_add]
  · rw [hstop, ← String.ofList_append, utf8ByteSize_ofList, Nat.zero_add]
  · rwa [String.toList_ofList, String.toList_ofList]

/-- **The tokens of a source tile it.** -/
theorem tiling_scan (source : String) : Tiling source (scan source) := by
  have htiles : Tiles 0 source.toList (scan source) := tiles_scanFrom none 0 source.toList
  have hsize : 0 + byteLength source.toList = source.utf8ByteSize := by
    rw [Nat.zero_add, byteLength_toList]
  refine ⟨htiles.head?_start, htiles.isChain, ?_, fun t => htiles.of_mem_dropLast, ?_, ?_, ?_⟩
  · rw [htiles.getLast?, hsize]
  · intro t ht
    obtain ⟨before, text, after, hsource, hstart, hstop, -⟩ := exists_append_of_mem_scan ht
    refine ⟨String.Pos.Raw.isValid_iff_exists_append.mpr ⟨before, text ++ after, ?_, ?_⟩,
      String.Pos.Raw.isValid_iff_exists_append.mpr ⟨before ++ text, after, hsource, ?_⟩⟩
    · rw [hsource, String.append_assoc]
    · rw [hstart]
      rfl
    · rw [hstop]
      rfl
  · intro t ht
    obtain ⟨before, text, after, hsource, hstart, hstop, hreads⟩ := exists_append_of_mem_scan ht
    refine ⟨before, text, after, hsource, hstart, hstop, hreads, ?_⟩
    rintro rfl body hkind
    rw [hkind] at hreads
    exact hreads.ne_of_docComment (by decide)
  · intro past t rest htokens ht
    rw [htiles.eq_of_openComment htokens ht, hsize]

end Token

end ApiAnnotation
