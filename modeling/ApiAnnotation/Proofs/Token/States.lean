import ApiAnnotation.Proofs.Token.Concat

/-!
# The states of the scanner

Between two tokens the scanner is in a state that consists of the significant character before the
text that is left, and of this text. `ApiAnnotation.Token.Reached` says which states it passes
through in a source and remembers the tokens that were read on the way. Each of its steps cuts off
one token, so what holds in every state is shown by looking at one token.

The tokens of a source are those that are read in such a state, and the end of the source
(`ApiAnnotation.Token.mem_scan_iff`).
-/

namespace ApiAnnotation

/-- The token of a source that stands at an offset and has the kind and the characters given. -/
def Lexeme.placed (offset : Nat) (l : Lexeme) : Token :=
  ⟨l.kind, offset, offset + byteLength l.text⟩

/-- The text of tokens in a row. -/
def Lexeme.joined (ls : List Lexeme) : List Char := ls.flatMap (·.text)

namespace Token

/-- **The states that the scanner passes through** in a source: the tokens read so far, the
significant character before the text that is left, and this text. -/
inductive Reached (source : List Char) : List Lexeme → Option Char → List Char → Prop
  /-- At the start nothing has been read. -/
  | start : Reached source [] none source
  /-- While text is left, one more token is cut off. -/
  | token {past : List Lexeme} {before : Option Char} {c : Char} {cs : List Char} :
    Reached source past before (c :: cs) →
      Reached source (past ++ [Lexeme.first before c cs])
        ((Lexeme.first before c cs).significant before) (Lexeme.first before c cs).rest

variable {source : String} {past : List Lexeme} {before : Option Char} {rest : List Char}

open Lexeme (joined)

theorem joined_concat (ls : List Lexeme) (l : Lexeme) :
    joined (ls ++ [l]) = joined ls ++ l.text := by
  rw [joined, List.flatMap_append, List.flatMap_singleton]
  rfl

/-- Nothing of the source is lost on the way. -/
theorem Reached.joined_append {source : List Char} (h : Reached source past before rest) :
    joined past ++ rest = source := by
  induction h with
  | start => rfl
  | @token past before c cs _ ih =>
    rw [joined_concat, List.append_assoc, Lexeme.text_append_rest_first, ih]

/-- The tokens that are left to scan are the last ones of the source. -/
theorem Reached.scanFrom_suffix (h : Reached source.toList past before rest) :
    scanFrom before (byteLength (joined past)) rest <:+ scan source := by
  induction h with
  | start => exact List.suffix_refl _
  | @token past before c cs _ ih =>
    rw [scanFrom_cons] at ih
    rw [joined_concat, byteLength_append]
    exact (List.suffix_cons _ _).trans ih

/-- A token that is left to scan is read in a later state. -/
theorem exists_of_mem_scanFrom {t : Token} (before : Option Char) (offset : Nat)
    (rest : List Char) : ∀ past, Reached source.toList past before rest →
      byteLength (joined past) = offset → t ∈ scanFrom before offset rest →
      t = ⟨.endOfSource, source.utf8ByteSize, source.utf8ByteSize⟩ ∨
        ∃ past before c cs, Reached source.toList past before (c :: cs) ∧
          t = (Lexeme.first before c cs).placed (byteLength (joined past)) := by
  fun_induction scanFrom before offset rest with
  | case1 before offset =>
    intro past h hoffset ht
    obtain rfl := List.mem_singleton.mp ht
    have hsource := h.joined_append
    rw [List.append_nil] at hsource
    rw [← hoffset, hsource, byteLength_toList]
    exact Or.inl rfl
  | case2 before offset c cs lexeme stop ih =>
    intro past h hoffset ht
    rcases List.mem_cons.mp ht with rfl | ht
    · exact Or.inr ⟨past, before, c, cs, h, by rw [hoffset]; rfl⟩
    · refine ih _ h.token ?_ ht
      rw [joined_concat, byteLength_append, hoffset]

/-- **The tokens of a source** are those that are read in the states of the scanner, and its end. -/
theorem mem_scan_iff {t : Token} : t ∈ scan source ↔
    t = ⟨.endOfSource, source.utf8ByteSize, source.utf8ByteSize⟩ ∨
      ∃ past before c cs, Reached source.toList past before (c :: cs) ∧
        t = (Lexeme.first before c cs).placed (byteLength (joined past)) := by
  constructor
  · exact exists_of_mem_scanFrom none 0 source.toList [] Reached.start rfl
  · rintro (rfl | ⟨past, before, c, cs, h, rfl⟩)
    · exact List.mem_of_getLast? (tiling_scan source).last
    · refine h.scanFrom_suffix.subset ?_
      rw [scanFrom_cons]
      exact List.mem_cons_self

end Token

end ApiAnnotation
