import ApiAnnotation.Proofs.Compile.Concat
import ApiAnnotation.Proofs.Token.Comments
import ApiAnnotation.Proofs.Token.Front

/-!
# Comments put in

After white space a block comment can be put into a source, and nothing else changes: the tokens
before it are as they were, and those after it stand further on. The white space ends where it did,
since the comment starts with none, and the comment has no effect on the tokens after it.

Behind other tokens this is not so: put in right behind a line comment, a comment becomes part of
it, and behind a slash that divides it becomes a line comment.

## Main statements

* `ApiAnnotation.Token.scan_insert`: the tokens of a source with a comment put in.
* `ApiAnnotation.Block.ofSource_insert`: its blocks.
* `ApiAnnotation.Token.transparent_of_blanks`: both, for plain comments and for doc comments.
-/

namespace ApiAnnotation

variable {u v : String} {past later : List Token} {t : Token}

namespace Token

/-- **The tokens of a source with a comment put in**, and those of the text before it. -/
theorem scan_insert (h : scan (u ++ v) = past ++ t :: later) (hkind : t.kind = .blanks)
    (hstop : t.stop = u.utf8ByteSize) :
    (scan u).dropLast = past ++ [t] ∧ ∀ comment kind, IsBlockComment comment kind →
      scan (u ++ comment ++ v) = past ++ t ::
        ⟨kind, u.utf8ByteSize, u.utf8ByteSize + comment.utf8ByteSize⟩ ::
          later.map (shift comment.utf8ByteSize) := by
  rw [scan, String.toList_append] at h
  obtain ⟨before, rfl, hother⟩ := exists_scanFrom_of_blanks h hkind
    (by rw [hstop, byteLength_toList, Nat.zero_add])
  rw [byteLength_toList, Nat.zero_add] at hother ⊢
  constructor
  · have hnil := hother [] (by simp)
    rw [List.append_nil, scanFrom] at hnil
    rw [scan, hnil, ← List.singleton_append, ← List.append_assoc, List.dropLast_concat]
  · intro comment kind hcomment
    rw [scan, String.toList_append, String.toList_append, List.append_assoc,
      hother _ (hcomment.isBlank_head _), hcomment.scanFrom_append, Nat.add_comm u.utf8ByteSize,
      scanFrom_add]

end Token

/-- **The blocks of a source with a comment put in**, and those of the source without. -/
theorem Block.ofSource_insert (h : Token.scan (u ++ v) = past ++ t :: later)
    (hkind : t.kind = .blanks) (hstop : t.stop = u.utf8ByteSize) :
    ofSource (u ++ v) = ofSource u ++ later.filterMap ofToken? ∧
      ∀ comment kind, Token.IsBlockComment comment kind →
        ofSource (u ++ comment ++ v) = ofSource u ++
          [⟨kind, u.utf8ByteSize, u.utf8ByteSize + comment.utf8ByteSize⟩].filterMap ofToken? ++
          (later.filterMap ofToken?).map (shift comment.utf8ByteSize) := by
  obtain ⟨hpast, hinsert⟩ := Token.scan_insert h hkind hstop
  have hfront : ofSource u = (past ++ [t]).filterMap ofToken? := by
    rw [← filterMap_dropLast_scan, hpast]
  constructor
  · rw [ofSource, h, hfront, ← List.filterMap_append, List.append_assoc, List.singleton_append]
  · intro comment kind hcomment
    rw [ofSource, hinsert comment kind hcomment, hfront, ← filterMap_shift,
      ← List.filterMap_append, ← List.filterMap_append]
    simp only [List.append_assoc, List.cons_append, List.nil_append]

namespace Token

/-- **Comments are transparent** between the texts `u` and `v`, where `past` are the tokens of the
one and `later` those that the other has behind it. -/
structure Transparent (u v : String) (past later : List Token) : Prop where
  /-- These are the tokens that the text before has on its own. -/
  scan_before : (scan u).dropLast = past
  /-- A plain comment put in is one more token, and those behind it stand further on. -/
  scan_plain (body : String) : ¬['*', '/'] <:+: body.toList → body.toList.head? ≠ some '*' →
    scan (u ++ ("/*" ++ body ++ "*/") ++ v) = past ++
      ⟨.comment (String.ofList (Text.trim body.toList)), u.utf8ByteSize,
          u.utf8ByteSize + (body.utf8ByteSize + 4)⟩ ::
        later.map (shift (body.utf8ByteSize + 4))
  /-- So is a doc comment. -/
  scan_doc (body : String) : ¬['*', '/'] <:+: body.toList → body.toList.head? ≠ some '/' →
    scan (u ++ ("/**" ++ body ++ "*/") ++ v) = past ++
      ⟨.docComment body, u.utf8ByteSize, u.utf8ByteSize + (body.utf8ByteSize + 5)⟩ ::
        later.map (shift (body.utf8ByteSize + 5))
  /-- With nothing put in, the blocks are those of the text before and those behind it. -/
  blocks : Block.ofSource (u ++ v) = Block.ofSource u ++ later.filterMap Block.ofToken?
  /-- A plain comment adds none to them. -/
  blocks_plain (body : String) : ¬['*', '/'] <:+: body.toList → body.toList.head? ≠ some '*' →
    Block.ofSource (u ++ ("/*" ++ body ++ "*/") ++ v) = Block.ofSource u ++
      (later.filterMap Block.ofToken?).map (Block.shift (body.utf8ByteSize + 4))
  /-- A doc comment adds its own. -/
  blocks_doc (body : String) : ¬['*', '/'] <:+: body.toList → body.toList.head? ≠ some '/' →
    Block.ofSource (u ++ ("/**" ++ body ++ "*/") ++ v) = Block.ofSource u ++
      { Block.ofComment body with span := some ⟨u.utf8ByteSize, body.utf8ByteSize + 5⟩ } ::
        (later.filterMap Block.ofToken?).map (Block.shift (body.utf8ByteSize + 5))

theorem utf8ByteSize_between (opening body closing : String) :
    (opening ++ body ++ closing).utf8ByteSize =
      body.utf8ByteSize + (opening.utf8ByteSize + closing.utf8ByteSize) := by
  rw [String.utf8ByteSize_append, String.utf8ByteSize_append]
  omega

/-- **Comments are transparent where white space ends**: what is put in there changes the places of
what follows, and nothing else. -/
theorem transparent_of_blanks (h : scan (u ++ v) = past ++ t :: later) (hkind : t.kind = .blanks)
    (hstop : t.stop = u.utf8ByteSize) : Transparent u v (past ++ [t]) later := by
  have hplain : ∀ body : String, ("/*" ++ body ++ "*/").utf8ByteSize = body.utf8ByteSize + 4 :=
    fun body => utf8ByteSize_between "/*" body "*/"
  have hdoc : ∀ body : String, ("/**" ++ body ++ "*/").utf8ByteSize = body.utf8ByteSize + 5 :=
    fun body => utf8ByteSize_between "/**" body "*/"
  obtain ⟨hbefore, hscan⟩ := scan_insert h hkind hstop
  obtain ⟨hblocks, hinsert⟩ := Block.ofSource_insert h hkind hstop
  refine ⟨hbefore, fun body hbody hstar => ?_, fun body hbody hslash => ?_, hblocks,
    fun body hbody hstar => ?_, fun body hbody hslash => ?_⟩
  · rw [hscan _ _ (.plain hbody hstar), hplain, List.append_assoc, List.singleton_append]
  · rw [hscan _ _ (.doc hbody hslash), hdoc, List.append_assoc, List.singleton_append]
  · rw [hinsert _ _ (.plain hbody hstar), hplain]
    exact congrArg (· ++ _) (List.append_nil _)
  · have hspan : (⟨.docComment body, u.utf8ByteSize, u.utf8ByteSize + (body.utf8ByteSize + 5)⟩ :
        Token).span = ⟨u.utf8ByteSize, body.utf8ByteSize + 5⟩ :=
      congrArg (Span.mk u.utf8ByteSize) (Nat.add_sub_cancel_left _ _)
    rw [hinsert _ _ (.doc hbody hslash), hdoc, List.append_assoc, ← hspan]
    rfl

/-- The slash opens a pattern, behind a comment of slashes and stars too. -/
theorem transparent_of_blanks_slash :
    let past : List Token := [⟨.code, 0, 1⟩, ⟨.blanks, 1, 2⟩, ⟨.code, 2, 3⟩]
    let later : List Token := [⟨.regexLiteral "b", 4, 7⟩, ⟨.endOfSource, 7, 7⟩]
    scan ("a = " ++ "/b/") = past ++ ⟨.blanks, 3, 4⟩ :: later ∧
      Transparent "a = " "/b/" (past ++ [⟨.blanks, 3, 4⟩]) later ∧
      scan ("a = " ++ ("/*" ++ "//**" ++ "*/") ++ "/b/") =
        [⟨.code, 0, 1⟩, ⟨.blanks, 1, 2⟩, ⟨.code, 2, 3⟩, ⟨.blanks, 3, 4⟩, ⟨.comment "//**", 4, 12⟩,
          ⟨.regexLiteral "b", 12, 15⟩, ⟨.endOfSource, 15, 15⟩] := by
  intro past later
  have hscan : scan ("a = " ++ "/b/") = past ++ ⟨.blanks, 3, 4⟩ :: later := by decide +kernel
  have htransparent := transparent_of_blanks hscan rfl (by decide)
  refine ⟨hscan, htransparent, (htransparent.scan_plain "//**" (by decide) (by decide)).trans ?_⟩
  decide +kernel

end Token

end ApiAnnotation
