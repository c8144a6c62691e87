import ApiAnnotation.Directive.MediaType
import ApiAnnotation.Proofs.Text.Trim
import Mathlib.Data.List.SplitBy

/-!
# Cutting a text at its runs of white space

A list of media types is cut at its runs of white space, however long they are and whatever they
consist of. What the pieces are is said by `ApiAnnotation.CutAtBlanks` without a reader: pieces
without white space and runs of nothing else follow one another, a run being as long as it can be.
So a piece can only be empty at an end of the text, and it is empty there if white space or nothing
is.

The runs of a text are told by the text alone (`ApiAnnotation.blankRuns`), so that they can be
counted without the pieces. The pieces can be read in one pass, a character at a time, with a flag
for white space that keeps a run from being taken for several (`ApiAnnotation.PieceReader`).

## Main statements

* `ApiAnnotation.cutAtBlanks_splitBlanks`, `ApiAnnotation.CutAtBlanks.splitBlanks_eq`: a text has
  one cut, which is the one that is read.
* `ApiAnnotation.CutAtBlanks.blankRuns_eq`: it is cut at all of its runs.
* `ApiAnnotation.PieceReader.entries_foldl_step`: what is read in one pass.
* `ApiAnnotation.mediaTypes_cut_and_read_and_woven`: the media types of a text.
-/

namespace ApiAnnotation

variable {c : Char} {cs piece run : List Char} {pieces runs : List (List Char)}

/-! ### Cuts -/

/-- **A text cut at its runs of white space**: the pieces between the runs, and the runs. -/
inductive CutAtBlanks : List Char → List (List Char) → List (List Char) → Prop
  /-- A text without white space is one piece. -/
  | piece {piece : List Char} : (∀ c ∈ piece, isBlank c = false) → CutAtBlanks piece [piece] []
  /-- A piece is followed by a run, and what comes after it does not go on with the run. -/
  | run {piece run cs : List Char} {pieces runs : List (List Char)} :
    (∀ c ∈ piece, isBlank c = false) → run ≠ [] → (∀ c ∈ run, isBlank c = true) →
    (∀ c ∈ cs.head?, isBlank c = false) → CutAtBlanks cs pieces runs →
      CutAtBlanks (piece ++ (run ++ cs)) (piece :: pieces) (run :: runs)

/-- What is read of a piece that a run follows. -/
theorem splitBlanks_append (hpiece : ∀ c ∈ piece, isBlank c = false) (hrun : run ≠ [])
    (hblank : ∀ c ∈ run, isBlank c = true) (hcs : ∀ c ∈ cs.head?, isBlank c = false) :
    splitBlanks (piece ++ (run ++ cs)) = piece :: splitBlanks cs := by
  obtain ⟨b, run, rfl⟩ := List.exists_cons_of_ne_nil hrun
  obtain ⟨hb, hblank⟩ := List.forall_mem_cons.mp hblank
  obtain ⟨htake, hdrop⟩ : (piece ++ (b :: run ++ cs)).takeWhile (!isBlank ·) = piece ∧
      (piece ++ (b :: run ++ cs)).dropWhile (!isBlank ·) = b :: run ++ cs :=
    takeWhile_dropWhile_append (by simpa using hpiece) (by simp [hb])
  rw [splitBlanks]
  split
  · next heq => rw [hdrop] at heq; cases heq
  · next b' rest heq =>
    rw [hdrop] at heq
    obtain rfl : run ++ cs = rest := (List.cons.inj heq).2
    rw [htake, (takeWhile_dropWhile_append hblank hcs).2]

/-- What is read of a text without white space. -/
theorem splitBlanks_of_forall (hpiece : ∀ c ∈ piece, isBlank c = false) :
    splitBlanks piece = [piece] := by
  have hall : ∀ c ∈ piece, (!isBlank c) = true := by simpa using hpiece
  rw [splitBlanks]
  split
  · rw [List.takeWhile_eq_self_iff.mpr hall]
  · next heq =>
    rw [List.dropWhile_eq_nil_iff.mpr hall] at heq
    cases heq

/-- **What is read of a text that is cut are the pieces.** -/
theorem CutAtBlanks.splitBlanks_eq (h : CutAtBlanks cs pieces runs) : splitBlanks cs = pieces := by
  induction h with
  | piece hpiece => exact splitBlanks_of_forall hpiece
  | run hpiece hrun hblank hcs _ ih => rw [splitBlanks_append hpiece hrun hblank hcs, ih]

/-- **Every text is cut** into what is read of it. -/
theorem cutAtBlanks_splitBlanks (cs : List Char) : ∃ runs, CutAtBlanks cs (splitBlanks cs) runs := by
  fun_induction splitBlanks cs with
  | case1 cs piece h =>
    have hall : ∀ c ∈ cs, (!isBlank c) = true := List.dropWhile_eq_nil_iff.mp h
    have hpiece : piece = cs := List.takeWhile_eq_self_iff.mpr hall
    rw [hpiece]
    exact ⟨[], .piece (by simpa using hall)⟩
  | case2 cs piece b rest h ih =>
    obtain ⟨runs, hcut⟩ := ih
    have hb : (!isBlank b) = false :=
      head?_dropWhile_eq_false (!isBlank ·) cs b (by rw [h]; rfl)
    have hcs : cs = piece ++ (b :: rest.takeWhile isBlank ++ rest.dropWhile isBlank) := by
      rw [List.cons_append, List.takeWhile_append_dropWhile, ← h, List.takeWhile_append_dropWhile]
    refine ⟨(b :: rest.takeWhile isBlank) :: runs, ?_⟩
    conv => arg 1; rw [hcs]
    refine .run ?_ (List.cons_ne_nil _ _) ?_ (head?_dropWhile_eq_false isBlank rest) hcut
    · simpa using List.all_eq_true.mp (List.all_takeWhile (p := (!isBlank ·)) (l := cs))
    · exact List.forall_mem_cons.mpr
        ⟨by simpa using hb, List.all_eq_true.mp List.all_takeWhile⟩

/-! ### What the pieces of a cut are like -/

namespace CutAtBlanks

/-- There is one piece more than there are runs. -/
theorem length_eq (h : CutAtBlanks cs pieces runs) : pieces.length = runs.length + 1 := by
  induction h with
  | piece => rfl
  | run _ _ _ _ _ ih => rw [List.length_cons, List.length_cons, ih]

theorem pieces_ne_nil (h : CutAtBlanks cs pieces runs) : pieces ≠ [] := by
  cases h with
  | piece => exact List.cons_ne_nil _ _
  | run => exact List.cons_ne_nil _ _

/-- No white space stands in a piece. -/
theorem not_blank (h : CutAtBlanks cs pieces runs) :
    ∀ piece ∈ pieces, ∀ c ∈ piece, isBlank c = false := by
  induction h with
  | piece hpiece => exact List.forall_mem_singleton.mpr hpiece
  | run hpiece _ _ _ _ ih => exact List.forall_mem_cons.mpr ⟨hpiece, ih⟩

/-- The first piece is empty if the text starts with white space or is empty. -/
theorem head_iff (h : CutAtBlanks cs pieces runs) :
    pieces.head? = some [] ↔ ∀ c ∈ cs.head?, isBlank c = true := by
  cases h with
  | piece hpiece =>
    cases cs with
    | nil => simp
    | cons c cs => simp [hpiece c List.mem_cons_self]
  | @run piece run cs pieces runs hpiece hrun hblank _ _ =>
    cases piece with
    | nil =>
      obtain ⟨b, run, rfl⟩ := List.exists_cons_of_ne_nil hrun
      simp [hblank b List.mem_cons_self]
    | cons c piece => simp [hpiece c List.mem_cons_self]

/-- The last piece is empty if the text ends with white space or is empty. -/
theorem last_iff (h : CutAtBlanks cs pieces runs) :
    pieces.getLast? = some [] ↔ ∀ c ∈ cs.getLast?, isBlank c = true := by
  induction h with
  | @piece piece hpiece =>
    rcases List.eq_nil_or_concat piece with rfl | ⟨front, c, rfl⟩
    · simp
    · have hc : isBlank c = false := hpiece c (by simp)
      simp [hc]
  | @run piece run cs pieces runs _ hrun hblank _ hcut ih =>
    rw [List.getLast?_cons_of_ne_nil hcut.pieces_ne_nil, ih]
    by_cases hcs : cs = []
    · -- the text ends with the run
      subst hcs
      have hlast : ∀ c ∈ run.getLast?, isBlank c = true := fun c hc =>
        hblank c (List.mem_of_getLast? hc)
      rw [List.append_nil, List.getLast?_append_of_ne_nil _ hrun]
      exact iff_of_true (by simp) hlast
    · rw [List.getLast?_append_of_ne_nil _ (List.append_ne_nil_of_right_ne_nil run hcs),
        List.getLast?_append_of_ne_nil _ hcs]

/-- If a text does not start with white space, only its last piece can be empty. -/
theorem ne_nil_of_mem_dropLast (h : CutAtBlanks cs pieces runs)
    (hcs : ∀ c ∈ cs.head?, isBlank c = false) : ∀ piece ∈ pieces.dropLast, piece ≠ [] := by
  induction h with
  | piece => exact List.forall_mem_nil _
  | @run piece run cs pieces runs hpiece hrun hblank hrest hcut ih =>
    rw [List.dropLast_cons_of_ne_nil hcut.pieces_ne_nil]
    refine List.forall_mem_cons.mpr ⟨?_, ih hrest⟩
    rintro rfl
    obtain ⟨b, run, rfl⟩ := List.exists_cons_of_ne_nil hrun
    have hb : isBlank b = false := hcs b rfl
    rw [hblank b List.mem_cons_self] at hb
    cases hb

/-- **No piece between two runs is empty.** -/
theorem ne_nil_of_mem_inner (h : CutAtBlanks cs pieces runs) :
    ∀ piece ∈ pieces.tail.dropLast, piece ≠ [] := by
  cases h with
  | piece => exact List.forall_mem_nil _
  | run _ _ _ hrest hcut => exact hcut.ne_nil_of_mem_dropLast hrest

end CutAtBlanks

/-! ### The runs of a text -/

/-- **The runs of white space of a text**, each of them as long as it can be. -/
def blankRuns (cs : List Char) : List (List Char) :=
  (cs.splitBy fun a b => isBlank a == isBlank b).filter (·.any isBlank)

theorem blankRuns_append {cs ds : List Char}
    (h : ∀ a ∈ cs.getLast?, ∀ b ∈ ds.head?, (isBlank a == isBlank b) = false) :
    blankRuns (cs ++ ds) = blankRuns cs ++ blankRuns ds := by
  rw [blankRuns, List.splitBy_append h, List.filter_append, blankRuns, blankRuns]

/-- A text without white space has no runs. -/
theorem blankRuns_of_forall (hpiece : ∀ c ∈ piece, isBlank c = false) : blankRuns piece = [] := by
  refine List.filter_eq_nil_iff.mpr fun group hgroup => ?_
  rw [List.any_eq_true]
  rintro ⟨c, hc, hblank⟩
  have hmem : c ∈ piece := by
    rw [← List.flatten_splitBy (fun a b => isBlank a == isBlank b) piece]
    exact List.mem_flatten.mpr ⟨group, hgroup, hc⟩
  rw [hpiece c hmem] at hblank
  cases hblank

/-- A text of nothing but white space is one run. -/
theorem blankRuns_run (hrun : run ≠ []) (hblank : ∀ c ∈ run, isBlank c = true) :
    blankRuns run = [run] := by
  have hchain : run.IsChain fun a b => (isBlank a == isBlank b) = true :=
    (List.pairwise_of_forall_mem_list fun a ha b hb => by
      rw [hblank a ha, hblank b hb]; rfl).isChain
  rw [blankRuns, List.splitBy_of_isChain hrun hchain, List.filter_cons_of_pos, List.filter_nil]
  obtain ⟨b, run, rfl⟩ := List.exists_cons_of_ne_nil hrun
  simp [hblank b List.mem_cons_self]

/-- **A text is cut at all of its runs.** -/
theorem CutAtBlanks.blankRuns_eq (h : CutAtBlanks cs pieces runs) : blankRuns cs = runs := by
  induction h with
  | piece hpiece => exact blankRuns_of_forall hpiece
  | @run piece run cs pieces runs hpiece hrun hblank hrest _ ih =>
    have hlast : ∀ b ∈ run.getLast?, isBlank b = true := fun b hb =>
      hblank b (List.mem_of_getLast? hb)
    rw [blankRuns_append, blankRuns_append, blankRuns_of_forall hpiece, blankRuns_run hrun hblank,
      ih]
    · rfl
    · intro a ha b hb
      rw [hlast a ha, hrest b hb]
      rfl
    · intro a ha b hb
      rw [List.head?_append_of_ne_nil _ hrun] at hb
      rw [hpiece a (List.mem_of_getLast? ha), hblank b (List.mem_of_head? hb)]
      rfl

/-! ### Pieces and runs put together -/

/-- Pieces with runs between them. -/
def weave : List (List Char) → List (List Char) → List Char
  | [], _ => []
  | piece :: _, [] => piece
  | piece :: pieces, run :: runs => piece ++ (run ++ weave pieces runs)

/-- A text is put together from its pieces and its runs. -/
theorem CutAtBlanks.weave_eq (h : CutAtBlanks cs pieces runs) : weave pieces runs = cs := by
  induction h with
  | piece => rfl
  | run _ _ _ _ _ ih => rw [weave, ih]

/-- It starts as its first piece does. -/
theorem head?_weave (hpiece : piece ≠ []) (pieces runs : List (List Char)) :
    (weave (piece :: pieces) runs).head? = piece.head? := by
  cases runs with
  | nil => rfl
  | cons run runs => exact List.head?_append_of_ne_nil piece hpiece

/-- A text that is put together from pieces with something in them is cut into these. -/
theorem cutAtBlanks_weave (hlength : pieces.length = runs.length + 1)
    (hpieces : ∀ piece ∈ pieces, piece ≠ [] ∧ ∀ c ∈ piece, isBlank c = false)
    (hruns : ∀ run ∈ runs, run ≠ [] ∧ ∀ c ∈ run, isBlank c = true) :
    CutAtBlanks (weave pieces runs) pieces runs := by
  induction runs generalizing pieces with
  | nil =>
    obtain ⟨piece, rfl⟩ := List.length_eq_one_iff.mp hlength
    exact .piece (hpieces piece List.mem_cons_self).2
  | cons run runs ih =>
    obtain ⟨piece, pieces, rfl⟩ := List.exists_cons_of_length_eq_add_one hlength
    obtain ⟨⟨-, hpiece⟩, hpieces⟩ := List.forall_mem_cons.mp hpieces
    obtain ⟨⟨hrun, hblank⟩, hruns⟩ := List.forall_mem_cons.mp hruns
    have hlength : pieces.length = runs.length + 1 := Nat.succ.inj hlength
    refine .run hpiece hrun hblank ?_ (ih hlength hpieces hruns)
    -- the next piece is not empty, so the run ends in front of it
    obtain ⟨next, pieces, rfl⟩ := List.exists_cons_of_length_eq_add_one hlength
    obtain ⟨hne, hnext⟩ := hpieces next List.mem_cons_self
    rw [head?_weave hne]
    exact fun c hc => hnext c (List.mem_of_head? hc)

/-! ### Reading in one pass -/

/-- White space in front cuts off an empty piece, and the run goes on as far as it can. -/
theorem splitBlanks_cons_of_isBlank (hc : isBlank c = true) (cs : List Char) :
    splitBlanks (c :: cs) = [] :: splitBlanks (cs.dropWhile isBlank) := by
  have hcs : c :: cs = [] ++ (c :: cs.takeWhile isBlank ++ cs.dropWhile isBlank) := by
    rw [List.nil_append, List.cons_append, List.takeWhile_append_dropWhile]
  conv => lhs; rw [hcs]
  exact splitBlanks_append (List.forall_mem_nil _) (List.cons_ne_nil _ _)
    (List.forall_mem_cons.mpr ⟨hc, List.all_eq_true.mp List.all_takeWhile⟩)
    (head?_dropWhile_eq_false isBlank cs)

/-- Any other character belongs to the first piece. -/
theorem splitBlanks_cons_of_not (hc : isBlank c = false) (cs : List Char) :
    splitBlanks (c :: cs) = (splitBlanks cs).modifyHead (c :: ·) := by
  obtain ⟨runs, hcut⟩ := cutAtBlanks_splitBlanks cs
  generalize splitBlanks cs = pieces at hcut
  cases hcut with
  | piece hpiece => exact splitBlanks_of_forall (List.forall_mem_cons.mpr ⟨hc, hpiece⟩)
  | run hpiece hrun hblank hrest hcut =>
    exact (CutAtBlanks.run (List.forall_mem_cons.mpr ⟨hc, hpiece⟩) hrun hblank hrest
      hcut).splitBlanks_eq

/-- **Pieces that are read one character at a time.** -/
structure PieceReader where
  /-- The pieces before the last one. -/
  past : List (List Char) := []
  /-- What is read of the last piece. -/
  current : List Char := []
  /-- Whether the last character was white space. -/
  inRun : Bool := false

namespace PieceReader

/-- Reads one character. Only the first one of a run starts a piece. -/
def step (reader : PieceReader) (c : Char) : PieceReader :=
  if isBlank c then
    if reader.inRun then reader
    else { past := reader.past ++ [reader.current], current := [], inRun := true }
  else { reader with current := reader.current ++ [c], inRun := false }

/-- The pieces so far. -/
def entries (reader : PieceReader) : List (List Char) := reader.past ++ [reader.current]

/-- Nothing read of the last piece yet leaves it as it is. -/
theorem modifyHead_nil_append (pieces : List (List Char)) :
    pieces.modifyHead (fun piece => [] ++ piece) = pieces := by
  cases pieces <;> rfl

/-- **What is read in one pass**: the last piece goes on with the first of what is still to be read,
and white space goes on with the run. -/
theorem entries_foldl_step (reader : PieceReader) (cs : List Char) :
    (cs.foldl step reader).entries = reader.past ++
      (splitBlanks (if reader.inRun then cs.dropWhile isBlank else cs)).modifyHead
        (reader.current ++ ·) := by
  induction cs generalizing reader with
  | nil => cases hrun : reader.inRun <;> simp [entries, splitBlanks]
  | cons c cs ih =>
    rw [List.foldl_cons, ih, step]
    by_cases hc : isBlank c = true
    · rw [if_pos hc]
      by_cases hrun : reader.inRun = true
      · simp [hrun, hc]
      · simpa [hrun, splitBlanks_cons_of_isBlank hc] using modifyHead_nil_append _
    · have hc : isBlank c = false := Bool.eq_false_iff.mpr hc
      cases hrun : reader.inRun <;>
        simp [hc, splitBlanks_cons_of_not hc, List.modifyHead_modifyHead, Function.comp_def]

end PieceReader

/-! ### Media types -/

/-- **A text with the pieces between its runs of white space.** -/
structure SplitAtBlanks (cs : List Char) (pieces : List (List Char)) : Prop where
  /-- There is one piece more than there are runs. -/
  length_eq : pieces.length = (blankRuns cs).length + 1
  /-- The pieces stand between the runs. -/
  weave_eq : weave pieces (blankRuns cs) = cs
  /-- No white space stands in a piece. -/
  not_blank : ∀ piece ∈ pieces, ∀ c ∈ piece, isBlank c = false
  /-- The first piece is empty if the text starts with white space or is empty. -/
  head_iff : pieces.head? = some [] ↔ ∀ c ∈ cs.head?, isBlank c = true
  /-- The last piece is empty if the text ends with white space or is empty. -/
  last_iff : pieces.getLast? = some [] ↔ ∀ c ∈ cs.getLast?, isBlank c = true
  /-- No other piece is. -/
  inner : ∀ piece ∈ pieces.tail.dropLast, piece ≠ []

theorem splitAtBlanks_splitBlanks (cs : List Char) : SplitAtBlanks cs (splitBlanks cs) := by
  obtain ⟨runs, h⟩ := cutAtBlanks_splitBlanks cs
  have hruns := h.blankRuns_eq
  exact ⟨hruns ▸ h.length_eq, hruns ▸ h.weave_eq, h.not_blank, h.head_iff, h.last_iff,
    h.ne_nil_of_mem_inner⟩

/-- **The media types of a text** are the pieces between its runs of white space, which are also
what is read in one pass. Media types with any white space between them are read as they are. -/
theorem mediaTypes_cut_and_read_and_woven (text : String) :
    SplitAtBlanks text.toList ((mediaTypes text).map String.toList) ∧
      mediaTypes text = (text.toList.foldl PieceReader.step {}).entries.map String.ofList ∧
      ∀ types runs : List String, types.length = runs.length + 1 →
        (∀ type ∈ types, type ≠ "" ∧ ∀ c ∈ type.toList, isBlank c = false) →
        (∀ run ∈ runs, run ≠ "" ∧ ∀ c ∈ run.toList, isBlank c = true) →
        text.toList = weave (types.map String.toList) (runs.map String.toList) →
          mediaTypes text = types := by
  refine ⟨?_, ?_, fun types runs hlength htypes hruns htext => ?_⟩
  · have hpieces : (mediaTypes text).map String.toList = splitBlanks text.toList := by
      simp [mediaTypes, Function.comp_def]
    rw [hpieces]
    exact splitAtBlanks_splitBlanks text.toList
  · rw [PieceReader.entries_foldl_step, PieceReader.modifyHead_nil_append]
    rfl
  · have hcut : CutAtBlanks text.toList (types.map String.toList) (runs.map String.toList) := by
      rw [htext]
      refine cutAtBlanks_weave (by simpa using hlength) ?_ ?_
      · exact List.forall_mem_map.mpr fun type htype => by simpa using htypes type htype
      · exact List.forall_mem_map.mpr fun run hrun => by simpa using hruns run hrun
    rw [mediaTypes, hcut.splitBlanks_eq, List.map_map]
    simp [Function.comp_def]

/-- Two media types with a run of four different characters between them, the third of which is a
no-break space. -/
theorem mediaTypes_cut_and_read_and_woven_mixed :
    SplitAtBlanks "text/xml \t\u00a0\ntext/csv".toList
        ["text/xml".toList, "text/csv".toList] ∧
      mediaTypes "text/xml \t\u00a0\ntext/csv" = ["text/xml", "text/csv"] := by
  obtain ⟨hsplit, -, hwoven⟩ := mediaTypes_cut_and_read_and_woven "text/xml \t\u00a0\ntext/csv"
  have htypes : mediaTypes "text/xml \t\u00a0\ntext/csv" = ["text/xml", "text/csv"] :=
    hwoven ["text/xml", "text/csv"] [" \t\u00a0\n"] rfl (by simp [isBlank])
      (by simp [isBlank]) rfl
  rw [htypes] at hsplit
  exact ⟨hsplit, htypes⟩

end ApiAnnotation
