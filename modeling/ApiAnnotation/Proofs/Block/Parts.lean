import ApiAnnotation.Proofs.Block.Brace
import ApiAnnotation.Proofs.Block.Written

/-!
# The parts of a written directive

Title, type, name and description of a directive are written one after the other with a space
between them, and a part that is empty is left out. So the reader has to guess which parts are
there, and it can guess wrong in three ways, each of which
`ApiAnnotation.Directive.Unambiguous` excludes. Nothing else goes wrong: a well-formed directive is
read back exactly if it is unambiguous (`ApiAnnotation.Directive.WellFormed.ofText_written_iff`).

The text of a directive may be followed by line feeds, those of empty lines before the end of the
comment.
-/

namespace ApiAnnotation

/-! ### Texts after a space -/

section Spaced

variable {cs rest tail : List Char}

/-- What starts with white space still does behind a text after a space. -/
theorem isBlank_head_spaced_append (hrest : ∀ c ∈ rest.head?, isBlank c = true) (cs : List Char) :
    ∀ c ∈ (spaced cs ++ rest).head?, isBlank c = true := by
  rw [spaced]
  split
  · exact hrest
  · rintro c hc
    obtain rfl := Option.some.inj hc
    decide

theorem isBlank_of_newlines (htail : ∀ c ∈ tail, c = '\n') : ∀ c ∈ tail, isBlank c = true :=
  fun c hc => htail c hc ▸ isBlank_newline

theorem isBlank_head_of_newlines (htail : ∀ c ∈ tail, c = '\n') :
    ∀ c ∈ tail.head?, isBlank c = true := fun c hc =>
  isBlank_of_newlines htail c (List.mem_of_head? hc)

/-- The space is trimmed. -/
theorem trimStart_spaced_append (hcs : cs ≠ []) (hhead : ∀ c ∈ cs.head?, isBlank c = false)
    (rest : List Char) : Text.trimStart (spaced cs ++ rest) = cs ++ rest := by
  have hspace : Text.trimStart ([' '] ++ (cs ++ rest)) = Text.trimStart (cs ++ rest) :=
    Text.trimStart_append (List.forall_mem_singleton.mpr (by decide)) _
  rw [spaced, if_neg hcs]
  exact hspace.trans (Text.trimStart_append_of_head hcs hhead rest)

/-- White space around a description is trimmed. -/
theorem trim_spaced_append (hcs : Text.Trimmed cs) (htail : ∀ c ∈ tail, c = '\n') :
    Text.trim (spaced cs ++ tail) = cs := by
  have hblank := isBlank_of_newlines htail
  rw [spaced]
  split
  · next hnil =>
    subst hnil
    exact Text.trim_append_append (List.forall_mem_nil _) hblank hcs
  · have hspace : ∀ c ∈ [' '], isBlank c = true := List.forall_mem_singleton.mpr (by decide)
    exact Text.trim_append_append hspace hblank hcs

end Spaced

/-! ### Types -/

/-- **A written type is read back**, and nothing of what comes after it is lost. -/
theorem takeType_written {title : String} (htitle : takesType title = true) {t : TypeExpr}
    (ht : ∀ name ∈ t.name, isNamePath name.toList = true) (after : List Char) :
    takeType title (spaced t.written ++ after) = (some t, after) := by
  have hchar : ∀ c ∈ (t.name.getD "*").toList, isBlank c = false ∧ c ≠ '\x7b' ∧ c ≠ '}' := by
    intro c hc
    rcases TypeExpr.of_mem_name ht hc with h | h
    · refine ⟨isBlank_of_isTitleChar h, ?_, ?_⟩ <;> rintro rfl <;> exact absurd h (by decide)
    · simp only [List.mem_cons, List.not_mem_nil, or_false] at h
      rcases h with rfl | rfl | rfl <;> decide
  have hbraced : braced? (t.written ++ after) = some ((t.name.getD "*").toList, after) := by
    have hclosed : untilClosed? 0 ((t.name.getD "*").toList ++ '}' :: after) =
        some ((t.name.getD "*").toList, after) :=
      untilClosed?_append (fun c hc => (hchar c hc).2) after
    have hwritten : t.written ++ after = '\x7b' :: ((t.name.getD "*").toList ++ '}' :: after) := by
      simp [TypeExpr.written]
    have htrim : Text.trim (t.name.getD "*").toList = (t.name.getD "*").toList :=
      (Text.Trimmed.of_forall fun c hc => (hchar c hc).1).trim_eq
    rw [hwritten, braced?, if_pos rfl, hclosed]
    exact congrArg (fun inside => some (inside, after)) htrim
  have htext : TypeExpr.ofText (t.name.getD "*").toList = t := by
    obtain ⟨_ | name⟩ := t
    · rfl
    · rw [TypeExpr.ofText, Option.getD_some, if_pos (ht name rfl), String.ofList_toList]
  have hhead : ∀ c ∈ t.written.head?, isBlank c = false := by
    rintro c hc
    obtain rfl := Option.some.inj hc
    decide
  have hne : t.written ≠ [] := List.cons_ne_nil _ _
  rw [takeType, if_pos htitle, trimStart_spaced_append hne hhead, hbraced]
  exact congrArg (some · , after) htext

/-- Where no type is read, no text is taken off. -/
theorem takeType_of_fst_eq_none {title : String} {cs : List Char}
    (h : (takeType title cs).1 = none) : takeType title cs = (none, cs) := by
  rw [takeType] at h ⊢
  split at h
  · exact absurd h (Option.some_ne_none _)
  · rfl

/-- A type is read where one can be taken and the text starts with one. -/
theorem takeType_fst_eq_none_iff {title : String} {cs : List Char} :
    (takeType title cs).1 = none ↔
      (takesType title = true → ¬StartsWithType (Text.trimStart cs)) := by
  rw [← isSome_braced?_iff, takeType]
  by_cases htitle : takesType title = true
  · rw [if_pos htitle]
    rcases braced? (Text.trimStart cs) with _ | ⟨inside, after⟩ <;> simp [htitle]
  · simp [htitle]

/-! ### Names -/

theorem takeName_of_not {title : String} (htitle : takesName title = false) (cs : List Char) :
    takeName title cs = ([], cs) := by
  rw [takeName, if_neg (by simp [htitle])]

/-- **A written name is read back** where white space follows, and nothing of what comes after it is
lost. -/
theorem takeName_written {title : String} (htitle : takesName title = true) {name rest : List Char}
    (hne : name ≠ []) (hname : ∀ c ∈ name, isBlank c = false)
    (hrest : ∀ c ∈ rest.head?, isBlank c = true) :
    takeName title (spaced name ++ rest) = (name, rest) := by
  have hhead : ∀ c ∈ name.head?, isBlank c = false := fun c hc => hname c (List.mem_of_head? hc)
  obtain ⟨htake, hdrop⟩ : (name ++ rest).takeWhile (!isBlank ·) = name ∧
      (name ++ rest).dropWhile (!isBlank ·) = rest :=
    takeWhile_dropWhile_append (fun c hc => by simp [hname c hc]) fun c hc => by simp [hrest c hc]
  simp only [takeName, if_pos htitle, trimStart_spaced_append hne hhead, htake, hdrop]

/-- Where a name can be taken, it is empty only if there is nothing to take it from. -/
theorem forall_isBlank_of_takeName {title : String} (htitle : takesName title = true)
    {cs : List Char} (h : (takeName title cs).1 = []) : ∀ c ∈ cs, isBlank c = true := by
  simp only [takeName, if_pos htitle] at h
  rcases hstart : Text.trimStart cs with _ | ⟨c, rest⟩
  · exact List.dropWhile_eq_nil_iff.mp hstart
  · -- the name would start with what is left after white space
    have hc : isBlank c = false :=
      head?_dropWhile_eq_false isBlank cs c (congrArg List.head? hstart)
    rw [hstart, List.takeWhile_cons_of_pos (by simp [hc])] at h
    exact absurd h (List.cons_ne_nil _ _)

/-! ### Dashes -/

/-- A description is left as it is unless it starts with a dash and white space. -/
theorem stripDash_eq_self_iff {cs : List Char} :
    stripDash cs = cs ↔ ∀ c rest, cs = '-' :: c :: rest → isBlank c = false := by
  constructor
  · rintro h c rest rfl
    rw [stripDash] at h
    by_contra hblank
    rw [if_pos (by simpa using hblank)] at h
    have hlength := congrArg List.length h
    rw [List.length_cons, List.length_cons] at hlength
    omega
  · intro h
    rw [stripDash.eq_def]
    split
    · next c rest => rw [if_neg (by simp [h c rest rfl])]
    · rfl

/-! ### Whole directives -/

namespace Directive

/-- **Directives whose text says which parts are there.** -/
structure Unambiguous (d : Directive) : Prop where
  /-- Where a name can be taken, a description does not stand without one. -/
  name : takesName d.title = true → d.name = "" → d.description = ""
  /-- Where only a type can be taken and there is none, the description does not start with one. -/
  type : takesType d.title = true → takesName d.title = false → d.type = none →
    ¬StartsWithType d.description.toList
  /-- The description does not start with a dash and white space. -/
  dash : ∀ c cs, d.description.toList = '-' :: c :: cs → isBlank c = false

variable {d : Directive} {tail : List Char}

/-- The text of a directive after its title and type. -/
def remainder (d : Directive) (tail : List Char) : List Char :=
  spaced d.name.toList ++ (spaced d.description.toList ++ tail)

/-- The title of a written directive is read back. -/
theorem WellFormed.ofText_written (h : d.WellFormed) (htail : ∀ c ∈ tail, c = '\n') :
    ofText (d.written ++ tail) =
      let type := takeType d.title (spaced d.typeText ++ d.remainder tail)
      let name := takeName d.title type.2
      { title := d.title, type := type.1, name := String.ofList name.1
        description := String.ofList (stripDash (Text.trim name.2)) } := by
  have hblank := isBlank_head_spaced_append (isBlank_head_spaced_append (isBlank_head_spaced_append
    (isBlank_head_of_newlines htail) d.description.toList) d.name.toList) d.typeText
  -- the title ends there, as no white space stands in a title
  obtain ⟨htake, hdrop⟩ := takeWhile_dropWhile_append h.title fun c hc =>
    Bool.eq_false_iff.mpr fun htitle =>
      Bool.false_ne_true ((isBlank_of_isTitleChar htitle).symm.trans (hblank c hc))
  have htext : Text.dropLeading '@' (d.written ++ tail) = d.title.toList ++
      (spaced d.typeText ++ d.remainder tail) := by
    simp [written, opening, remainder, Text.dropLeading]
  simp only [ofText, htext, remainder, htake, hdrop, String.ofList_toList]

/-- If the right type is read, it is read off its text. -/
theorem WellFormed.takeType_eq (h : d.WellFormed) {after : List Char}
    (htype : (takeType d.title (spaced d.typeText ++ after)).1 = d.type) :
    takeType d.title (spaced d.typeText ++ after) = (d.type, after) := by
  rw [typeText] at htype ⊢
  rcases ht : d.type with _ | t
  · rw [ht] at htype
    exact takeType_of_fst_eq_none htype
  · exact takeType_written (h.typed (by simp [ht])) (h.type t ht) after

/-- The right type is read unless what comes after the title is taken for one. -/
theorem WellFormed.takeType_fst_iff (h : d.WellFormed) {after : List Char} :
    (takeType d.title (spaced d.typeText ++ after)).1 = d.type ↔
      (d.type = none → takesType d.title = true → ¬StartsWithType (Text.trimStart after)) := by
  rw [typeText]
  rcases ht : d.type with _ | t
  · rw [Option.elim_none, spaced, if_pos rfl, List.nil_append, takeType_fst_eq_none_iff]
    exact ⟨fun hread _ => hread, fun hread => hread rfl⟩
  · rw [Option.elim_some, takeType_written (h.typed (by simp [ht])) (h.type t ht)]
    exact ⟨fun _ hnone => absurd hnone (Option.some_ne_none t), fun _ => rfl⟩

/-- If the title takes no name, there is none. -/
theorem WellFormed.name_eq_empty (h : d.WellFormed) (htitle : takesName d.title = false) :
    d.name = "" := by
  by_contra hname
  rw [h.named hname] at htitle
  exact absurd htitle (by decide)

/-- **Name and description are read** where a description has a name before it if one can be
taken. -/
theorem WellFormed.takeName_remainder (h : d.WellFormed) (htail : ∀ c ∈ tail, c = '\n')
    (hname : takesName d.title = true → d.name = "" → d.description = "") :
    String.ofList (takeName d.title (d.remainder tail)).1 = d.name ∧
      Text.trim (takeName d.title (d.remainder tail)).2 = d.description.toList := by
  have htrim := trim_spaced_append h.trimmed htail
  rcases htitle : takesName d.title
  · have hempty := h.name_eq_empty htitle
    rw [takeName_of_not htitle, remainder, hempty]
    exact ⟨rfl, htrim⟩
  · by_cases hempty : d.name = ""
    · -- there is nothing but the line feeds
      have hdescription := hname htitle hempty
      have hstart : Text.trimStart tail = [] :=
        Text.trimStart_of_forall (isBlank_of_newlines htail)
      have hremainder : d.remainder tail = tail := by rw [remainder, hempty, hdescription]; rfl
      rw [hremainder, takeName, if_pos htitle, hstart, hempty, hdescription]
      exact ⟨rfl, rfl⟩
    · rw [remainder, takeName_written htitle (mt String.toList_eq_nil_iff.mp hempty) h.name
        (isBlank_head_spaced_append (isBlank_head_of_newlines htail) _), String.ofList_toList]
      exact ⟨rfl, htrim⟩

/-- If an empty name is read where one can be taken, there is no description. -/
theorem WellFormed.description_eq_empty (h : d.WellFormed) (htitle : takesName d.title = true)
    (hread : (takeName d.title (d.remainder tail)).1 = []) : d.description = "" := by
  -- all that comes after the type is white space, and a description is not
  have hblank := forall_isBlank_of_takeName htitle hread
  by_contra hne
  obtain ⟨c, cs, hcs⟩ :=
    List.exists_cons_of_ne_nil (mt String.toList_eq_nil_iff.mp hne)
  have hc : isBlank c = false := h.trimmed.head c (by rw [hcs]; rfl)
  have hmem : c ∈ d.remainder tail := by simp [remainder, spaced, hcs]
  rw [hblank c hmem] at hc
  exact absurd hc (by decide)

/-- Whether a description is taken for a type does not depend on the white space around it. -/
theorem startsWithType_trimStart_iff {cs : List Char} (hcs : Text.Trimmed cs)
    (htail : ∀ c ∈ tail, c = '\n') :
    StartsWithType (Text.trimStart (spaced cs ++ tail)) ↔ StartsWithType cs := by
  by_cases hne : cs = []
  · subst hne
    rw [spaced, if_pos rfl, List.nil_append,
      Text.trimStart_of_forall (isBlank_of_newlines htail)]
  · rw [trimStart_spaced_append hne hcs.head, startsWithType_append_iff]
    exact fun hmem => absurd (htail _ hmem) (by decide)

/-- In an unambiguous directive without a type none is found. -/
theorem Unambiguous.not_startsWithType (hd : d.Unambiguous) (h : d.WellFormed)
    (htail : ∀ c ∈ tail, c = '\n') (hnone : d.type = none) (htitle : takesType d.title = true) :
    ¬StartsWithType (Text.trimStart (d.remainder tail)) := by
  rw [remainder]
  by_cases hempty : d.name = ""
  · -- the description comes next, which is empty if a name can be taken
    have hspaced : spaced d.name.toList = [] := by rw [hempty]; rfl
    rw [hspaced, List.nil_append, startsWithType_trimStart_iff h.trimmed htail]
    rcases htakes : takesName d.title
    · exact hd.type htitle htakes hnone
    · rw [hd.name htakes hempty]
      exact not_startsWithType_nil
  · -- the name comes next, which does not start with a brace
    have hne : d.name.toList ≠ [] := mt String.toList_eq_nil_iff.mp hempty
    have hhead : ∀ c ∈ d.name.toList.head?, isBlank c = false := fun c hc =>
      h.name c (List.mem_of_head? hc)
    rw [trimStart_spaced_append hne hhead]
    intro hstart
    obtain ⟨c, cs, hcs⟩ := List.exists_cons_of_ne_nil hne
    refine h.brace hnone ?_
    rw [hcs] at hstart ⊢
    exact hstart.head?

/-- **A directive is read back exactly if it is unambiguous.** -/
theorem WellFormed.ofText_written_iff (h : d.WellFormed) (htail : ∀ c ∈ tail, c = '\n') :
    ofText (d.written ++ tail) = d ↔ d.Unambiguous := by
  rw [h.ofText_written htail]
  constructor
  · intro hread
    have htype : (takeType d.title (spaced d.typeText ++ d.remainder tail)).1 = d.type :=
      congrArg Directive.type hread
    -- once the type is right, the other parts are read from the right place
    have hname := congrArg Directive.name hread
    have hdescription := congrArg Directive.description hread
    simp only [h.takeType_eq htype] at hname hdescription
    have hnamed : takesName d.title = true → d.name = "" → d.description = "" := by
      intro htitle hempty
      rw [hempty] at hname
      exact h.description_eq_empty htitle (String.ofList_eq_empty_iff.mp hname)
    refine ⟨hnamed, fun htitle hnot hnone => ?_, stripDash_eq_self_iff.mp ?_⟩
    · have hstart := h.takeType_fst_iff.mp htype hnone htitle
      have hspaced : spaced d.name.toList = [] := by rw [h.name_eq_empty hnot]; rfl
      rw [remainder, hspaced, List.nil_append,
        startsWithType_trimStart_iff h.trimmed htail] at hstart
      exact hstart
    · rw [(h.takeName_remainder htail hnamed).2] at hdescription
      exact (String.toList_ofList).symm.trans (congrArg String.toList hdescription)
  · intro hd
    have htype : (takeType d.title (spaced d.typeText ++ d.remainder tail)).1 = d.type :=
      h.takeType_fst_iff.mpr (hd.not_startsWithType h htail)
    simp only [h.takeType_eq htype]
    obtain ⟨hname, hdescription⟩ := h.takeName_remainder htail hd.name
    rw [hname, hdescription, stripDash_eq_self_iff.mpr hd.dash, String.ofList_toList]

end Directive

end ApiAnnotation
