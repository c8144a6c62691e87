import ApiAnnotation.Json.Text
import ApiAnnotation.Proofs.Json.Scalar

/-!
# Reading written values

A value that is written and read is the value again, whichever of the two ways it is written in. The
text is first read into a tree, and the tree is known beforehand: it shows the value and no fault
(`ApiAnnotation.Json.tree`). What is then read from the tree depends on nothing but the value.

The text of a value is looked at with blanks in front of it and something after it, since this is
where it stands among the items of a list. The fuel of the reader is compared to the length of the
text alone, as every list, item and member takes a character that no other one does.

## Main statements

* `ApiAnnotation.Json.readValue_written`: a written value is read into its tree.
* `ApiAnnotation.Json.value_tree`: its tree holds the value.
* `ApiAnnotation.Json.ofText_pretty`, `ApiAnnotation.Json.ofText_compact`: a written value is read
  back.
-/

namespace ApiAnnotation

namespace Json

/-! ### The tree of a value -/

mutual

/-- The tree that the text of a value is read into. -/
def tree : Json → Tree
  | null => .null
  | bool b => .bool b
  | number n => .number (some n)
  | string s => .string (some s)
  | array items => .array (itemTrees items) none
  | object members => .object (memberTrees members) none

/-- The trees of items. -/
def itemTrees : List Json → List Tree
  | [] => []
  | item :: items => item.tree :: itemTrees items

/-- The keys of members and the trees of their values. -/
def memberTrees : List (String × Json) → List (Option String × Tree)
  | [] => []
  | (key, value) :: members => (some key, value.tree) :: memberTrees members

end

theorem itemTrees_eq (items : List Json) : itemTrees items = items.map tree := by
  induction items with
  | nil => rfl
  | cons item items ih => rw [itemTrees, ih, List.map_cons]

theorem memberTrees_eq (members : List (String × Json)) :
    memberTrees members = members.map fun member => (some member.1, member.2.tree) := by
  induction members with
  | nil => rfl
  | cons member members ih => rw [memberTrees, ih, List.map_cons]

/-! ### Blanks -/

/-- **Blanks that a reader passes over**: white space, and a colon with white space after it. -/
structure Spacing.IsBlank (spacing : Spacing) : Prop where
  /-- White space stands in front of items. -/
  lineBreak : ∀ depth, ∀ c ∈ spacing.lineBreak depth, isSpace c = true
  /-- A colon and white space stand between a key and its value. -/
  colon : ∃ blanks, spacing.colon = ':' :: blanks ∧ ∀ c ∈ blanks, isSpace c = true

theorem Spacing.isBlank_compact : Spacing.compact.IsBlank where
  lineBreak _ := List.forall_mem_nil _
  colon := ⟨[], rfl, List.forall_mem_nil _⟩

theorem Spacing.isBlank_indented : Spacing.indented.IsBlank where
  lineBreak depth := by
    refine List.forall_mem_cons.mpr ⟨by decide, fun c hc => ?_⟩
    rw [(List.mem_replicate.mp hc).2]
    decide
  colon := ⟨[' '], rfl, List.forall_mem_singleton.mpr (by decide)⟩

theorem skipSpace_append {front : List Char} (h : ∀ c ∈ front, isSpace c = true)
    (cs : List Char) : skipSpace (front ++ cs) = skipSpace cs :=
  List.dropWhile_append_of_pos h

theorem skipSpace_cons {c : Char} (h : isSpace c = false) (cs : List Char) :
    skipSpace (c :: cs) = c :: cs :=
  List.dropWhile_cons_of_neg (by rw [h]; exact Bool.false_ne_true)

theorem isSpace_iff {c : Char} :
    isSpace c = true ↔ c = ' ' ∨ c = '\n' ∨ c = '\t' ∨ c = '\r' := by
  simp [isSpace, or_assoc]

/-- White space, a comma and a closing bracket stop a number. -/
theorem stops_cons {c : Char} (h : isSpace c = true ∨ c = ',' ∨ c = ']' ∨ c = '}')
    (cs : List Char) : Stops (c :: cs) := by
  intro b hb
  obtain rfl := Option.some.inj hb
  rw [isSpace_iff] at h
  rcases h with (rfl | rfl | rfl | rfl) | rfl | rfl | rfl <;> decide

/-- Blanks and a closing bracket stop a number, and a reader passes over the blanks. -/
theorem stops_close {back : List Char} (hback : ∀ b ∈ back, isSpace b = true) {c : Char}
    (hc : c = ']' ∨ c = '}') (rest : List Char) :
    Stops (back ++ c :: rest) ∧ skipSpace (back ++ c :: rest) = c :: rest := by
  have hspace : isSpace c = false := by
    rcases hc with rfl | rfl <;> decide
  constructor
  · rcases back with _ | ⟨b, back⟩
    · exact stops_cons (Or.inr (Or.inr hc)) rest
    · exact stops_cons (Or.inl (hback b List.mem_cons_self)) _
  · rw [skipSpace_append hback, skipSpace_cons hspace]

/-! ### Scalars -/

variable {spacing : Spacing}

/-- **A value is read back** from its text, with blanks in front and something after it. -/
def ReadsBack (spacing : Spacing) (j : Json) : Prop :=
  ∀ fuel depth front rest, (∀ c ∈ front, isSpace c = true) →
    (j.written spacing depth).length ≤ fuel → Stops rest →
      readValue fuel (front ++ (j.written spacing depth ++ rest)) = (j.tree, some rest)

/-- Where no list and no object starts, a scalar is read. -/
theorem readValue_scalar {c : Char} (hspace : isSpace c = false) (hlist : c ≠ '[')
    (hobject : c ≠ '\x7b') {front : List Char} (hfront : ∀ b ∈ front, isSpace b = true)
    (fuel : Nat) (cs : List Char) :
    readValue (fuel + 1) (front ++ c :: cs) = readScalar (c :: cs) := by
  rw [readValue, skipSpace_append hfront, skipSpace_cons hspace]
  split
  · next heq => exact absurd (List.cons.inj heq).1 hlist
  · next heq => exact absurd (List.cons.inj heq).1 hobject
  · rfl

/-- A value is read back if its text starts no list and no object and is read as a scalar. -/
theorem readsBack_of_readScalar {j : Json} {c : Char} {cs : List Char}
    (hwritten : ∀ depth, j.written spacing depth = c :: cs) (hspace : isSpace c = false)
    (hlist : c ≠ '[') (hobject : c ≠ '\x7b')
    (hread : ∀ rest, Stops rest → readScalar (c :: (cs ++ rest)) = (j.tree, some rest)) :
    ReadsBack spacing j := by
  intro fuel depth front rest hfront hfuel hrest
  rw [hwritten, List.length_cons] at hfuel
  obtain ⟨fuel, rfl⟩ := Nat.exists_eq_add_of_le' (Nat.le_of_add_left_le hfuel)
  rw [hwritten, List.cons_append, readValue_scalar hspace hlist hobject hfront, hread rest hrest]

/-- The text of an integer starts with a sign or a digit. -/
theorem exists_textOfInt_eq_cons (k : Int) :
    ∃ c cs, Number.textOfInt k = c :: cs ∧ (c = '-' ∨ c.isDigit = true) := by
  rcases k with n | n
  · obtain ⟨c, cs, hcs⟩ := List.exists_cons_of_ne_nil (Nat.toDigits_ne_nil (n := n) (b := 10))
    refine ⟨c, cs, hcs, Or.inr ?_⟩
    exact Nat.isDigit_of_mem_toDigits (by omega) (by omega) (hcs ▸ List.mem_cons_self)
  · exact ⟨'-', _, rfl, Or.inl rfl⟩

/-- A sign or a digit is no other character that a value starts with, and no blank. -/
theorem ne_of_numeric {c : Char} (h : c = '-' ∨ c.isDigit = true) :
    isSpace c = false ∧ ∀ b ∈ ['n', 't', 'f', '"', '[', ']', '\x7b'], c ≠ b := by
  constructor
  · refine Bool.eq_false_iff.mpr fun hspace => ?_
    rcases isSpace_iff.mp hspace with rfl | rfl | rfl | rfl <;> exact absurd h (by decide)
  · rintro b hb rfl
    simp only [List.mem_cons, List.not_mem_nil, or_false] at hb
    rcases hb with rfl | rfl | rfl | rfl | rfl | rfl | rfl <;> exact absurd h (by decide)

theorem readsBack_number {n : Number} (h : n.IsWord) : ReadsBack spacing (.number n) := by
  obtain ⟨k, rfl, hlo, hhi⟩ := h
  obtain ⟨c, cs, hcs, hc⟩ := exists_textOfInt_eq_cons k
  obtain ⟨hspace, hne⟩ := ne_of_numeric hc
  refine readsBack_of_readScalar (fun _ => hcs) hspace (hne '[' (by decide))
    (hne '\x7b' (by decide)) fun rest hrest => ?_
  have hnumeral := readNumeral_textOfInt k hrest
  rw [hcs, List.cons_append] at hnumeral
  have hstart : (c = '-' || c.isDigit) = true := by
    simpa using hc
  rw [readScalar.eq_def]
  split
  · next heq => exact absurd (List.cons.inj heq).1 (hne 'n' (by decide))
  · next heq => exact absurd (List.cons.inj heq).1 (hne 't' (by decide))
  · next heq => exact absurd (List.cons.inj heq).1 (hne 'f' (by decide))
  · next heq => exact absurd (List.cons.inj heq).1 (hne '"' (by decide))
  · next heq =>
    obtain ⟨rfl, rfl⟩ := List.cons.inj heq
    rw [if_pos hstart, hnumeral]
    simp only [Numeral.value?_ofInt hlo hhi]
    rfl
  · next heq => cases heq

theorem readsBack_string (s : String) : ReadsBack spacing (.string s) := by
  have hwritten : ∀ depth, (Json.string s).written spacing depth =
      '"' :: (s.toList.flatMap escape ++ ['"']) := fun _ => rfl
  refine readsBack_of_readScalar hwritten (by decide) (by decide) (by decide) fun rest _ => ?_
  rw [List.append_assoc, List.singleton_append, readScalar, readQuoted_quote]
  rfl

/-- A word is read as the tree that it stands for. -/
theorem readWord_append (tree : Tree) (word rest : List Char) :
    readWord tree word (word ++ rest) = (tree, some rest) := by
  induction word with
  | nil => rfl
  | cons c word ih => rw [List.cons_append, readWord, if_pos rfl, ih]

theorem readsBack_null : ReadsBack spacing .null :=
  readsBack_of_readScalar (fun _ => rfl) (by decide) (by decide) (by decide) fun rest _ =>
    readWord_append .null ['u', 'l', 'l'] rest

theorem readsBack_bool (b : Bool) : ReadsBack spacing (.bool b) := by
  cases b with
  | false =>
    exact readsBack_of_readScalar (fun _ => rfl) (by decide) (by decide) (by decide) fun rest _ =>
      readWord_append (.bool false) ['a', 'l', 's', 'e'] rest
  | true =>
    exact readsBack_of_readScalar (fun _ => rfl) (by decide) (by decide) (by decide) fun rest _ =>
      readWord_append (.bool true) ['r', 'u', 'e'] rest

/-! ### Lists and objects -/

/-- The text of a value starts with a character of its own. -/
theorem exists_written_eq_cons (spacing : Spacing) (depth : Nat) {j : Json} (h : j.NumberFits) :
    ∃ c cs, j.written spacing depth = c :: cs ∧ isSpace c = false ∧ c ≠ ']' := by
  match j with
  | .null => exact ⟨'n', _, rfl, by decide, by decide⟩
  | .bool true => exact ⟨'t', _, rfl, by decide, by decide⟩
  | .bool false => exact ⟨'f', _, rfl, by decide, by decide⟩
  | .number n =>
    obtain ⟨k, rfl, -, -⟩ := h
    obtain ⟨c, cs, hcs, hc⟩ := exists_textOfInt_eq_cons k
    obtain ⟨hspace, hne⟩ := ne_of_numeric hc
    exact ⟨c, cs, hcs, hspace, hne ']' (by decide)⟩
  | .string s => exact ⟨'"', _, rfl, by decide, by decide⟩
  | .array [] => exact ⟨'[', _, rfl, by decide, by decide⟩
  | .array (item :: items) => exact ⟨'[', _, rfl, by decide, by decide⟩
  | .object [] => exact ⟨'\x7b', _, rfl, by decide, by decide⟩
  | .object (member :: members) => exact ⟨'\x7b', _, rfl, by decide, by decide⟩

/-- **Items are read back** if each of them is. -/
theorem readItems_written (hspacing : spacing.IsBlank) {item : Json} {items : List Json}
    (hitem : ReadsBack spacing item) (hitems : ∀ j ∈ items, ReadsBack spacing j) (fuel depth : Nat)
    {front back : List Char} (hfront : ∀ c ∈ front, isSpace c = true)
    (hback : ∀ c ∈ back, isSpace c = true) (rest : List Char)
    (hfuel : (item.written spacing depth).length + (writtenItems spacing depth items).length <
      fuel) :
    readItems fuel (front ++ (item.written spacing depth ++
        (writtenItems spacing depth items ++ (back ++ ']' :: rest)))) =
      (itemTrees (item :: items), none, some rest) := by
  rcases fuel with _ | fuel
  · omega
  induction items generalizing item fuel front with
  | nil =>
    obtain ⟨hstop, hskip⟩ := stops_close hback (Or.inl rfl) rest
    rw [writtenItems, List.nil_append, readItems,
      hitem fuel depth front _ hfront (by omega) hstop]
    simp only [Option.map_some, hskip]
    rfl
  | cons next items ih =>
    have hstop : Stops (writtenItems spacing depth (next :: items) ++ (back ++ ']' :: rest)) :=
      stops_cons (Or.inr (Or.inl rfl)) _
    have hskip : skipSpace (writtenItems spacing depth (next :: items) ++ (back ++ ']' :: rest)) =
        ',' :: (spacing.lineBreak depth ++ (next.written spacing depth ++
          (writtenItems spacing depth items ++ (back ++ ']' :: rest)))) := by
      rw [writtenItems, List.cons_append, List.cons_append, List.cons_append,
        skipSpace_cons (by decide)]
      simp only [List.append_assoc]
    have hlength : (writtenItems spacing depth (next :: items)).length =
        (spacing.lineBreak depth).length + (next.written spacing depth).length +
          (writtenItems spacing depth items).length + 1 := by
      rw [writtenItems]
      simp only [List.length_append, List.length_cons]
      omega
    rcases fuel with _ | fuel
    · omega
    have hlater := ih (hitems next List.mem_cons_self)
      (fun j hj => hitems j (List.mem_cons_of_mem _ hj)) (hspacing.lineBreak depth) fuel (by omega)
    rw [readItems, hitem (fuel + 1) depth front _ hfront (by omega) hstop]
    simp only [Option.map_some, hskip, hlater]
    rfl

/-- **A list is read back** if each of its items is. -/
theorem readsBack_array (hspacing : spacing.IsBlank) {items : List Json}
    (hnumbers : ∀ item ∈ items, item.NumberFits)
    (hitems : ∀ item ∈ items, ReadsBack spacing item) : ReadsBack spacing (.array items) := by
  intro fuel depth front rest hfront hfuel hrest
  cases items with
  | nil =>
    obtain ⟨fuel, rfl⟩ := Nat.exists_eq_add_of_le' (Nat.le_of_add_left_le hfuel)
    rw [written, readValue, skipSpace_append hfront, List.cons_append, skipSpace_cons (by decide)]
    simp only [List.singleton_append, skipSpace_cons (show isSpace ']' = false by decide)]
    rfl
  | cons item items =>
    obtain ⟨c, cs, hcs, hspace, hc⟩ := exists_written_eq_cons spacing (depth + 1)
      (hnumbers item List.mem_cons_self)
    have hwritten : (Json.array (item :: items)).written spacing depth ++ rest =
        '[' :: (spacing.lineBreak (depth + 1) ++ (item.written spacing (depth + 1) ++
          (writtenItems spacing (depth + 1) items ++
            (spacing.lineBreak depth ++ ']' :: rest)))) := by
      rw [written]
      simp only [List.cons_append, List.append_assoc, List.nil_append]
    have hlength : ((Json.array (item :: items)).written spacing depth).length =
        (spacing.lineBreak (depth + 1)).length + (item.written spacing (depth + 1)).length +
          (writtenItems spacing (depth + 1) items).length + (spacing.lineBreak depth).length +
          2 := by
      rw [written]
      simp only [List.length_append, List.length_cons, List.length_nil]
      omega
    rcases fuel with _ | fuel
    · omega
    have hread := readItems_written hspacing (hitems item List.mem_cons_self)
      (fun j hj => hitems j (List.mem_cons_of_mem _ hj)) fuel (depth + 1) (List.forall_mem_nil _)
      (hspacing.lineBreak depth) rest (by omega)
    rw [hwritten, readValue, skipSpace_append hfront, skipSpace_cons (by decide)]
    simp only [skipSpace_append (hspacing.lineBreak (depth + 1))]
    rw [List.nil_append] at hread
    rw [hcs, List.cons_append] at hread ⊢
    rw [skipSpace_cons hspace]
    split
    · next heq => exact absurd (List.cons.inj heq).1 hc
    · next heq => cases heq
    · rw [hread]
      rfl

/-- A member is read up to its end, where the next one or the end of the object comes. -/
theorem readMembers_member (hspacing : spacing.IsBlank) (key : String) {value : Json}
    (hvalue : ReadsBack spacing value) {fuel depth : Nat} {front after : List Char}
    (hfront : ∀ c ∈ front, isSpace c = true) (hafter : Stops after)
    (hfuel : (value.written spacing depth).length ≤ fuel) :
    readMembers (fuel + 1) (front ++
        (quote key.toList ++ (spacing.colon ++ (value.written spacing depth ++ after)))) =
      match skipSpace after with
      | ',' :: cs =>
        let (members, close, rest) := readMembers fuel cs
        ((some key, value.tree) :: members, close, rest)
      | '}' :: rest => ([(some key, value.tree)], none, some rest)
      | cs => ([(some key, value.tree)], some (.both (faultAt cs)), none) := by
  obtain ⟨blanks, hcolon, hblanks⟩ := hspacing.colon
  have hread := hvalue fuel depth blanks after hblanks hfuel hafter
  rw [readMembers, skipSpace_append hfront, quote, List.cons_append, List.cons_append,
    skipSpace_cons (by decide), hcolon]
  simp only [List.append_assoc, List.cons_append, List.nil_append, readQuoted_quote,
    skipSpace_cons (show isSpace ':' = false by decide), hread, Option.map_some]
  split
  · next heq => cases heq
  · next heq =>
    rw [Option.some.inj heq]
    rfl
  · next heq =>
    rw [Option.some.inj heq]
    rfl
  · next hcomma hbrace heq =>
    obtain rfl := Option.some.inj heq
    split
    · next hnext => exact absurd hnext (hcomma _)
    · next hnext => exact absurd hnext (hbrace _)
    · rfl

/-- **Members are read back** if each of their values is. -/
theorem readMembers_written (hspacing : spacing.IsBlank) (key : String) {value : Json}
    {members : List (String × Json)} (hvalue : ReadsBack spacing value)
    (hmembers : ∀ member ∈ members, ReadsBack spacing member.2) (fuel depth : Nat)
    {front back : List Char} (hfront : ∀ c ∈ front, isSpace c = true)
    (hback : ∀ c ∈ back, isSpace c = true) (rest : List Char)
    (hfuel : (value.written spacing depth).length +
      (writtenMembers spacing depth members).length < fuel) :
    readMembers fuel (front ++ (quote key.toList ++ (spacing.colon ++
      (value.written spacing depth ++
        (writtenMembers spacing depth members ++ (back ++ '}' :: rest)))))) =
      (memberTrees ((key, value) :: members), none, some rest) := by
  rcases fuel with _ | fuel
  · omega
  induction members generalizing key value fuel front with
  | nil =>
    obtain ⟨hstop, hskip⟩ := stops_close hback (Or.inr rfl) rest
    rw [writtenMembers, List.nil_append,
      readMembers_member hspacing key hvalue hfront hstop (by omega), hskip]
    rfl
  | cons next members ih =>
    obtain ⟨nextKey, nextValue⟩ := next
    have hstop : Stops (writtenMembers spacing depth ((nextKey, nextValue) :: members) ++
        (back ++ '}' :: rest)) := stops_cons (Or.inr (Or.inl rfl)) _
    have hskip : skipSpace (writtenMembers spacing depth ((nextKey, nextValue) :: members) ++
        (back ++ '}' :: rest)) = ',' :: (spacing.lineBreak depth ++ (quote nextKey.toList ++
          (spacing.colon ++ (nextValue.written spacing depth ++
            (writtenMembers spacing depth members ++ (back ++ '}' :: rest)))))) := by
      rw [writtenMembers]
      simp only [List.cons_append, List.append_assoc,
        skipSpace_cons (show isSpace ',' = false by decide)]
    have hlength : (nextValue.written spacing depth).length +
        (writtenMembers spacing depth members).length <
          (writtenMembers spacing depth ((nextKey, nextValue) :: members)).length := by
      rw [writtenMembers]
      simp only [List.length_append, List.length_cons]
      omega
    rcases fuel with _ | fuel
    · omega
    have hnext : ReadsBack spacing nextValue := hmembers (nextKey, nextValue) List.mem_cons_self
    have hlater := ih nextKey hnext
      (fun member hmember => hmembers member (List.mem_cons_of_mem _ hmember))
      (hspacing.lineBreak depth) fuel (by omega)
    rw [readMembers_member hspacing key hvalue hfront hstop (by omega), hskip]
    simp only [hlater]
    rfl

/-- **An object is read back** if each of its values is. -/
theorem readsBack_object (hspacing : spacing.IsBlank) {members : List (String × Json)}
    (hmembers : ∀ member ∈ members, ReadsBack spacing member.2) :
    ReadsBack spacing (.object members) := by
  intro fuel depth front rest hfront hfuel hrest
  cases members with
  | nil =>
    obtain ⟨fuel, rfl⟩ := Nat.exists_eq_add_of_le' (Nat.le_of_add_left_le hfuel)
    rw [written, readValue, skipSpace_append hfront, List.cons_append, skipSpace_cons (by decide)]
    simp only [List.singleton_append, skipSpace_cons (show isSpace '}' = false by decide)]
    rfl
  | cons member members =>
    obtain ⟨key, value⟩ := member
    have hwritten : (Json.object ((key, value) :: members)).written spacing depth ++ rest =
        '\x7b' :: (spacing.lineBreak (depth + 1) ++ (quote key.toList ++ (spacing.colon ++
          (value.written spacing (depth + 1) ++ (writtenMembers spacing (depth + 1) members ++
            (spacing.lineBreak depth ++ '}' :: rest)))))) := by
      rw [written]
      simp only [List.cons_append, List.append_assoc, List.nil_append]
    have hlength : (value.written spacing (depth + 1)).length +
        (writtenMembers spacing (depth + 1) members).length + 1 <
          ((Json.object ((key, value) :: members)).written spacing depth).length := by
      rw [written]
      simp only [List.length_append, List.length_cons, List.length_nil]
      omega
    rcases fuel with _ | fuel
    · omega
    have hvalue : ReadsBack spacing value := hmembers (key, value) List.mem_cons_self
    have hkey : quote key.toList = '"' :: (key.toList.flatMap escape ++ ['"']) := rfl
    have hread := readMembers_written hspacing key hvalue
      (fun m hm => hmembers m (List.mem_cons_of_mem _ hm)) fuel (depth + 1) (List.forall_mem_nil _)
      (hspacing.lineBreak depth) rest (by omega)
    rw [hwritten, readValue, skipSpace_append hfront, skipSpace_cons (by decide)]
    simp only [skipSpace_append (hspacing.lineBreak (depth + 1))]
    rw [List.nil_append, hkey, List.cons_append] at hread
    rw [hkey, List.cons_append, skipSpace_cons (by decide)]
    split
    · next heq => cases heq
    · rw [hread]
      rfl

/-- **A written value is read into its tree**, whichever way it is written in. -/
theorem readValue_written (hspacing : spacing.IsBlank) {j : Json}
    (h : ∀ v, Part v j → v.NumberFits) : ReadsBack spacing j := by
  induction j using Json.induction with
  | null => exact readsBack_null
  | bool b => exact readsBack_bool b
  | number n => exact readsBack_number (h _ .self)
  | string s => exact readsBack_string s
  | array items ih =>
    have hitems := (forall_part_array.mp h).2
    exact readsBack_array hspacing (fun item hitem => hitems item hitem item .self)
      fun item hitem => ih item hitem (hitems item hitem)
  | object members ih =>
    have hmembers := (forall_part_object.mp h).2
    exact readsBack_object hspacing fun member hmember =>
      ih member hmember (hmembers member hmember)

/-! ### Whole texts -/

/-- The text of a value is read into its tree, and nothing is left. -/
theorem ofText_written (hspacing : spacing.IsBlank) {j : Json} (h : ∀ v, Part v j → v.NumberFits)
    (depth : Nat) : Tree.ofText (String.ofList (j.written spacing depth)) = (j.tree, false) := by
  have hread := readValue_written hspacing h (2 * (j.written spacing depth).length + 1) depth [] []
    (List.forall_mem_nil _) (by omega) (fun c hc => by cases hc)
  rw [List.nil_append, List.append_nil] at hread
  rw [Tree.ofText, String.length_ofList, String.toList_ofList, hread]
  rfl

/-- **The tree of a value holds the value**, if it does not nest too deep. -/
theorem value_tree {j : Json} {room : Nat} (h : j.depth ≤ room) : j.tree.value room = .ok j := by
  induction j using Json.induction generalizing room with
  | null => rfl
  | bool b => rfl
  | number n => rfl
  | string s => rfl
  | array items ih =>
    rcases room with _ | room
    · exact absurd h (Nat.not_succ_le_zero _)
    have hvalues : ∀ l : List Json, (∀ item ∈ l, item ∈ items) →
        itemValues room (itemTrees l) = .ok l := by
      intro l hl
      induction l with
      | nil => rfl
      | cons item l ihl =>
        obtain ⟨hitem, hl⟩ := List.forall_mem_cons.mp hl
        rw [itemTrees, itemValues, ih item hitem (depth_array_le_iff.mp h item hitem), ihl hl]
        rfl
    rw [tree, Tree.value, hvalues items fun _ hitem => hitem]
    rfl
  | object members ih =>
    rcases room with _ | room
    · exact absurd h (Nat.not_succ_le_zero _)
    have hvalues : ∀ l : List (String × Json), (∀ member ∈ l, member ∈ members) →
        memberValues room (memberTrees l) = .ok l := by
      intro l hl
      induction l with
      | nil => rfl
      | cons member l ihl =>
        obtain ⟨hmember, hl⟩ := List.forall_mem_cons.mp hl
        rw [memberTrees, memberValues, ih member hmember (depth_object_le_iff.mp h member hmember),
          ihl hl]
        rfl
    rw [tree, Tree.value, hvalues members fun _ hmember => hmember]
    rfl

mutual

/-- **What is kept of a tree** is what the tree holds, and nests no deeper than there is room. -/
theorem tree_and_depth_of_value (room : Nat) (t : Tree) (j : Json) (h : t.value room = .ok j) :
    t = j.tree ∧ j.depth ≤ room := by
  match t with
  | .null | .bool _ | .number (some _) | .string (some _) =>
    obtain rfl := Except.ok.inj h
    exact ⟨rfl, Nat.zero_le room⟩
  | .number none | .string none | .broken _ => cases h
  | .array items close =>
    rcases room with _ | room
    · cases h
    rw [Tree.value] at h
    rcases hitems : itemValues room items with e | values
    · rw [hitems] at h
      cases h
    obtain ⟨htrees, hdepth⟩ := trees_and_depth_of_itemValues room items values hitems
    rw [hitems] at h
    rcases close with _ | stop
    · obtain rfl := Except.ok.inj h
      exact ⟨by rw [tree, htrees], Nat.succ_le_succ hdepth⟩
    · cases h
  | .object members close =>
    rcases room with _ | room
    · cases h
    rw [Tree.value] at h
    rcases hmembers : memberValues room members with e | values
    · rw [hmembers] at h
      cases h
    obtain ⟨htrees, hdepth⟩ := trees_and_depth_of_memberValues room members values hmembers
    rw [hmembers] at h
    rcases close with _ | stop
    · obtain rfl := Except.ok.inj h
      exact ⟨by rw [tree, htrees], Nat.succ_le_succ hdepth⟩
    · cases h

theorem trees_and_depth_of_itemValues (room : Nat) (items : List Tree) (values : List Json)
    (h : itemValues room items = .ok values) :
    items = itemTrees values ∧ itemsDepth values ≤ room := by
  match items with
  | [] =>
    obtain rfl := Except.ok.inj h
    exact ⟨rfl, Nat.zero_le room⟩
  | item :: items =>
    rw [itemValues] at h
    rcases hitem : item.value room with e | value
    · rw [hitem] at h
      cases h
    rcases hitems : itemValues room items with e | values
    · rw [hitem, hitems] at h
      cases h
    rw [hitem, hitems] at h
    obtain rfl := Except.ok.inj h
    obtain ⟨htree, hdepth⟩ := tree_and_depth_of_value room item value hitem
    obtain ⟨htrees, hdepths⟩ := trees_and_depth_of_itemValues room items values hitems
    exact ⟨by rw [itemTrees, htree, htrees], Nat.max_le.mpr ⟨hdepth, hdepths⟩⟩

theorem trees_and_depth_of_memberValues (room : Nat) (members : List (Option String × Tree))
    (values : List (String × Json)) (h : memberValues room members = .ok values) :
    members = memberTrees values ∧ membersDepth values ≤ room := by
  match members with
  | [] =>
    obtain rfl := Except.ok.inj h
    exact ⟨rfl, Nat.zero_le room⟩
  | (key, value) :: members =>
    rw [memberValues] at h
    rcases key with _ | key
    · cases h
    rcases hvalue : value.value room with e | j
    · rw [hvalue] at h
      cases h
    rcases hmembers : memberValues room members with e | values
    · rw [hvalue, hmembers] at h
      cases h
    rw [hvalue, hmembers] at h
    obtain rfl := Except.ok.inj h
    obtain ⟨htree, hdepth⟩ := tree_and_depth_of_value room value j hvalue
    obtain ⟨htrees, hdepths⟩ := trees_and_depth_of_memberValues room members values hmembers
    exact ⟨by rw [memberTrees, htree, htrees], Nat.max_le.mpr ⟨hdepth, hdepths⟩⟩

end

/-- What is decoded from a text is read from its tree. -/
theorem read_of_decode {α : Type} {read : Text → Except Fault α} {text : String} {a : α}
    (h : decode read text = .ok a) : read ⟨(Tree.ofText text).1, maxDepth⟩ = .ok a := by
  rw [decode] at h
  rcases hread : read ⟨(Tree.ofText text).1, maxDepth⟩ with e | b
  · simp only [bind, Except.bind, hread] at h
    cases h
  · simp only [bind, Except.bind, hread] at h
    split at h
    · cases h
    · exact h

/-- A format that is decoded from the text of a value is read from its tree. -/
theorem decode_written {α : Type} (hspacing : spacing.IsBlank) {j : Json}
    (h : ∀ v, Part v j → v.NumberFits) (depth : Nat) (read : Text → Except Fault α) :
    decode read (String.ofList (j.written spacing depth)) = read ⟨j.tree, maxDepth⟩ := by
  rw [decode, ofText_written hspacing h]
  rcases hread : read ⟨j.tree, maxDepth⟩ with e | a
  · simp only [hread]
    rfl
  · simp only [hread]
    rfl

/-- **A value that is written indented is read back.** -/
theorem ofText_pretty {j : Json} (h : Fits maxDepth j) : ofText j.pretty = .ok j :=
  (decode_written Spacing.isBlank_indented h.numberFits 0 _).trans (value_tree h.depth_le)

/-- **A value that is written without blanks is read back.** -/
theorem ofText_compact {j : Json} (h : Fits maxDepth j) : ofText j.compact = .ok j :=
  (decode_written Spacing.isBlank_compact h.numberFits 0 _).trans (value_tree h.depth_le)

end Json

end ApiAnnotation
