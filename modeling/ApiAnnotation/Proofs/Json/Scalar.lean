import ApiAnnotation.Json.Tree
import ApiAnnotation.Json.Written
import ApiAnnotation.Proofs.Json.Part

/-!
# Reading written numbers and texts

A number and a text in quotes are read back as they were written. The digits of an integer end where
no digit follows, so this needs to know something of the text after it
(`ApiAnnotation.Json.Stops`); a text in quotes says itself where it ends.

## Main statements

* `ApiAnnotation.Json.readNumeral_textOfInt`: the numeral of a written integer.
* `ApiAnnotation.Json.Numeral.value?_ofInt`: the number of that numeral.
* `ApiAnnotation.Json.readQuoted_quote`: a written text.
-/

namespace ApiAnnotation

namespace Json

/-! ### Digits -/

namespace Numeral

theorem digitValue_digitChar {d : Nat} (h : d < 10) : digitValue d.digitChar = d := by
  have hdigits : ∀ d < 10, digitValue (Nat.digitChar d) = d := by decide
  exact hdigits d h

/-- Digits that fit are followed by more. -/
theorem absorb_append {n m : Nat} {cs : List Char} (h : absorb n cs = (m, [])) (ds : List Char) :
    absorb n (cs ++ ds) = absorb m ds := by
  induction cs generalizing n with
  | nil =>
    obtain ⟨rfl, -⟩ := Prod.mk.inj h
    rfl
  | cons c cs ih =>
    rw [absorb] at h
    rw [List.cons_append, absorb]
    split at h
    · next hfits =>
      rw [if_pos hfits]
      exact ih h
    · exact absurd (Prod.mk.inj h).2 (List.cons_ne_nil c cs)

/-- The digits of a number of 64 bits fit, and their value is that number. -/
theorem absorb_toDigits {n : Nat} (h : n < wordSize) : absorb 0 (Nat.toDigits 10 n) = (n, []) := by
  induction n using Nat.strongRecOn with
  | ind n ih =>
    by_cases hsmall : n < 10
    · rw [Nat.toDigits_of_lt_base hsmall, absorb]
      simp only [digitValue_digitChar hsmall, Nat.zero_mul, Nat.zero_add, h, if_true]
      rfl
    · have hquotient : absorb 0 (Nat.toDigits 10 (n / 10)) = (n / 10, []) :=
        ih (n / 10) (by omega) (by omega)
      have hdigit : digitValue (n % 10).digitChar = n % 10 := digitValue_digitChar (by omega)
      have hvalue : n / 10 * 10 + n % 10 = n := by omega
      rw [Nat.toDigits_of_base_le (by omega) (by omega), absorb_append hquotient, absorb]
      simp only [hdigit, hvalue, h, if_true]
      rfl

end Numeral

/-- A number above zero has no zero in front. -/
theorem head?_toDigits_ne {n : Nat} (h : 0 < n) : (Nat.toDigits 10 n).head? ≠ some '0' := by
  induction n using Nat.strongRecOn with
  | ind n ih =>
    by_cases hsmall : n < 10
    · have hdigits : ∀ d < 10, 0 < d → some (Nat.digitChar d) ≠ some '0' := by decide
      rw [Nat.toDigits_of_lt_base hsmall]
      exact hdigits n hsmall h
    · have hquotient := ih (n / 10) (by omega) (by omega)
      obtain ⟨c, cs, hcs⟩ :=
        List.exists_cons_of_ne_nil (Nat.toDigits_ne_nil (n := n / 10) (b := 10))
      rw [Nat.toDigits_of_base_le (by omega) (by omega), hcs]
      rwa [hcs] at hquotient

/-! ### Integers -/

/-- **Whether a text may follow a number**, with none of its characters taken for a part of it. -/
def Stops (rest : List Char) : Prop :=
  ∀ c ∈ rest.head?, c.isDigit = false ∧ c ≠ '.' ∧ c ≠ 'e' ∧ c ≠ 'E'

variable {rest : List Char}

theorem Stops.span_isDigit (h : Stops rest) :
    rest.takeWhile Char.isDigit = [] ∧ rest.dropWhile Char.isDigit = rest := by
  rcases rest with _ | ⟨c, cs⟩
  · exact ⟨rfl, rfl⟩
  · have hc : ¬c.isDigit = true := by
      rw [(h c rfl).1]
      exact Bool.false_ne_true
    exact ⟨List.takeWhile_cons_of_neg hc, List.dropWhile_cons_of_neg hc⟩

/-- The digits of an integer end where no digit follows. -/
theorem readWhole_toDigits (n : Nat) (h : Stops rest) :
    readWhole (Nat.toDigits 10 n ++ rest) = .ok (Nat.toDigits 10 n, rest) := by
  have hdigits : ∀ c ∈ Nat.toDigits 10 n, c.isDigit = true := fun c hc =>
    Nat.isDigit_of_mem_toDigits (by omega) (by omega) hc
  obtain ⟨htake, hdrop⟩ := h.span_isDigit
  rw [readWhole, List.takeWhile_append_of_pos hdigits, List.dropWhile_append_of_pos hdigits, htake,
    hdrop, List.append_nil]
  rcases Nat.eq_zero_or_pos n with rfl | hpos
  · rfl
  · have hhead := head?_toDigits_ne hpos
    have hne : Nat.toDigits 10 n ≠ [] := Nat.toDigits_ne_nil
    split
    · next hnil => exact absurd hnil hne
    · next hzero =>
      rw [hzero] at hhead
      exact absurd rfl hhead
    · rfl

theorem readFraction_of_stops (h : Stops rest) : readFraction rest = .ok ([], rest) := by
  rw [readFraction.eq_def]
  split
  · exact absurd rfl (h '.' rfl).2.1
  · rfl

theorem readExponent_of_stops (h : Stops rest) : readExponent rest = .ok (none, rest) := by
  rcases rest with _ | ⟨c, cs⟩
  · rfl
  · obtain ⟨-, -, he, hE⟩ := h c rfl
    have hnone : ¬(decide (c = 'e') || decide (c = 'E')) = true := by
      rw [Bool.or_eq_true, decide_eq_true_eq, decide_eq_true_eq]
      exact not_or.mpr ⟨he, hE⟩
    rw [readExponent.eq_def]
    exact if_neg hnone

/-- The numeral that an integer is written as. -/
def Numeral.ofInt (k : Int) : Numeral where
  negative := k < 0
  whole := Nat.toDigits 10 k.natAbs

/-- **A written integer is read as its numeral.** -/
theorem readNumeral_textOfInt (k : Int) (h : Stops rest) :
    readNumeral (Number.textOfInt k ++ rest) = .ok (Numeral.ofInt k, rest) := by
  rcases k with n | n
  · have hnegative : decide ((Int.ofNat n) < 0) = false := by simp
    rw [Number.textOfInt, Number.digitsOf, Numeral.ofInt, hnegative, readNumeral]
    · simp only [readWhole_toDigits n h, readFraction_of_stops h, readExponent_of_stops h, bind,
        Except.bind]
      rfl
    · -- no digit is a sign
      intro cs hcs
      have hdigit : ('-' : Char).isDigit = true := by
        obtain ⟨c, ds, hds⟩ := List.exists_cons_of_ne_nil (Nat.toDigits_ne_nil (n := n) (b := 10))
        rw [hds] at hcs
        obtain rfl : c = '-' := (List.cons.inj hcs).1
        exact Nat.isDigit_of_mem_toDigits (by omega) (by omega) (hds ▸ List.mem_cons_self)
      exact absurd hdigit (by decide)
  · have hnegative : decide (Int.negSucc n < 0) = true := by simp
    rw [Number.textOfInt, Number.digitsOf, Numeral.ofInt, hnegative, List.cons_append, readNumeral]
    simp only [readWhole_toDigits (n + 1) h, readFraction_of_stops h, readExponent_of_stops h, bind,
      Except.bind]
    rfl

namespace Numeral

theorem value?_ofInt {k : Int} (hlo : -2 ^ 63 ≤ k) (hhi : k < 2 ^ 64) :
    (ofInt k).value? = some (.int k) := by
  have hword : wordSize = 2 ^ 64 := rfl
  have habsorb : absorb 0 (Nat.toDigits 10 k.natAbs) = (k.natAbs, []) :=
    absorb_toDigits (by omega)
  have hint : (ofInt k).int? = some k := by
    rw [int?, ofInt]
    simp only [habsorb]
    by_cases hk : k < 0
    · have hfits : ¬(decide (k.natAbs = 0) || decide (wordSize / 2 < k.natAbs)) = true := by
        rw [Bool.or_eq_true, decide_eq_true_eq, decide_eq_true_eq]
        omega
      rw [decide_eq_true hk]
      exact (if_neg hfits).trans (congrArg some (by omega))
    · rw [decide_eq_false hk]
      exact congrArg some (by omega)
  rw [value?, hint]

end Numeral

/-! ### Texts in quotes -/

/-- The digits of a control character are those of its code. -/
theorem unit?_hexDigit {n : Nat} (h : n < 32) :
    unit? '0' '0' (hexDigit (n / 16)) (hexDigit n) = some n := by
  have hunits : ∀ n < 32, unit? '0' '0' (hexDigit (n / 16)) (hexDigit n) = some n := by decide
  exact hunits n h

/-- A control character is no half of a pair. -/
theorem Piece.ofUnit_toNat {c : Char} (h : c < ' ') : ofUnit c.toNat = char c := by
  have hc : c.toNat < 32 := h
  have hhalf : ¬(isLead c.toNat || isTrail c.toNat) = true := by
    simp [isLead, isTrail]
    omega
  rw [ofUnit, if_neg hhalf, Char.ofNat_toNat]

/-- **An escaped character is read as that character.** -/
theorem readPieces_escape (c : Char) (cs : List Char) :
    readPieces (escape c ++ cs) = (.char c :: (readPieces cs).1, (readPieces cs).2) := by
  rw [escape]
  -- seven characters are escaped by a letter
  iterate 7
    split
    · next hc =>
      subst hc
      rfl
  split
  · next hcontrol =>
    have hunit : unit? '0' '0' (hexDigit (c.toNat / 16)) (hexDigit c.toNat) = some c.toNat :=
      unit?_hexDigit hcontrol
    show readPieces ('\\' :: 'u' :: '0' :: '0' :: _ :: _ :: cs) = _
    rw [readPieces, hunit]
    simp only [Piece.ofUnit_toNat hcontrol]
  · next hquote hescape _ _ _ _ _ hcontrol =>
    rw [List.singleton_append, readPieces.eq_def]
    split
    · next heq => cases heq
    · next heq => exact absurd (List.cons.inj heq).1 hquote
    · next heq => exact absurd (List.cons.inj heq).1 hescape
    · next heq =>
      obtain ⟨rfl, rfl⟩ := List.cons.inj heq
      rw [if_neg hcontrol]

theorem readPieces_flatMap_escape (cs rest : List Char) :
    readPieces (cs.flatMap escape ++ '"' :: rest) = (cs.map .char, .ok rest) := by
  induction cs with
  | nil => rfl
  | cons c cs ih =>
    rw [List.flatMap_cons, List.append_assoc, readPieces_escape, ih]
    rfl

theorem Piece.join?_map_char (cs : List Char) : join? (cs.map char) = some cs := by
  induction cs with
  | nil => rfl
  | cons c cs ih =>
    rw [List.map_cons, join?, ih]
    rfl

/-- **A written text is read back.** -/
theorem readQuoted_quote (s : String) (rest : List Char) :
    readQuoted (s.toList.flatMap escape ++ '"' :: rest) = .ok (some s, rest) := by
  rw [readQuoted, readPieces_flatMap_escape]
  simp only [Piece.join?_map_char, Option.map_some, String.ofList_toList]

end Json

end ApiAnnotation
