import ApiAnnotation.Proofs.Text.Trim
import ApiAnnotation.Text.Lowercase

/-!
# Lower case is stable

A text in lower case stays as it is when it is put into lower case again, and the white space of a
text is kept (`ApiAnnotation.Text.toLower_toLower`, `ApiAnnotation.Text.filter_isBlank_toLower`).

Both rest on the tables, of which one thing has to be known: a small letter is found neither among
the capitals of the same table nor among the few other code points that are treated apart. A run of
small letters can lie within a run of capitals, where the two alternate, so it is not enough to
compare where runs start and end. `ApiAnnotation.CaseRun.misses` says when two runs have nothing in
common, and the tables are checked run by run.

The forms of sigma depend on the text around it. They do so only once: what a capital sigma becomes
is a small letter whatever stands around it.

## Main statements

* `ApiAnnotation.Text.isSmall_of_mem_toLower`: the characters of a text in lower case are small.
* `ApiAnnotation.Text.toLower_eq_self`: small characters are left as they are.
-/

namespace ApiAnnotation

variable {c d : Char} {n : Nat}

/-! ### The tables -/

/-- The small letters of a run of capitals. -/
def CaseRun.lowered (run : CaseRun) : CaseRun :=
  ⟨(run.first + run.shift).toNat, (run.last + run.shift).toNat, run.step, 0⟩

theorem CaseRun.lowered_contains {run : CaseRun} (hn : run.contains n = true)
    (hlow : 0 ≤ run.first + run.shift) : run.lowered.contains (n + run.shift).toNat = true := by
  simp only [contains, Bool.and_eq_true, decide_eq_true_eq, beq_iff_eq] at hn
  obtain ⟨⟨hfirst, hlast⟩, hstep⟩ := hn
  have hlower : run.lowered.first ≤ (n + run.shift).toNat ∧
      (n + run.shift).toNat ≤ run.lowered.last := by
    constructor <;> exact Int.toNat_le_toNat (by omega)
  have hdistance : (n + run.shift).toNat - run.lowered.first = n - run.first := by
    show _ - (run.first + run.shift).toNat = _
    omega
  simp only [contains, hlower, hdistance, decide_true, Bool.and_true, Bool.true_and, beq_iff_eq]
  exact hstep

/-- Whether two runs have nothing in common: they lie apart, or they alternate. -/
def CaseRun.misses (run other : CaseRun) : Bool :=
  run.last.blt other.first || other.last.blt run.first ||
    ((run.step.beq 2 || run.first.beq run.last) && other.step.beq 2 &&
      ((run.first + other.first) % 2).beq 1)

theorem CaseRun.not_contains_of_misses {run other : CaseRun} (h : run.misses other = true)
    (hn : run.contains n = true) : other.contains n = false := by
  simp only [contains, Bool.and_eq_true, decide_eq_true_eq, beq_iff_eq] at hn
  obtain ⟨⟨hfirst, hlast⟩, hstep⟩ := hn
  simp only [misses, Bool.or_eq_true, Bool.and_eq_true, Nat.blt_eq, Nat.beq_eq] at h
  by_contra hother
  simp only [contains, Bool.not_eq_false, Bool.and_eq_true, decide_eq_true_eq, beq_iff_eq] at hother
  obtain ⟨⟨hfirst', hlast'⟩, hstep'⟩ := hother
  rcases h with (h | h) | ⟨⟨h | h, htwo⟩, hodd⟩
  · omega
  · omega
  · -- each leaves out what the other holds
    rw [h] at hstep
    rw [htwo] at hstep'
    omega
  · rw [htwo] at hstep'
    omega

/-- The code points that are treated apart: the capital with two small letters, those of white
space, and those that are no characters. -/
def reservedRuns : List CaseRun :=
  [⟨0x130, 0x130, 1, 0⟩, ⟨0xD800, 0xDFFF, 1, 0⟩] ++ blankCodes.map fun n => ⟨n, n, 1, 0⟩

/-- **The small letters of the tables** are neither capitals nor treated apart. -/
theorem misses_of_mem_caseRuns : ∀ run ∈ caseRuns,
    (∀ other ∈ caseRuns ++ reservedRuns, run.lowered.misses other = true) ∧
      0 ≤ run.first + run.shift ∧ run.last + run.shift < 0x110000 := by
  have hmisses : (caseRuns.all fun run =>
      (caseRuns ++ reservedRuns).all (run.lowered.misses ·) &&
        (decide (0 ≤ run.first + run.shift) &&
          decide (run.last + run.shift < 0x110000))) = true := by
    decide +kernel
  simpa only [List.all_eq_true, Bool.and_eq_true, decide_eq_true_eq] using hmisses

/-- The capitals of the tables are not white space. -/
theorem isBlank_eq_false_of_contains {run : CaseRun} (hrun : run ∈ caseRuns)
    (hc : run.contains c.toNat = true) : isBlank c = false := by
  have hblanks : ∀ n ∈ blankCodes, (caseRuns.all fun run => !run.contains n) = true := by
    decide +kernel
  by_contra hblank
  have hall := List.all_eq_true.mp
    (hblanks c.toNat (toNat_mem_blankCodes ((Bool.not_eq_false _).mp hblank))) run hrun
  rw [hc] at hall
  exact absurd hall Bool.false_ne_true

/-! ### Characters -/

/-- **Characters that are not capitals.** -/
structure IsSmall (c : Char) : Prop where
  /-- No run of capitals holds the character. -/
  runs : ∀ run ∈ caseRuns, run.contains c.toNat = false
  /-- Nor is it the capital that has two small letters. -/
  dotted : c.toNat ≠ 0x130

instance (c : Char) : Decidable (IsSmall c) :=
  decidable_of_iff ((∀ run ∈ caseRuns, run.contains c.toNat = false) ∧ c.toNat ≠ 0x130)
    ⟨fun h => ⟨h.1, h.2⟩, fun h => ⟨h.1, h.2⟩⟩

/-- A code point that is not that of a surrogate is the code point of a character. -/
theorem toNat_ofNat_of_lt (hn : n < 0x110000) (hsurrogate : n < 0xD800 ∨ 0xDFFF < n) :
    (Char.ofNat n).toNat = n := by
  have hvalid : n.isValidChar := hsurrogate.imp id fun h => ⟨h, hn⟩
  rw [Char.ofNat, dif_pos hvalid]
  rfl

/-- What becomes of a character in a run is small, and neither is white space. -/
theorem isSmall_of_contains {run : CaseRun} (hrun : run ∈ caseRuns)
    (hc : run.contains c.toNat = true) :
    IsSmall (Char.ofNat (Int.toNat (c.toNat + run.shift))) ∧
      isBlank (Char.ofNat (Int.toNat (c.toNat + run.shift))) = false := by
  obtain ⟨hmisses, hlow, hhigh⟩ := misses_of_mem_caseRuns run hrun
  have hbounds : run.first ≤ c.toNat ∧ c.toNat ≤ run.last := by
    simp only [CaseRun.contains, Bool.and_eq_true, decide_eq_true_eq] at hc
    exact hc.1
  obtain ⟨n, hn⟩ : ∃ n, n = (c.toNat + run.shift).toNat := ⟨_, rfl⟩
  rw [← hn]
  have hmissed : ∀ other ∈ caseRuns ++ reservedRuns, other.contains n = false :=
    fun other hother => CaseRun.not_contains_of_misses (hmisses other hother)
      (hn ▸ CaseRun.lowered_contains hc hlow)
  have hreserved : ∀ first last, ⟨first, last, 1, 0⟩ ∈ reservedRuns → ¬(first ≤ n ∧ n ≤ last) := by
    intro first last hmem hbetween
    have hcontains := hmissed _ (List.mem_append_right _ hmem)
    simp [CaseRun.contains, hbetween, Nat.mod_one] at hcontains
  have hsurrogate := hreserved 0xD800 0xDFFF (by simp [reservedRuns])
  have htoNat : (Char.ofNat n).toNat = n := toNat_ofNat_of_lt (by omega) (by omega)
  refine ⟨⟨fun other hother => ?_, ?_⟩, ?_⟩
  · rw [htoNat]
    exact hmissed other (List.mem_append_left _ hother)
  · have hdotted := hreserved 0x130 0x130 (by simp [reservedRuns])
    omega
  · by_contra hblank
    have hcode := toNat_mem_blankCodes ((Bool.not_eq_false _).mp hblank)
    rw [htoNat] at hcode
    exact hreserved n n (List.mem_append_right _ (List.mem_map.mpr ⟨n, hcode, rfl⟩))
      ⟨Nat.le_refl n, Nat.le_refl n⟩

/-- **What becomes of a character** that has no form of its own: it stays if it is small, and else
it becomes a small one, and neither is white space. -/
theorem lowerOfRuns_cases (hdotted : c.toNat ≠ 0x130) :
    (IsSmall c ∧ lowerOfRuns c = c) ∨
      IsSmall (lowerOfRuns c) ∧ isBlank (lowerOfRuns c) = false ∧ isBlank c = false := by
  rcases hfind : caseRuns.find? (·.contains c.toNat) with _ | run
  · rw [lowerOfRuns, hfind]
    refine Or.inl ⟨⟨fun run hrun => ?_, hdotted⟩, rfl⟩
    exact Bool.eq_false_iff.mpr (List.find?_eq_none.mp hfind run hrun)
  · have hrun := List.mem_of_find?_eq_some hfind
    have hc := List.find?_some hfind
    rw [lowerOfRuns, hfind]
    obtain ⟨hsmall, hblank⟩ := isSmall_of_contains hrun hc
    exact Or.inr ⟨hsmall, hblank, isBlank_eq_false_of_contains hrun hc⟩

/-- The tables say the same of ASCII as ASCII does: its capitals are the first run. -/
theorem toLower_eq_lowerOfRuns (h : c.toNat < 0x80) : c.toLower = lowerOfRuns c := by
  have hascii : ∀ n < 0x80, (Char.ofNat n).toLower =
      if (CaseRun.mk 0x41 0x5A 1 32).contains n then Char.ofNat (n + 32) else Char.ofNat n := by
    decide +kernel
  have hlower := hascii c.toNat h
  have hlater : ∀ run ∈ caseRuns.tail, 0x80 ≤ run.first := by decide +kernel
  have hnone : caseRuns.tail.find? (·.contains c.toNat) = none := by
    refine List.find?_eq_none.mpr fun run hrun => ?_
    have hfirst := hlater run hrun
    simp only [CaseRun.contains, Bool.and_eq_true, decide_eq_true_eq]
    omega
  have hruns : caseRuns = ⟨0x41, 0x5A, 1, 32⟩ :: caseRuns.tail := rfl
  rw [Char.ofNat_toNat] at hlower
  rw [hlower, lowerOfRuns, hruns, List.find?_cons, hnone]
  split
  · next hcontains => rw [hcontains]; rfl
  · next hcontains => rw [Bool.eq_false_iff.mpr hcontains]

theorem lowerCase_eq (hdotted : c.toNat ≠ 0x130) : lowerCase c = [lowerOfRuns c] := by
  rw [lowerCase]
  split
  · next hlt => rw [toLower_eq_lowerOfRuns hlt]
  · rw [if_neg (by simpa using hdotted)]

theorem lowerCase_of_isSmall (h : IsSmall c) : lowerCase c = [c] := by
  have hfind : caseRuns.find? (·.contains c.toNat) = none :=
    List.find?_eq_none.mpr fun run hrun => Bool.eq_false_iff.mp (h.runs run hrun)
  rw [lowerCase_eq h.dotted, lowerOfRuns, hfind]

/-- **One character becomes small ones**, and white space stays what it is. -/
theorem lowerCase_spec (c : Char) :
    (∀ d ∈ lowerCase c, IsSmall d) ∧ (lowerCase c).filter isBlank = [c].filter isBlank := by
  by_cases hdotted : c.toNat = 0x130
  · obtain rfl : c = Char.ofNat 0x130 := by rw [← hdotted, Char.ofNat_toNat]
    have hsmall : ((lowerCase (Char.ofNat 0x130)).all fun d => decide (IsSmall d)) = true := by
      decide +kernel
    exact ⟨fun d hd => of_decide_eq_true (List.all_eq_true.mp hsmall d hd), by decide +kernel⟩
  · rw [lowerCase_eq hdotted]
    rcases lowerOfRuns_cases hdotted with ⟨hsmall, hsame⟩ | ⟨hsmall, hblank, hblank'⟩
    · rw [hsame]
      exact ⟨List.forall_mem_singleton.mpr hsmall, rfl⟩
    · refine ⟨List.forall_mem_singleton.mpr hsmall, ?_⟩
      simp [hblank, hblank']

/-! ### Texts -/

/-- What becomes of a character in a text, given the texts before and behind it. -/
theorem lowerFrom_cons (before : List Char) (c : Char) (cs : List Char) :
    ∃ lower, lowerFrom before (c :: cs) = lower ++ lowerFrom (c :: before) cs ∧
      (∀ d ∈ lower, IsSmall d) ∧ lower.filter isBlank = [c].filter isBlank ∧
      (IsSmall c → lower = [c]) := by
  rw [lowerFrom]
  refine ⟨_, rfl, ?_⟩
  by_cases hsigma : c.toNat = 0x3A3
  · obtain rfl : c = Char.ofNat 0x3A3 := by rw [← hsigma, Char.ofNat_toNat]
    -- either form of sigma will do
    have hcapital : ¬IsSmall (Char.ofNat 0x3A3) := by decide +kernel
    have hfinal : IsSmall (Char.ofNat 0x3C2) ∧ IsSmall (Char.ofNat 0x3C3) := by decide +kernel
    rw [if_pos (by decide)]
    split
    · exact ⟨List.forall_mem_singleton.mpr hfinal.1, by decide, fun h => absurd h hcapital⟩
    · exact ⟨List.forall_mem_singleton.mpr hfinal.2, by decide, fun h => absurd h hcapital⟩
  · rw [if_neg (by simpa using hsigma)]
    exact ⟨(lowerCase_spec c).1, (lowerCase_spec c).2, lowerCase_of_isSmall⟩

theorem isSmall_of_mem_lowerFrom {before cs : List Char} (hd : d ∈ lowerFrom before cs) :
    IsSmall d := by
  induction cs generalizing before with
  | nil => exact absurd hd List.not_mem_nil
  | cons c cs ih =>
    obtain ⟨lower, hlower, hsmall, -, -⟩ := lowerFrom_cons before c cs
    rw [hlower] at hd
    exact (List.mem_append.mp hd).elim (hsmall d) ih

theorem lowerFrom_eq_self {before cs : List Char} (h : ∀ c ∈ cs, IsSmall c) :
    lowerFrom before cs = cs := by
  induction cs generalizing before with
  | nil => rfl
  | cons c cs ih =>
    obtain ⟨hc, hcs⟩ := List.forall_mem_cons.mp h
    obtain ⟨lower, hlower, -, -, hself⟩ := lowerFrom_cons before c cs
    rw [hlower, hself hc, ih hcs]
    rfl

theorem filter_isBlank_lowerFrom (before cs : List Char) :
    (lowerFrom before cs).filter isBlank = cs.filter isBlank := by
  induction cs generalizing before with
  | nil => rfl
  | cons c cs ih =>
    obtain ⟨lower, hlower, -, hblank, -⟩ := lowerFrom_cons before c cs
    rw [hlower, List.filter_append, hblank, ih, ← List.filter_append]
    rfl

namespace Text

/-- **The characters of a text in lower case are small.** -/
theorem isSmall_of_mem_toLower {cs : List Char} (hd : d ∈ toLower cs) : IsSmall d :=
  isSmall_of_mem_lowerFrom hd

/-- Small characters are left as they are. -/
theorem toLower_eq_self {cs : List Char} (h : ∀ c ∈ cs, IsSmall c) : toLower cs = cs :=
  lowerFrom_eq_self h

/-- **A text in lower case stays as it is.** -/
theorem toLower_toLower (cs : List Char) : toLower (toLower cs) = toLower cs :=
  toLower_eq_self fun _ => isSmall_of_mem_toLower

/-- **White space is kept**, and none comes in. -/
theorem filter_isBlank_toLower (cs : List Char) :
    (toLower cs).filter isBlank = cs.filter isBlank :=
  filter_isBlank_lowerFrom [] cs

/-- White space stands in a text in lower case exactly if it stands in the text. -/
theorem mem_toLower_iff_of_isBlank {cs : List Char} (hc : isBlank c = true) :
    c ∈ toLower cs ↔ c ∈ cs := by
  have hmem : ∀ ds : List Char, c ∈ ds ↔ c ∈ ds.filter isBlank := fun ds => by
    simp [List.mem_filter, hc]
  rw [hmem, filter_isBlank_toLower, ← hmem]

end Text

end ApiAnnotation
