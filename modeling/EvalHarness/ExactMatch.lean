/-
# Exact match compares words (`app/graders/deterministic.py`)

With its default configuration `grade_exact_match` joins the words of both texts with single spaces,
lower-cases the results and compares.  `exact_match_tokens` says what that comes to: the lists of
lower-cased words are compared, so blanks only separate.

`str.lower` is a parameter of the graders.  What is assumed of it (`Characterwise`) is that it works
character by character and neither makes nor loses a blank.
-/
import EvalHarness.Lib.Words
import EvalHarness.Grades

namespace EvalHarness

open Words (Blank Word Tokens Respaced split)

/-! ## 1. The words of a text -/

theorem words_eq_split (text : String) : words text = split isSpace text.toList := rfl

theorem word_of_mem_words {text : String} {w : List Char} (hw : w ∈ words text) : Word isSpace w :=
  Words.word_of_mem_split hw

/-! ## 2. Lower-casing -/

/-- `lower` makes `f c` of the character `c`, wherever it stands. -/
structure Characterwise (lower : String → String) (f : Char → List Char) : Prop where
  lower_eq : ∀ s, lower s = String.ofList (s.toList.flatMap f)
  space : ∀ c, isSpace c = true → f c = [c]
  solid : ∀ c, isSpace c = false → Word isSpace (f c)

/-- The words of a text, each lower-cased. -/
def loweredWords (lib : Libraries) (text : String) : List String :=
  (words text).map fun w => lib.lower (String.ofList w)

section Lower

variable {lib : Libraries} {f : Char → List Char}

theorem Characterwise.word (h : Characterwise lib.lower f) {w : List Char} (hw : Word isSpace w) :
    Word isSpace (w.flatMap f) := by
  constructor
  · obtain ⟨c, w', rfl⟩ := List.exists_cons_of_ne_nil hw.ne_nil
    have hc := h.solid c (hw.solid c List.mem_cons_self)
    simp [hc.ne_nil]
  · intro d hd
    obtain ⟨c, hc, hdc⟩ := List.mem_flatMap.mp hd
    exact (h.solid c (hw.solid c hc)).solid d hdc

/-- Lower-casing the normalized text lower-cases its words. -/
theorem Characterwise.lower_normalize (h : Characterwise lib.lower f) (text : String) :
    lib.lower (normalizeWhitespace text) =
      String.ofList ([' '].intercalate ((words text).map (·.flatMap f))) := by
  rw [h.lower_eq, normalizeWhitespace, String.toList_ofList,
    Words.flatMap_intercalate (h.space ' ' (by decide))]

theorem Characterwise.loweredWords_eq (h : Characterwise lib.lower f) (text : String) :
    loweredWords lib text = ((words text).map (·.flatMap f)).map String.ofList := by
  unfold loweredWords
  rw [List.map_map]
  refine List.map_congr_left fun w _ => ?_
  rw [h.lower_eq, String.toList_ofList]
  rfl

/-! ## 3. The comparison -/

theorem gradeExactMatch_default (lib : Libraries) (actual expected : String) :
    gradeExactMatch lib actual expected = matchGrade
      (lib.lower (normalizeWhitespace actual) == lib.lower (normalizeWhitespace expected))
      "exact match" := rfl

/-- **Equal words.** -/
theorem passed_iff (h : Characterwise lib.lower f) (actual expected : String) :
    (gradeExactMatch lib actual expected).passed = true ↔
      loweredWords lib actual = loweredWords lib expected := by
  have hword : ∀ (text : String), ∀ w ∈ (words text).map (·.flatMap f), Word isSpace w := by
    intro text w hw
    obtain ⟨v, hv, rfl⟩ := List.mem_map.mp hw
    exact h.word (word_of_mem_words hv)
  have hofList : Function.Injective String.ofList := fun _ _ => String.ofList_inj.mp
  calc (gradeExactMatch lib actual expected).passed = true
      ↔ lib.lower (normalizeWhitespace actual) = lib.lower (normalizeWhitespace expected) := by
        rw [gradeExactMatch_default]
        exact beq_iff_eq
    _ ↔ (words actual).map (·.flatMap f) = (words expected).map (·.flatMap f) := by
        rw [h.lower_normalize, h.lower_normalize, String.ofList_inj]
        exact Words.intercalate_inj (by decide) (hword actual) (hword expected)
    _ ↔ loweredWords lib actual = loweredWords lib expected := by
        rw [h.loweredWords_eq, h.loweredWords_eq]
        exact hofList.list_map.eq_iff.symm

end Lower

theorem normalizeWhitespace_respaced {text text' : String}
    (h : Respaced isSpace text.toList text'.toList) :
    normalizeWhitespace text = normalizeWhitespace text' := by
  unfold normalizeWhitespace
  rw [words_eq_split, words_eq_split, Words.split_respaced h]

/-- **Exact match means equal token sequences.**  The words are the maximal runs without a blank; a
text passes when the lower-cased lists agree, which is an equivalence, and respacing either text
changes no grade. -/
theorem exact_match_tokens {lib : Libraries} {f : Char → List Char}
    (h : Characterwise lib.lower f) :
    (∀ (text : String) ws, Tokens isSpace text.toList ws ↔ words text = ws) ∧
      (∀ actual expected, let grade := gradeExactMatch lib actual expected
        (grade.passed = true ↔ loweredWords lib actual = loweredWords lib expected) ∧
          grade.score = if grade.passed then 1000 else 0) ∧
      Equivalence (fun actual expected => (gradeExactMatch lib actual expected).passed = true) ∧
      ∀ text text' other : String, Respaced isSpace text.toList text'.toList →
        gradeExactMatch lib text other = gradeExactMatch lib text' other ∧
          gradeExactMatch lib other text = gradeExactMatch lib other text' := by
  refine ⟨fun text ws => Words.tokens_iff,
    fun actual expected => ⟨passed_iff h actual expected, rfl⟩,
    ⟨fun a => ?_, fun {a b} hab => ?_, fun {a b c} hab hbc => ?_⟩, fun text text' other hsp => ?_⟩
  · exact (passed_iff h a a).mpr rfl
  · exact (passed_iff h b a).mpr ((passed_iff h a b).mp hab).symm
  · exact (passed_iff h a c).mpr (((passed_iff h a b).mp hab).trans ((passed_iff h b c).mp hbc))
  · simp only [gradeExactMatch_default, normalizeWhitespace_respaced hsp, and_self]

/-! ## 4. ASCII -/

/-- Only the capital letters are moved. -/
theorem toLower_cases (c : Char) :
    c.toLower = c ∨ (65 ≤ c.toNat ∧ c.toNat ≤ 90) ∧ c.toLower.toNat = c.toNat + 32 := by
  by_cases hc : c.val ≥ 'A'.val ∧ c.val ≤ 'Z'.val
  · right
    have hval : c.toLower.toNat = (c.val + 32).toNat := congrArg Char.toNat (dif_pos hc)
    obtain ⟨hlo, hhi⟩ := hc
    have hlo : 65 ≤ c.toNat := UInt32.le_iff_toNat_le.mp hlo
    have hhi : c.toNat ≤ 90 := UInt32.le_iff_toNat_le.mp hhi
    refine ⟨⟨hlo, hhi⟩, ?_⟩
    rw [hval, UInt32.toNat_add]
    exact Nat.mod_eq_of_lt (by simp; omega)
  · exact .inl (dif_neg hc)

/-- Between `A` and `z` there is no blank. -/
theorem isSpace_of_letter {c : Char} (h : 65 ≤ c.toNat ∧ c.toNat ≤ 122) : isSpace c = false := by
  unfold isSpace Py.isSpace
  simp
  omega

/-- ASCII lower-casing neither makes nor loses a blank. -/
theorem characterwise_toLower : Characterwise String.toLower fun c => [c.toLower] where
  lower_eq s := by
    rw [← String.toList_inj, String.toList_ofList, ← List.map_eq_flatMap]
    exact String.toList_map
  space c hc := by
    obtain h | ⟨hcapital, -⟩ := toLower_cases c
    · rw [h]
    · rw [isSpace_of_letter (by omega)] at hc
      cases hc
  solid c hc := by
    refine ⟨List.cons_ne_nil _ _, fun d hd => ?_⟩
    obtain rfl : d = c.toLower := by simpa using hd
    obtain h | ⟨hcapital, hlower⟩ := toLower_cases c
    · rw [h, hc]
    · exact isSpace_of_letter (by omega)

/-- A tab, a run of spaces and a blank at the end count as single spaces; a missing space counts. -/
theorem exact_match_tokens_ascii :
    (gradeExactMatch plainLibraries "The  Answer\tis 4 " "the answer is 4").passed = true ∧
      (gradeExactMatch plainLibraries "theanswer is 4" "the answer is 4").passed = false := by
  obtain ⟨-, hgrade, -, -⟩ := @exact_match_tokens plainLibraries _ characterwise_toLower
  have hlowered : ∀ text, loweredWords plainLibraries text =
      ((words text).map (·.flatMap fun c => [c.toLower])).map String.ofList :=
    characterwise_toLower.loweredWords_eq
  constructor
  · rw [(hgrade _ _).1, hlowered, hlowered]
    decide +kernel
  · refine Bool.eq_false_iff.mpr fun hpassed => ?_
    rw [(hgrade _ _).1, hlowered, hlowered] at hpassed
    revert hpassed
    decide +kernel

end EvalHarness
