import PromptChain.Proofs.Number.Literals
import PromptChain.Proofs.Schema.Makes
import PromptChain.Proofs.Text.Trimming
/-!
# Numbers in texts

Which texts a schema of numbers takes, and for which numbers, up to the blanks around them: digits
with a sign for the integer that they denote, any other numeral for the nearest number, unless that
is infinite, and no other text (`parse_numberText`).
-/

namespace PromptChain

open Text (CodePoint)

/-! ## Integers as texts -/

theorem isBlank_of_isDigit {c : Char} (h : isDigit c = true) : Text.isBlank c = false := by
  simp only [isDigit, Bool.and_eq_true, decide_eq_true_eq] at h
  rw [Bool.eq_false_iff, Ne, Text.isBlank, Text.inRanges_eq_true_iff]
  simp only [Text.blankRanges, List.mem_cons, List.not_mem_nil, or_false]
  rintro ⟨range, hrange, hlow, hhigh⟩
  rcases hrange with rfl | rfl | rfl | rfl | rfl | rfl | rfl | rfl | rfl | rfl <;>
    simp only at hlow hhigh <;> omega

theorem intDigits_ne_nil (n : Int) : intDigits n ≠ [] := by
  unfold intDigits
  split
  · exact List.cons_ne_nil _ _
  · exact natDigits_ne_nil _

theorem isBlank_of_mem_intDigits {n : Int} {c : Char} (h : c ∈ intDigits n) :
    Text.isBlank c = false := by
  have hdigit : ∀ c ∈ natDigits n.natAbs, Text.isBlank c = false :=
    fun c hc => isBlank_of_isDigit (isDigit_of_mem_natDigits hc)
  unfold intDigits at h
  split at h
  · rcases List.mem_cons.mp h with rfl | h
    · decide
    · exact hdigit c h
  · exact hdigit c h

theorem trimChars_intDigits {before after : List Char} (n : Int)
    (hbefore : ∀ c ∈ before, Text.isBlank c = true) (hafter : ∀ c ∈ after, Text.isBlank c = true) :
    Text.trimChars (before ++ intDigits n ++ after) = intDigits n :=
  Text.strip_surrounded hbefore hafter (intDigits_ne_nil n)
    (isBlank_of_mem_intDigits (List.head_mem _)) (isBlank_of_mem_intDigits (List.getLast_mem _))

theorem exists_intDigits (n : Int) :
    ∃ negative sign digits, Numeral.SpellsSign negative sign ∧ Numeral.IsDigits digits ∧
      intDigits n = sign ++ digits ∧ Numeral.signed negative digits = n ∧
      digits = natDigits n.natAbs := by
  have hdigits := Binary64.isDigits_natDigits n.natAbs
  have hnumber : positional (natDigits n.natAbs) = n.natAbs := by
    rw [← natOfDigits_eq_positional, natOfDigits_natDigits]
  by_cases hn : n < 0
  · refine ⟨true, ['-'], _, .minus, hdigits, ?_, ?_, rfl⟩
    · simp [intDigits, hn]
    · rw [Numeral.signed, hnumber]
      simp only [if_true]
      omega
  · refine ⟨false, [], _, .none, hdigits, ?_, ?_, rfl⟩
    · simp [intDigits, hn]
    · rw [Numeral.signed, hnumber]
      simp only [Bool.false_eq_true, if_false]
      omega

namespace Schema

open Numeral (IsDigits IsIntegerText Spells SpellsSign signed)

/-! ## Texts of numbers -/

/-- `Refuses d points`: the text is refused as no number, and the refusal shows it. -/
def Refuses (d : Value) (points : List CodePoint) : Prop :=
  ∃ shown, (Value.ofPoints points).shown = .ok shown ∧
    parse (.number d) (.ofPoints points) = .error (.mismatch (.notNumber shown))

section

variable {d : Value} {points : List CodePoint}

theorem Refuses.of_eq (h : parse (.number d) (.ofPoints points) = notNumber (.ofPoints points)) :
    Refuses d points := by
  obtain ⟨shown, hshown⟩ : ∃ shown, (Value.ofPoints points).shown = .ok shown := by
    rcases Value.ofPoints_cases points with ⟨cs, -, heq⟩ | ⟨-, heq⟩
    · exact ⟨_, by rw [heq]; rfl⟩
    · exact ⟨_, by rw [heq]; rfl⟩
  exact ⟨shown, hshown, by rw [h, notNumber, hshown]⟩

theorem refuses_of_not_spells
    (h : ∀ n cs, CodePoint.trim points = CodePoint.ofChars cs → ¬ Spells n cs) :
    Refuses d points := by
  apply Refuses.of_eq
  rcases Value.ofPoints_cases points with ⟨cs, rfl, heq⟩ | ⟨-, heq⟩
  · have hnone : Numeral.read? (Text.trimChars cs) = none := by
      rw [Option.eq_none_iff_forall_ne_some]
      intro n hn
      exact h n _ (CodePoint.trim_ofChars cs) (Numeral.spells_of_read? hn)
    rw [heq]
    simp only [parse, parseNumber, parseNumberText, String.toList_ofList, hnone]
  · rw [heq]
    rfl

theorem parse_of_spells {n : Numeral} {cs : List Char}
    (htrim : CodePoint.trim points = CodePoint.ofChars cs) (hspells : Spells n cs) :
    parse (.number d) (.ofPoints points) =
      if n.isInteger then
        if maxIntDigits < n.whole.length then .error (.longNumeral n.whole.length)
        else .ok (.int n.toInt)
      else if n.toBinary64.isFinite then .ok (.real n.toBinary64)
      else notNumber (.ofPoints points) := by
  obtain ⟨ds, rfl⟩ := CodePoint.exists_of_trim_eq htrim
  rw [CodePoint.trim_ofChars] at htrim
  obtain rfl := CodePoint.ofChars_injective htrim
  simp only [Value.ofPoints_ofChars, parse, parseNumber, parseNumberText, String.toList_ofList,
    Numeral.read?_of_spells hspells]

/-- **Which texts are numbers.**  Up to blanks around it, a sign with digits is taken for the integer
that it denotes, if there are not too many digits; any other numeral is taken for the number nearest
to what it denotes, unless that is infinite; other texts are refused.  So every integer is read from
its own text. -/
theorem parse_numberText (d : Value) (points : List CodePoint) :
    (∀ negative sign digits, CodePoint.trim points = CodePoint.ofChars (sign ++ digits) →
      SpellsSign negative sign → IsDigits digits → digits.length ≤ maxIntDigits →
        parse (.number d) (.ofPoints points) = .ok (.int (signed negative digits))) ∧
      (∀ n cs, CodePoint.trim points = CodePoint.ofChars cs → Spells n cs → ¬ IsIntegerText cs →
        (n.magnitude < Binary64.leastInfinite → ∃ m q h,
          parse (.number d) (.ofPoints points) = .ok (.real (.finite n.negative m q h)) ∧
            Binary64.IsNearest n.magnitude m q) ∧
          (Binary64.leastInfinite ≤ n.magnitude → Refuses d points)) ∧
      ((∀ n cs, CodePoint.trim points = CodePoint.ofChars cs → ¬ Spells n cs) →
        Refuses d points) ∧
      ∀ (n : Int) (before after : List Char), (natDigits n.natAbs).length ≤ maxIntDigits →
        (∀ c ∈ before ++ after, Text.isBlank c = true) →
          (Value.int n).plain = .ok (intDigits n) ∧
            parse (.number d) (.text (String.ofList (before ++ intDigits n ++ after))) =
              .ok (.int n) := by
  have hinteger : ∀ {points : List CodePoint} {negative sign digits},
      CodePoint.trim points = CodePoint.ofChars (sign ++ digits) → SpellsSign negative sign →
        IsDigits digits → digits.length ≤ maxIntDigits →
          parse (.number d) (.ofPoints points) = .ok (.int (signed negative digits)) := by
    intro points negative sign digits htrim hsign hdigits hlength
    rw [parse_of_spells htrim (hsign.spells hdigits), Numeral.toInt_eq_signed]
    simp [Numeral.isInteger, Nat.not_lt.mpr hlength]
  refine ⟨fun _ _ _ => hinteger, fun n cs htrim hspells hdecimal => ?_, refuses_of_not_spells,
    fun n before after hlength hblank => ⟨?_, ?_⟩⟩
  · have hfalse : n.isInteger = false := by
      rw [← Bool.not_eq_true, hspells.isInteger_iff]
      exact hdecimal
    have hparse := parse_of_spells (d := d) htrim hspells
    rw [hfalse] at hparse
    obtain ⟨hfinite, hinfinite⟩ := n.isNearest_toBinary64
    refine ⟨fun hless => ?_, fun hle => .of_eq ?_⟩
    · obtain ⟨m, q, h, hvalue, hnearest⟩ := hfinite hless
      rw [hvalue] at hparse
      exact ⟨m, q, h, hparse, hnearest⟩
    · rw [hinfinite hle] at hparse
      exact hparse
  · have hshort : isLongInt n = false := by
      rw [isLongInt, decide_eq_false_iff_not, Nat.not_le, Nat.pow_eq]
      exact (Nat.length_toDigits_le_iff (by decide) (by decide)).mp hlength
    simp [Value.plain, Value.literal, intText, hshort]
  · obtain ⟨negative, sign, digits, hsign, hdigits, htext, hvalue, rfl⟩ := exists_intDigits n
    rw [List.forall_mem_append] at hblank
    have htrim : CodePoint.trim (CodePoint.ofChars (before ++ intDigits n ++ after)) =
        CodePoint.ofChars (sign ++ natDigits n.natAbs) := by
      rw [CodePoint.trim_ofChars, trimChars_intDigits n hblank.1 hblank.2, htext]
    rw [← Value.ofPoints_ofChars, hinteger htrim hsign hdigits hlength, hvalue]

end

/-- Leading zeros, a point without digits before it, a number beyond the greatest one, half a pair
of surrogates and an integer between blanks. -/
theorem parse_numberText_cases :
    parse (.number .null) (.ofPoints (CodePoint.ofChars ['\t', '-', '0', '1', '2', '\u3000'])) =
        .ok (.int (-12)) ∧
      (∃ m q h, parse (.number .null) (.ofPoints (CodePoint.ofChars ['+', '.', '5', 'E', '1'])) =
        .ok (.real (.finite false m q h)) ∧ Binary64.IsNearest 5 m q) ∧
      Refuses .null (CodePoint.ofChars ['1', '.', '8', 'e', '3', '0', '8']) ∧
      Refuses .null [.char '1', .surrogate 0] ∧
      parse (.number .null) (.text (String.ofList (['\n'] ++ intDigits (-7) ++ [' ']))) =
        .ok (.int (-7)) := by
  refine ⟨?_, ?_, ?_, ?_, ?_⟩
  · have hdigits : IsDigits ['0', '1', '2'] := ⟨by decide, List.all_eq_true.mp rfl⟩
    have htrim : CodePoint.trim (CodePoint.ofChars ['\t', '-', '0', '1', '2', '\u3000']) =
        CodePoint.ofChars (['-'] ++ ['0', '1', '2']) := by decide
    exact (parse_numberText .null _).1 _ _ _ htrim .minus hdigits (by decide)
  · have hspells : Spells ⟨false, [], some ['5'], some (false, ['1'])⟩ ['+', '.', '5', 'E', '1'] :=
      Numeral.spells_of_read? (by decide)
    have hdecimal : ¬ IsIntegerText ['+', '.', '5', 'E', '1'] := by
      rw [← hspells.isInteger_iff]
      decide
    have hvalue : Numeral.magnitude ⟨false, [], some ['5'], some (false, ['1'])⟩ = 5 := by
      have hdigits : positional ['5'] = 5 := by decide
      have hscale : Numeral.tens (some (false, ['1'])) - (['5'].length : Int) = 0 := by decide
      simp only [Numeral.magnitude, Option.getD_some, List.nil_append, hdigits, hscale, zpow_zero,
        Nat.cast_ofNat, mul_one]
    have hless : 5 < Binary64.leastInfinite := by decide +kernel
    rw [← hvalue]
    refine ((parse_numberText .null _).2.1 _ _ (by decide) hspells hdecimal).1 ?_
    rw [hvalue]
    exact_mod_cast hless
  · have hspells : Spells ⟨false, ['1'], some ['8'], some (false, ['3', '0', '8'])⟩
        ['1', '.', '8', 'e', '3', '0', '8'] := Numeral.spells_of_read? (by decide)
    have hdecimal : ¬ IsIntegerText ['1', '.', '8', 'e', '3', '0', '8'] := by
      rw [← hspells.isInteger_iff]
      decide
    have hvalue : Numeral.magnitude ⟨false, ['1'], some ['8'], some (false, ['3', '0', '8'])⟩ =
        (18 * 10 ^ 307 : Nat) := by
      have hdigits : positional ['1', '8'] = 18 := by decide
      have hscale : Numeral.tens (some (false, ['3', '0', '8'])) - (['8'].length : Int) =
          (307 : Nat) := by decide
      simp only [Numeral.magnitude, Option.getD_some, List.singleton_append, hdigits, hscale,
        zpow_natCast]
      simp only [Nat.cast_mul, Nat.cast_pow, Nat.cast_ofNat]
    have hle : Binary64.leastInfinite ≤ 18 * 10 ^ 307 := by decide +kernel
    refine ((parse_numberText .null _).2.1 _ _ (by decide) hspells hdecimal).2 ?_
    rw [hvalue]
    exact_mod_cast hle
  · refine (parse_numberText .null _).2.2.1 fun n cs htrim => ?_
    have hbroken : CodePoint.surrogate 0 ∈ CodePoint.ofChars cs := by
      rw [← htrim]
      decide
    obtain ⟨c, -, hc⟩ := List.mem_map.mp hbroken
    cases hc
  · have hblank : ∀ c ∈ ['\n'] ++ [' '], Text.isBlank c = true := List.all_eq_true.mp rfl
    exact ((parse_numberText .null []).2.2.2 (-7) _ _ (by decide) hblank).2

end Schema

end PromptChain
