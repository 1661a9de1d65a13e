import Mathlib.Data.List.TakeWhile
import PromptChain.Json.Writer
import PromptChain.Json.Reader
/-!
# The numerals of integers

An integer is written as a minus sign, if it is negative, and its decimal digits, of which the first
is no zero but in the number zero.  A reader takes all of them for one numeral, and comes to the
same integer, as long as nothing stands behind them that a numeral could go on with.
-/

namespace PromptChain

theorem isDigit_of_isDigit {c : Char} (h : c.isDigit = true) : isDigit c = true := by
  simp only [Char.isDigit, Bool.and_eq_true, decide_eq_true_eq, ge_iff_le, UInt32.le_iff_toNat_le]
    at h
  simp only [isDigit, Bool.and_eq_true, decide_eq_true_eq]
  exact h

theorem isDigit_of_mem_natDigits {n : Nat} {c : Char} (h : c ∈ natDigits n) : isDigit c = true :=
  isDigit_of_isDigit (Nat.isDigit_of_mem_toDigits (by decide) (by decide) h)

theorem natDigits_ne_nil (n : Nat) : natDigits n ≠ [] := Nat.toDigits_ne_nil

theorem natOfDigits_natDigits (n : Nat) : natOfDigits (natDigits n) = n := by
  have hvalue : Nat.ofDigitChars 10 (Nat.toDigits 10 n) 0 = n := Nat.ofDigitChars_ten_toDigits
  rw [Nat.ofDigitChars_eq_foldl] at hvalue
  rw [natOfDigits_eq]
  exact hvalue

theorem length_natDigits_le {n k : Nat} (hk : 0 < k) (h : n < Nat.pow 10 k) :
    (natDigits n).length ≤ k :=
  (Nat.length_toDigits_le_iff (by decide) hk).mpr h

theorem eq_zero_of_natDigits {n : Nat} {rest : List Char} (h : natDigits n = '0' :: rest) :
    n = 0 ∧ rest = [] := by
  induction n using Nat.strongRecOn generalizing rest with
  | ind n ih =>
    rw [natDigits, Nat.toDigits_eq_if (by decide)] at h
    split at h
    · obtain ⟨hdigit, rfl⟩ := List.cons.inj h
      exact ⟨Nat.digitChar_eq_zero.mp hdigit, rfl⟩
    · next hlarge =>
      obtain ⟨first, more, hsplit⟩ := List.exists_cons_of_ne_nil (natDigits_ne_nil (n / 10))
      have hsplit' : Nat.toDigits 10 (n / 10) = first :: more := hsplit
      rw [hsplit', List.cons_append] at h
      obtain ⟨rfl, -⟩ := List.cons.inj h
      have hzero := (ih (n / 10) (by omega) hsplit).1
      omega

namespace Json

open Text (CodePoint)

theorem takeWhole_natDigits (n : Nat) : takeWhole (natDigits n) = (natDigits n, []) := by
  have hall : ∀ c ∈ natDigits n, isDigit c = true := fun c hc => isDigit_of_mem_natDigits hc
  unfold takeWhole
  split
  · next rest heq =>
    obtain ⟨-, rfl⟩ := eq_zero_of_natDigits heq
    rw [heq]
  · rw [List.takeWhile_eq_self_iff.mpr hall, List.dropWhile_eq_nil_iff.mpr hall]

theorem takeNumeral?_intDigits (n : Int) :
    takeNumeral? (intDigits n) =
      some ({ negative := decide (n < 0), whole := natDigits n.natAbs }, []) := by
  have hne := natDigits_ne_nil n.natAbs
  have hwhole := takeWhole_natDigits n.natAbs
  -- Without this the digits might be taken for a sign.
  have hminus : ∀ rest, natDigits n.natAbs ≠ '-' :: rest := by
    intro rest heq
    have hdigit : isDigit '-' = true :=
      isDigit_of_mem_natDigits (n := n.natAbs) (by simp [heq])
    exact absurd hdigit (by decide)
  unfold intDigits takeNumeral?
  by_cases hn : n < 0
  · simp [hn, hwhole, hne, takeFraction, takeExponent]
  · simp [hn, hwhole, hne, takeFraction, takeExponent]

theorem toInt_intDigits (n : Int) :
    Numeral.toInt { negative := decide (n < 0), whole := natDigits n.natAbs } = n := by
  unfold Numeral.toInt
  rw [natOfDigits_natDigits]
  by_cases hn : n < 0
  · simp only [hn, decide_true, if_true]
    omega
  · simp only [hn, decide_false, Bool.false_eq_true, if_false]
    omega

theorem numeralValue_intDigits {n : Int} (h : isLongInt n = false) :
    numeralValue .plain { negative := decide (n < 0), whole := natDigits n.natAbs } =
      .ok (.int n) := by
  have hlength : (natDigits n.natAbs).length ≤ maxIntDigits := by
    apply length_natDigits_le (by decide)
    simpa [isLongInt] using h
  have hlong : ¬maxIntDigits < (natDigits n.natAbs).length := by omega
  simp [numeralValue, Dialect.plain, Numeral.isInteger, hlong, toInt_intDigits]

/-- Whether no numeral goes on with what stands behind it. -/
def Closed (rest : List CodePoint) : Prop := ∀ p ∈ rest.head?, isNumeric p = false

theorem isNumeric_of_mem_intDigits {n : Int} {c : Char} (h : c ∈ intDigits n) :
    isNumeric (.char c) = true := by
  have hdigits : ∀ c ∈ natDigits n.natAbs, isNumeric (.char c) = true := by
    intro c hc
    simp [isNumeric, isDigit_of_mem_natDigits hc]
  unfold intDigits at h
  split at h
  · rcases List.mem_cons.mp h with rfl | h
    · rfl
    · exact hdigits c h
  · exact hdigits c h

theorem takeWhile_isNumeric {cs : List Char} {rest : List CodePoint}
    (hcs : ∀ c ∈ cs, isNumeric (.char c) = true) (hrest : Closed rest) :
    (CodePoint.ofChars cs ++ rest).takeWhile isNumeric = CodePoint.ofChars cs := by
  have hstop : rest.takeWhile isNumeric = [] := by
    cases rest with
    | nil => rfl
    | cons p more => simp [hrest p rfl]
  rw [List.takeWhile_append_of_pos, hstop, List.append_nil]
  intro p hp
  obtain ⟨c, hc, rfl⟩ := List.mem_map.mp hp
  exact hcs c hc

theorem readNumber_numeral {cs : List Char} {n : Numeral} {v : Value}
    (htake : takeNumeral? cs = some (n, []))
    (hnumeric : ∀ c ∈ cs, isNumeric (.char c) = true) (hvalue : numeralValue .plain n = .ok v)
    {rest : List CodePoint} (hrest : Closed rest) :
    readNumber .plain (CodePoint.ofChars cs ++ rest) = .ok (v, rest) := by
  have hchars : (CodePoint.ofChars cs).filterMap CodePoint.char? = cs := by
    simp [CodePoint.ofChars, List.filterMap_map, Function.comp_def, CodePoint.char?]
  have hdrop : (CodePoint.ofChars cs ++ rest).drop cs.length = rest :=
    List.drop_left' (by simp [CodePoint.ofChars])
  simp only [readNumber, takeWhile_isNumeric hnumeric hrest, hchars, htake, hvalue,
    List.length_nil, Nat.sub_zero, hdrop]

theorem readNumber_intDigits {n : Int} (h : isLongInt n = false) {rest : List CodePoint}
    (hrest : Closed rest) :
    readNumber .plain (CodePoint.ofChars (intDigits n) ++ rest) = .ok (.int n, rest) :=
  readNumber_numeral (takeNumeral?_intDigits n) (fun _ hc => isNumeric_of_mem_intDigits hc)
    (numeralValue_intDigits h) hrest

end Json

end PromptChain
