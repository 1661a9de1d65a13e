import PromptChain.Proofs.Json.RoundTrip
import PromptChain.Proofs.Number.Shortest
/-!
# The numerals of binary64 numbers

A finite number is written as a numeral with a point or an exponent, which a reader takes as a whole
and rounds to the number; the others are written by their names.  So every number is read back as it
was (`denotes_real`).
-/

namespace PromptChain

namespace Json

open Text (CodePoint)
open Numeral (IsDigits)

/-! ## The parts of a numeral -/

def NoDigit (rest : List Char) : Prop := ∀ c ∈ rest.head?, isDigit c = false

theorem NoDigit.of_cons {c : Char} {rest : List Char} (h : isDigit c = false) :
    NoDigit (c :: rest) := fun _ hd => Option.some.inj hd ▸ h

section

variable {digits : List Char} (hdigits : ∀ c ∈ digits, isDigit c = true)
  {rest : List Char} (hrest : NoDigit rest)
include hdigits hrest

theorem takeWhile_digits : (digits ++ rest).takeWhile isDigit = digits := by
  have hstop : rest.takeWhile isDigit = [] := by
    cases rest with
    | nil => rfl
    | cons c more => simp [hrest c rfl]
  rw [List.takeWhile_append_of_pos hdigits, hstop, List.append_nil]

theorem dropWhile_digits : (digits ++ rest).dropWhile isDigit = rest := by
  have hstop : rest.dropWhile isDigit = rest := by
    cases rest with
    | nil => rfl
    | cons c more => simp [hrest c rfl]
  rw [List.dropWhile_append_of_pos hdigits, hstop]

end

theorem takeWhole_whole {whole rest : List Char} (hwhole : IsDigits whole)
    (hlead : ∀ more, whole = '0' :: more → more = []) (hrest : NoDigit rest) :
    takeWhole (whole ++ rest) = (whole, rest) := by
  obtain ⟨d, more, rfl⟩ := List.exists_cons_of_ne_nil hwhole.1
  unfold takeWhole
  split
  · next heq =>
    obtain ⟨rfl, rfl⟩ := List.cons.inj heq
    obtain rfl := hlead more rfl
    rfl
  · rw [takeWhile_digits hwhole.2 hrest, dropWhile_digits hwhole.2 hrest]

theorem takeFraction_fractionText {fraction : Option (List Char)}
    (hfraction : ∀ digits ∈ fraction, IsDigits digits) {rest : List Char} (hrest : NoDigit rest)
    (hpoint : ∀ more, rest ≠ '.' :: more) :
    takeFraction (Numeral.fractionText fraction ++ rest) = (fraction, rest) := by
  cases fraction with
  | none =>
    unfold takeFraction
    split
    · next more heq => exact absurd heq (hpoint more)
    · rfl
  | some digits =>
    obtain ⟨hne, hdigits⟩ := hfraction digits rfl
    simp [Numeral.fractionText, takeFraction, takeWhile_digits hdigits hrest,
      dropWhile_digits hdigits hrest, hne]

theorem takeExponent_exponentText {exponent : Option (Bool × List Char)}
    (hexponent : ∀ part ∈ exponent, IsDigits part.2) :
    takeExponent (Numeral.exponentText exponent) = (exponent, []) := by
  match exponent with
  | none => rfl
  | some (negative, digits) =>
    obtain ⟨hne, hdigits⟩ := hexponent _ rfl
    have htake := List.takeWhile_eq_self_iff.mpr hdigits
    have hdrop := List.dropWhile_eq_nil_iff.mpr hdigits
    cases negative <;>
      simp [Numeral.exponentText, takeExponent, Numeral.takeSign, htake, hdrop, hne]

/-! ## Numerals -/

def numeralText (n : Numeral) : List Char :=
  if n.negative then '-' :: n.magnitudeText else n.magnitudeText

section

variable {n : Numeral} (h : n.Proper)
include h

theorem exists_magnitudeText : ∃ d rest, n.magnitudeText = d :: rest ∧ isDigit d = true := by
  obtain ⟨d, more, hwhole⟩ := List.exists_cons_of_ne_nil h.whole.1
  exact ⟨d, more ++ (Numeral.fractionText n.fraction ++ Numeral.exponentText n.exponent),
    by rw [Numeral.magnitudeText, hwhole, List.cons_append], h.whole.2 d (by simp [hwhole])⟩

theorem takeNumeral?_numeralText : takeNumeral? (numeralText n) = some (n, []) := by
  have hexponent : NoDigit (Numeral.exponentText n.exponent) := by
    cases n.exponent with
    | none => exact fun _ hc => nomatch hc
    | some part => exact .of_cons rfl
  have hfraction : NoDigit (Numeral.fractionText n.fraction ++
      Numeral.exponentText n.exponent) := by
    cases n.fraction with
    | none => exact hexponent
    | some digits => exact .of_cons rfl
  have hpoint : ∀ more, Numeral.exponentText n.exponent ≠ '.' :: more := by
    cases n.exponent with
    | none => exact fun _ heq => nomatch heq
    | some part => exact fun _ heq => absurd (List.cons.inj heq).1 (by decide)
  have hparts : takeWhole n.magnitudeText = (n.whole, _) :=
    takeWhole_whole h.whole h.lead hfraction
  obtain ⟨d, rest, htext, hd⟩ := exists_magnitudeText h
  have hminus : d ≠ '-' := fun heq => by simp [heq, isDigit] at hd
  have hwhole : n.whole ≠ [] := h.whole.1
  have htakeFraction := takeFraction_fractionText h.fraction hexponent hpoint
  have htakeExponent := takeExponent_exponentText h.exponent
  rw [htext] at hparts
  obtain ⟨negative, whole, fraction, exponent⟩ := n
  unfold takeNumeral? numeralText
  cases negative <;>
    simp [htext, hminus, hparts, hwhole, htakeFraction, htakeExponent]

theorem isNumeric_of_mem_numeralText {c : Char} (hc : c ∈ numeralText n) :
    isNumeric (.char c) = true := by
  have hdigits : ∀ {digits}, IsDigits digits → ∀ c ∈ digits, isNumeric (.char c) = true :=
    fun hdigits c hc => by simp [isNumeric, hdigits.2 c hc]
  have hfraction : ∀ c ∈ Numeral.fractionText n.fraction, isNumeric (.char c) = true := by
    cases hshown : n.fraction with
    | none => simp [Numeral.fractionText]
    | some digits =>
      intro c hc
      rcases List.mem_cons.mp hc with rfl | hc
      · rfl
      · exact hdigits (h.fraction digits hshown) c hc
  have hexponent : ∀ c ∈ Numeral.exponentText n.exponent, isNumeric (.char c) = true := by
    cases hshown : n.exponent with
    | none => simp [Numeral.exponentText]
    | some part =>
      intro c hc
      simp only [Numeral.exponentText, List.mem_cons] at hc
      rcases hc with rfl | rfl | hc
      · rfl
      · split <;> rfl
      · exact hdigits (h.exponent part hshown) c hc
  have hmagnitude : ∀ c ∈ n.magnitudeText, isNumeric (.char c) = true := by
    intro c hc
    simp only [Numeral.magnitudeText, List.mem_append] at hc
    rcases hc with hc | hc | hc
    · exact hdigits h.whole c hc
    · exact hfraction c hc
    · exact hexponent c hc
  unfold numeralText at hc
  split at hc
  · rcases List.mem_cons.mp hc with rfl | hc
    · rfl
    · exact hmagnitude c hc
  · exact hmagnitude c hc

theorem denotes_numeral (hinteger : n.isInteger = false) :
    Denotes (numeralText n) (.real n.toBinary64) := by
  obtain ⟨d, rest, htext, hd⟩ := exists_magnitudeText h
  have hvalue : numeralValue .plain n = .ok (.real n.toBinary64) := by
    simp [numeralValue, Dialect.plain, hinteger]
  exact denotes_number hd n.negative (by rw [numeralText, htext]) fun _ hrest =>
    readNumber_numeral (takeNumeral?_numeralText h)
      (fun _ hc => isNumeric_of_mem_numeralText h hc) hvalue hrest

end

/-- **Numbers are read back as they were.** -/
theorem denotes_real (x : Binary64) : Denotes (number x) (.real x) := by
  match x with
  | .nan => exact .of_cons ⟨_, _, rfl, by decide⟩ fun _ _ _ _ => rfl
  | .infinite false => exact .of_cons ⟨_, _, rfl, by decide⟩ fun _ _ _ _ => rfl
  | .infinite true => exact .of_cons ⟨_, _, rfl, by decide⟩ fun _ _ _ _ => rfl
  | .finite negative m q h =>
    obtain ⟨n, hproper, rfl, hinteger, htext, hvalue⟩ := Binary64.exists_numeral negative h
    have hdenotes := denotes_numeral hproper hinteger
    rw [hvalue, numeralText, ← htext] at hdenotes
    exact hdenotes

end Json

end PromptChain
