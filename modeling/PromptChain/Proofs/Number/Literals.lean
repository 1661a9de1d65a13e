import Mathlib.Data.Nat.Digits.Defs
import PromptChain.Proofs.Json.Reals
import PromptChain.Proofs.Number.Nearest
/-!
# Numerals in texts

How the parts of a numeral may be written down: each sign in one of its ways, at most one point among
the digits, and either mark of the exponent.  A reader takes a text for a numeral if and only if it
is a way of writing that numeral down (`read?_eq_some_iff`), so that a text is that of one numeral
at most.  What a numeral denotes is rounded to the nearest number (`isNearest_toBinary64`).
-/

namespace PromptChain

def positional (digits : List Char) : Nat := Nat.ofDigits 10 (digits.reverse.map digitValue)

theorem natOfDigits_eq_positional (digits : List Char) : natOfDigits digits = positional digits := by
  induction digits with
  | nil => rfl
  | cons c rest ih =>
    have hsplit := natOfDigits_append [c] rest
    have hfirst : natOfDigits [c] = digitValue c := by simp [natOfDigits, natOfBlocks]
    rw [List.singleton_append, hfirst] at hsplit
    rw [hsplit, ih, positional, positional, List.reverse_cons, List.map_append, Nat.ofDigits_append]
    simp only [List.map_cons, List.map_nil, Nat.ofDigits_singleton, List.length_map,
      List.length_reverse]
    ring

namespace Numeral

open Json (NoDigit takeWhile_digits dropWhile_digits)

/-! ## Ways of writing -/

inductive SpellsSign : Bool → List Char → Prop where
  | none : SpellsSign false []
  | plus : SpellsSign false ['+']
  | minus : SpellsSign true ['-']

inductive SpellsExponent : Option (Bool × List Char) → List Char → Prop where
  | none : SpellsExponent none []
  | some {mark : Char} {negative : Bool} {sign digits : List Char} (hmark : mark = 'e' ∨ mark = 'E')
      (hsign : SpellsSign negative sign) (hdigits : IsDigits digits) :
      SpellsExponent (some (negative, digits)) (mark :: (sign ++ digits))

/-- How a numeral is written: a sign, digits with at most one point and at least one digit, and an
exponent. -/
inductive Spells : Numeral → List Char → Prop where
  | intro {n : Numeral} {sign exponent : List Char} (hsign : SpellsSign n.negative sign)
      (hdigits : IsDigits (n.whole ++ n.fraction.getD []))
      (hexponent : SpellsExponent n.exponent exponent) :
      Spells n (sign ++ (n.whole ++ (fractionText n.fraction ++ exponent)))

def IsIntegerText (cs : List Char) : Prop :=
  ∃ negative sign digits, SpellsSign negative sign ∧ IsDigits digits ∧ cs = sign ++ digits

def signed (negative : Bool) (digits : List Char) : Int :=
  if negative then -(positional digits : Int) else positional digits

def tens : Option (Bool × List Char) → Int
  | none => 0
  | some (negative, digits) => signed negative digits

def magnitude (n : Numeral) : ℚ :=
  positional (n.whole ++ n.fraction.getD []) *
    (10 : ℚ) ^ (tens n.exponent - ((n.fraction.getD []).length : Int))

/-! ## Reading them -/

def Unsigned (cs : List Char) : Prop := ∀ c ∈ cs.head?, c ≠ '-' ∧ c ≠ '+'

theorem unsigned_of_digits {digits : List Char} (h : ∀ c ∈ digits, isDigit c = true) :
    Unsigned digits := by
  intro c hc
  have hdigit := h c (List.mem_of_mem_head? hc)
  constructor <;> rintro rfl <;> exact absurd hdigit (by decide)

theorem takeSign_of_unsigned {cs : List Char} (h : Unsigned cs) : takeSign cs = (false, cs) := by
  unfold takeSign
  split
  · exact absurd rfl (h '-' rfl).1
  · exact absurd rfl (h '+' rfl).2
  · rfl

theorem SpellsSign.takeSign_append {negative : Bool} {sign rest : List Char}
    (h : SpellsSign negative sign) (hrest : Unsigned rest) :
    takeSign (sign ++ rest) = (negative, rest) := by
  cases h with
  | none => exact takeSign_of_unsigned hrest
  | plus => rfl
  | minus => rfl

theorem exists_spellsSign (cs : List Char) :
    ∃ sign, SpellsSign (takeSign cs).1 sign ∧ cs = sign ++ (takeSign cs).2 := by
  unfold takeSign
  split
  · exact ⟨_, .minus, rfl⟩
  · exact ⟨_, .plus, rfl⟩
  · exact ⟨_, .none, rfl⟩

theorem readExponent?_eq_some_iff {cs : List Char} {exponent : Option (Bool × List Char)} :
    readExponent? cs = some exponent ↔ SpellsExponent exponent cs := by
  constructor
  · intro h
    unfold readExponent? at h
    split at h
    · obtain rfl := Option.some.inj h
      exact .none
    next mark rest =>
    dsimp only at h
    split_ifs at h with hmark hdigits
    obtain rfl := Option.some.inj h
    obtain ⟨sign, hsign, hrest⟩ := exists_spellsSign rest
    simp only [Bool.or_eq_true, decide_eq_true_eq] at hmark
    simp only [Bool.and_eq_true, Bool.not_eq_true', List.isEmpty_eq_false_iff, List.all_eq_true]
      at hdigits
    conv => arg 2; rw [hrest]
    exact .some hmark hsign hdigits
  · rintro (_ | ⟨hmark, hsign, hne, hdigits⟩)
    · rfl
    · have hread := hsign.takeSign_append (unsigned_of_digits hdigits)
      simp only [readExponent?, hread]
      simp [hmark, hne, List.all_eq_true.mpr hdigits]

theorem SpellsExponent.noDigit {exponent : Option (Bool × List Char)} {cs : List Char}
    (h : SpellsExponent exponent cs) : NoDigit cs := by
  cases h with
  | none => exact fun _ hc => nomatch hc
  | some hmark => rcases hmark with rfl | rfl <;> exact .of_cons rfl

theorem SpellsExponent.ne_point {exponent : Option (Bool × List Char)} {cs rest : List Char}
    (h : SpellsExponent exponent cs) : cs ≠ '.' :: rest := by
  rintro rfl
  cases h with
  | some hmark => rcases hmark with hmark | hmark <;> exact absurd hmark (by decide)

theorem noDigit_tail (fraction : Option (List Char)) {exponent : List Char}
    (h : NoDigit exponent) : NoDigit (fractionText fraction ++ exponent) := by
  cases fraction with
  | none => exact h
  | some digits => exact .of_cons rfl

theorem unsigned_digits {whole : List Char} {fraction : Option (List Char)}
    (hdigits : IsDigits (whole ++ fraction.getD [])) (tail : List Char) :
    Unsigned (whole ++ (fractionText fraction ++ tail)) := by
  obtain ⟨hne, hall⟩ := hdigits
  cases whole with
  | cons d more =>
    intro c hc
    exact unsigned_of_digits hall c (by simpa using hc)
  | nil =>
    cases fraction with
    | none => exact absurd rfl hne
    | some digits =>
      intro c hc
      obtain rfl : '.' = c := by simpa [fractionText] using hc
      decide

theorem read?_of_spells {n : Numeral} {cs : List Char} (h : Spells n cs) : read? cs = some n := by
  obtain @⟨sign, tail, hsign, hdigits, hexponent⟩ := h
  have hread := hsign.takeSign_append (unsigned_digits hdigits tail)
  obtain ⟨negative, whole, fraction, exponent⟩ := n
  obtain ⟨hne, hall⟩ := hdigits
  simp only at hne hall hexponent hread ⊢
  have hwhole : ∀ c ∈ whole, isDigit c = true := fun c hc => hall c (List.mem_append_left _ hc)
  have htail := noDigit_tail fraction hexponent.noDigit
  simp only [read?, hread, takeWhile_digits hwhole htail, dropWhile_digits hwhole htail]
  have hrest := readExponent?_eq_some_iff.mpr hexponent
  cases fraction with
  | none =>
    simp only [Option.getD_none, List.append_nil] at hne
    simp only [fractionText, List.nil_append]
    split
    · exact absurd rfl hexponent.ne_point
    · simp [hne, hrest]
  | some digits =>
    have hdigits : ∀ c ∈ digits, isDigit c = true :=
      fun c hc => hall c (List.mem_append_right _ hc)
    have hstop := hexponent.noDigit
    have hsome : (whole.isEmpty && digits.isEmpty) = false := by
      rw [Bool.and_eq_false_iff]
      simpa [List.append_eq_nil_iff, -not_and, not_and_or] using hne
    simp only [fractionText, List.cons_append, takeWhile_digits hdigits hstop,
      dropWhile_digits hdigits hstop, hsome, hrest]
    rfl

theorem spells_of_read? {n : Numeral} {cs : List Char} (h : read? cs = some n) : Spells n cs := by
  obtain ⟨sign, hsign, hcs⟩ := exists_spellsSign cs
  unfold read? at h
  dsimp only at h
  generalize (takeSign cs).1 = negative at hsign h
  generalize (takeSign cs).2 = unsigned at hcs h
  obtain rfl := hcs
  have hsplit := List.takeWhile_append_dropWhile (p := isDigit) (l := unsigned)
  have hwhole : ∀ c ∈ unsigned.takeWhile isDigit, isDigit c = true :=
    fun c hc => List.mem_takeWhile_imp hc
  generalize unsigned.takeWhile isDigit = whole at hsplit hwhole h
  generalize unsigned.dropWhile isDigit = tail at hsplit h
  obtain rfl := hsplit
  split at h
  · next rest =>
    have hsplit := List.takeWhile_append_dropWhile (p := isDigit) (l := rest)
    have hfraction : ∀ c ∈ rest.takeWhile isDigit, isDigit c = true :=
      fun c hc => List.mem_takeWhile_imp hc
    generalize rest.takeWhile isDigit = fraction at hsplit hfraction h
    generalize rest.dropWhile isDigit = last at hsplit h
    obtain rfl := hsplit
    split at h
    · cases h
    · next hsome =>
      obtain ⟨exponent, hexponent, rfl⟩ := Option.map_eq_some_iff.mp h
      refine .intro (n := { negative, whole, fraction := some fraction, exponent }) hsign
        ⟨?_, ?_⟩ (readExponent?_eq_some_iff.mp hexponent)
      · simpa using hsome
      · exact List.forall_mem_append.mpr ⟨hwhole, hfraction⟩
  · split at h
    · cases h
    · next hsome =>
      obtain ⟨exponent, hexponent, rfl⟩ := Option.map_eq_some_iff.mp h
      refine .intro (n := { negative, whole, exponent }) hsign
        ⟨?_, ?_⟩ (readExponent?_eq_some_iff.mp hexponent)
      · simpa using hsome
      · simpa using hwhole

/-- **Which texts are numerals.** -/
theorem read?_eq_some_iff {n : Numeral} {cs : List Char} : read? cs = some n ↔ Spells n cs :=
  ⟨spells_of_read?, read?_of_spells⟩

theorem Spells.unique {n other : Numeral} {cs : List Char} (h : Spells n cs)
    (hother : Spells other cs) : n = other :=
  Option.some.inj ((read?_of_spells h).symm.trans (read?_of_spells hother))

theorem SpellsSign.spells {negative : Bool} {sign digits : List Char}
    (hsign : SpellsSign negative sign) (hdigits : IsDigits digits) :
    Spells { negative, whole := digits } (sign ++ digits) := by
  have hspells := Spells.intro (n := { negative, whole := digits }) hsign
    (by simpa using hdigits) .none
  simpa [fractionText] using hspells

theorem Spells.isInteger_iff {n : Numeral} {cs : List Char} (h : Spells n cs) :
    n.isInteger = true ↔ IsIntegerText cs := by
  constructor
  · intro hinteger
    obtain @⟨sign, tail, hsign, hdigits, hexponent⟩ := h
    obtain ⟨negative, whole, fraction, exponent⟩ := n
    obtain ⟨rfl, rfl⟩ : fraction = none ∧ exponent = none := by
      simpa [isInteger] using hinteger
    cases hexponent
    refine ⟨negative, sign, whole, hsign, ?_, ?_⟩
    · simpa using hdigits
    · simp [fractionText]
  · rintro ⟨negative, sign, digits, hsign, hdigits, rfl⟩
    rw [h.unique (hsign.spells hdigits)]
    rfl

/-! ## What they denote -/

theorem toInt_eq_signed (n : Numeral) : n.toInt = signed n.negative n.whole := by
  rw [toInt, signed, natOfDigits_eq_positional]

theorem power_eq_tens (n : Numeral) : n.power = tens n.exponent := by
  obtain ⟨_, _, _, _ | ⟨negative, digits⟩⟩ := n
  · rfl
  · simp only [power, tens, signed, natOfDigits_eq_positional]

/-- **To the nearest number.**  A numeral is rounded to the number nearest to what it denotes, up to
half a unit above the greatest one. -/
theorem isNearest_toBinary64 (n : Numeral) :
    (n.magnitude < Binary64.leastInfinite → ∃ m q h,
      n.toBinary64 = .finite n.negative m q h ∧ Binary64.IsNearest n.magnitude m q) ∧
      (Binary64.leastInfinite ≤ n.magnitude → n.toBinary64 = .infinite n.negative) := by
  have hden : 0 < 10 ^ (-n.scale).toNat := by positivity
  have hden' : (0 : ℚ) < (10 ^ (-n.scale).toNat : Nat) := by exact_mod_cast hden
  have hvalue : n.magnitude =
      (n.digits * 10 ^ n.scale.toNat : Nat) / (10 ^ (-n.scale).toNat : Nat) := by
    rw [Binary64.decimal_value, magnitude, ← natOfDigits_eq_positional, ← power_eq_tens, digits,
      scale]
  obtain ⟨hfinite, hinfinite⟩ := Binary64.isNearest_ofRatio n.negative
    (n.digits * 10 ^ n.scale.toNat) hden
  rw [toBinary64_eq, Binary64.ofDecimal_eq_ofRatio, hvalue]
  refine ⟨fun hless => hfinite ?_, fun hle => hinfinite ?_⟩
  · rw [div_lt_iff₀ hden'] at hless
    exact_mod_cast hless
  · rw [le_div_iff₀ hden'] at hle
    exact_mod_cast hle

end Numeral

end PromptChain
