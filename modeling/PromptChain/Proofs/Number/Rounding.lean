import Mathlib.Algebra.Order.Field.Power
import Mathlib.Algebra.Order.Field.Rat
import Mathlib.Tactic.FieldSimp
import Mathlib.Tactic.NormNum
import Mathlib.Tactic.Positivity
import Mathlib.Tactic.Ring
import PromptChain.Number.Decimal
/-!
# Rounding to binary64

Rounding a quotient depends on its value alone, not on how it is written
(`ofRatio_congr`), and a quotient that is a binary64 number is rounded to this number
(`ofRatio_ratio`).  The limits beyond which a decimal is decided without its power of ten are
those at which rounding gives infinity or zero anyway, so that reading a decimal is rounding its
value (`ofDecimal_eq_ofRatio`).  Values are in range up to half a unit above the greatest finite
number (`isFinite_ofRatio_iff`).
-/

namespace PromptChain.Binary64

/-! ## Binades -/

theorem zpow_eq_div {b : Nat} (hb : 0 < b) (e : Int) :
    (b : ℚ) ^ e = (b ^ e.toNat : Nat) / (b ^ (-e).toNat : Nat) := by
  have hne : (b : ℚ) ≠ 0 := by positivity
  rcases Int.le_total 0 e with h | h
  · obtain ⟨n, rfl⟩ := Int.eq_ofNat_of_zero_le h
    simp
  · obtain ⟨n, hn⟩ := Int.eq_ofNat_of_zero_le (Int.neg_nonneg_of_nonpos h)
    obtain rfl : e = -(n : Int) := by omega
    simp

theorem scaled_value (num den : Nat) (q : Int) :
    ((num * 2 ^ (-q).toNat : Nat) / (den * 2 ^ q.toNat : Nat) : ℚ) = num / den / 2 ^ q := by
  have hpow := zpow_eq_div (b := 2) (by decide) q
  push_cast at hpow ⊢
  rw [hpow, div_div_eq_mul_div, div_mul_eq_mul_div, div_div]

theorem le_value_iff {num den : Nat} (hden : 0 < den) (k : Nat) (q : Int) :
    k * (den * 2 ^ q.toNat) ≤ num * 2 ^ (-q).toNat ↔ (k * 2 ^ q : ℚ) ≤ num / den := by
  have hbottom : (0 : ℚ) < (den * 2 ^ q.toNat : Nat) := by positivity
  rw [← le_div_iff₀ (by positivity), ← scaled_value, le_div_iff₀ hbottom]
  exact_mod_cast Iff.rfl

theorem binade_spec {num den : Nat} (hnum : 0 < num) (hden : 0 < den) :
    (2 : ℚ) ^ binade num den ≤ num / den ∧ (num / den : ℚ) < 2 ^ (binade num den + 1) := by
  have hden' : (0 : ℚ) < den := by exact_mod_cast hden
  -- The logarithms of the operands bound the quotient up to a factor of two on each side.
  have hlow : (2 : ℚ) ^ ((Nat.log2 num : Int) - Nat.log2 den - 1) ≤ num / den := by
    have hn : (2 : ℚ) ^ (Nat.log2 num : Int) ≤ num := by
      exact_mod_cast Nat.log2_self_le hnum.ne'
    have hd : (den : ℚ) ≤ 2 ^ ((Nat.log2 den : Int) + 1) := by
      exact_mod_cast (Nat.lt_log2_self (n := den)).le
    rw [le_div_iff₀ hden']
    calc (2 : ℚ) ^ ((Nat.log2 num : Int) - Nat.log2 den - 1) * den
        ≤ 2 ^ ((Nat.log2 num : Int) - Nat.log2 den - 1) * 2 ^ ((Nat.log2 den : Int) + 1) := by
          gcongr
      _ = 2 ^ (Nat.log2 num : Int) := by
          rw [← zpow_add₀ (by norm_num)]
          congr 1
          ring
      _ ≤ num := hn
  have hhigh : (num / den : ℚ) < 2 ^ ((Nat.log2 num : Int) - Nat.log2 den + 1) := by
    have hn : (num : ℚ) < 2 ^ ((Nat.log2 num : Int) + 1) := by
      exact_mod_cast Nat.lt_log2_self (n := num)
    have hd : (2 : ℚ) ^ (Nat.log2 den : Int) ≤ den := by
      exact_mod_cast Nat.log2_self_le hden.ne'
    rw [div_lt_iff₀ hden']
    calc (num : ℚ) < 2 ^ ((Nat.log2 num : Int) + 1) := hn
      _ = 2 ^ ((Nat.log2 num : Int) - Nat.log2 den + 1) * 2 ^ (Nat.log2 den : Int) := by
          rw [← zpow_add₀ (by norm_num)]
          congr 1
          ring
      _ ≤ 2 ^ ((Nat.log2 num : Int) - Nat.log2 den + 1) * den := by gcongr
  have htest : ∀ e : Int, num * Nat.pow 2 (-e).toNat < den * Nat.pow 2 e.toNat ↔
      (num / den : ℚ) < 2 ^ e := by
    intro e
    rw [← not_le, ← not_le, not_iff_not]
    simpa only [Nat.pow_eq, one_mul, Nat.cast_one] using le_value_iff hden 1 e
  unfold binade
  simp only [htest]
  split
  · next hless => exact ⟨hlow, by simpa using hless⟩
  · next hle => exact ⟨not_lt.mp hle, hhigh⟩

theorem binade_eq {num den : Nat} (hnum : 0 < num) (hden : 0 < den) {e : Int}
    (hlow : (2 : ℚ) ^ e ≤ num / den) (hhigh : (num / den : ℚ) < 2 ^ (e + 1)) :
    binade num den = e := by
  obtain ⟨hlow', hhigh'⟩ := binade_spec hnum hden
  have h₁ : e < binade num den + 1 := (zpow_lt_zpow_iff_right₀ (by norm_num)).mp
    (hlow.trans_lt hhigh')
  have h₂ : binade num den < e + 1 := (zpow_lt_zpow_iff_right₀ (by norm_num)).mp
    (hlow'.trans_lt hhigh)
  omega

/-! ## The value alone -/

theorem roundQuotient_mul_right (num den : Nat) {c : Nat} (hc : 0 < c) :
    roundQuotient (num * c) (den * c) = roundQuotient num den := by
  have hless : ∀ a b : Nat, 2 * (a * c) < b * c ↔ 2 * a < b := by
    intro a b
    rw [← mul_assoc, Nat.mul_lt_mul_right hc]
  have hgreater : ∀ a b : Nat, b * c < 2 * (a * c) ↔ b < 2 * a := by
    intro a b
    rw [← mul_assoc, Nat.mul_lt_mul_right hc]
  unfold roundQuotient
  simp only [Nat.mul_div_mul_right _ _ hc, Nat.mul_mod_mul_right, hless, hgreater]

theorem binade_mul_right {num den c : Nat} (hnum : 0 < num) (hden : 0 < den) (hc : 0 < c) :
    binade (num * c) (den * c) = binade num den := by
  have hvalue : ((num * c : Nat) / (den * c : Nat) : ℚ) = num / den := by
    push_cast
    rw [mul_div_mul_right]
    positivity
  obtain ⟨hlow, hhigh⟩ := binade_spec hnum hden
  apply binade_eq (by positivity) (by positivity) <;> rw [hvalue]
  · exact hlow
  · exact hhigh

theorem ofRatio_mul_right (negative : Bool) {num den c : Nat} (hden : 0 < den) (hc : 0 < c) :
    ofRatio negative (num * c) (den * c) = ofRatio negative num den := by
  rcases Nat.eq_zero_or_pos num with rfl | hnum
  · simp [ofRatio]
  · have hne : num * c ≠ 0 := by positivity
    simp only [ofRatio, hne, hnum.ne', if_false, binade_mul_right hnum hden hc]
    rw [mul_right_comm num, mul_right_comm den, roundQuotient_mul_right _ _ hc]

theorem ofRatio_congr (negative : Bool) {num den num' den' : Nat} (hden : 0 < den)
    (hden' : 0 < den') (h : num * den' = num' * den) :
    ofRatio negative num den = ofRatio negative num' den' := by
  rw [← ofRatio_mul_right negative hden hden', h, mul_comm den,
    ofRatio_mul_right negative hden' hden]

/-! ## Numbers of the format -/

theorem roundQuotient_self_mul (m : Nat) {k : Nat} (hk : 0 < k) : roundQuotient (m * k) k = m := by
  have hrest : m * k % k = 0 := Nat.mul_mod_left m k
  have hquotient : m * k / k = m := Nat.mul_div_cancel m hk
  simp [roundQuotient, hrest, hquotient, hk]

theorem assemble_of_canonical (negative : Bool) {m : Nat} {q : Int} (h : Canonical m q) :
    assemble negative m q = .finite negative m q h := by
  have hwidth : m ≠ Nat.pow 2 53 := h.1.ne
  simp only [assemble, if_neg hwidth, dif_pos h]

theorem value_ratio (m : Nat) (q : Int) :
    ((ratio m q).1 / (ratio m q).2 : ℚ) = m * (2 : ℚ) ^ q := by
  have hpow := zpow_eq_div (b := 2) (by decide) q
  push_cast at hpow
  simp only [ratio, Nat.pow_eq, hpow]
  push_cast
  ring

theorem ratio_snd_pos (m : Nat) (q : Int) : 0 < (ratio m q).2 := Nat.two_pow_pos _

theorem ratio_fst_pos {m : Nat} (hm : 0 < m) (q : Int) : 0 < (ratio m q).1 :=
  Nat.mul_pos hm (Nat.two_pow_pos _)

theorem max_binade_ratio {m : Nat} (hm : 0 < m) {q : Int} (h : Canonical m q) :
    max (binade (ratio m q).1 (ratio m q).2 - 52) (-1074) = q := by
  obtain ⟨hwidth, hleast, -, hfull⟩ := h
  obtain ⟨hlow, hhigh⟩ := binade_spec (ratio_fst_pos hm q) (ratio_snd_pos m q)
  rw [value_ratio] at hlow hhigh
  have hpos : (0 : ℚ) < 2 ^ q := by positivity
  have hwidth' : (m : ℚ) < 2 ^ (53 : Int) := by exact_mod_cast hwidth
  have hupper : binade (ratio m q).1 (ratio m q).2 < 53 + q := by
    apply (zpow_lt_zpow_iff_right₀ (a := (2 : ℚ)) (by norm_num)).mp
    calc (2 : ℚ) ^ binade (ratio m q).1 (ratio m q).2 ≤ m * 2 ^ q := hlow
      _ < 2 ^ (53 : Int) * 2 ^ q := by gcongr
      _ = 2 ^ (53 + q) := by rw [← zpow_add₀ (by norm_num)]
  rcases hfull with hfull | hsmall
  · have hfull' : (2 : ℚ) ^ (52 : Int) ≤ m := by exact_mod_cast hfull
    have hlower : 52 + q < binade (ratio m q).1 (ratio m q).2 + 1 := by
      apply (zpow_lt_zpow_iff_right₀ (a := (2 : ℚ)) (by norm_num)).mp
      calc (2 : ℚ) ^ (52 + q) = 2 ^ (52 : Int) * 2 ^ q := by rw [← zpow_add₀ (by norm_num)]
        _ ≤ m * 2 ^ q := by gcongr
        _ < _ := hhigh
    omega
  · omega

theorem ofRatio_ratio (negative : Bool) {m : Nat} {q : Int} (h : Canonical m q) (hm : 0 < m) :
    ofRatio negative (ratio m q).1 (ratio m q).2 = .finite negative m q h := by
  have hround : roundQuotient ((ratio m q).1 * Nat.pow 2 (-q).toNat)
      ((ratio m q).2 * Nat.pow 2 q.toNat) = m := by
    have hscaled := roundQuotient_self_mul m
      (k := Nat.pow 2 (-q).toNat * Nat.pow 2 q.toNat) (Nat.mul_pos (Nat.two_pow_pos _)
        (Nat.two_pow_pos _))
    simp only [ratio]
    rwa [mul_assoc, mul_comm (Nat.pow 2 q.toNat)]
  simp only [ofRatio, (ratio_fst_pos hm q).ne', if_false, max_binade_ratio hm h, hround]
  exact assemble_of_canonical negative h

theorem assemble_eq_finite {negative other : Bool} {m m' : Nat} {q q' : Int}
    {h : Canonical m' q'} (heq : assemble negative m q = .finite other m' q' h) (sign : Bool) :
    assemble sign m q = .finite sign m' q' h := by
  unfold assemble at heq ⊢
  generalize (if m = Nat.pow 2 53 then (Nat.pow 2 52, q + 1) else (m, q)) = carried at heq ⊢
  simp only at heq ⊢
  split at heq
  · next hcanonical =>
    obtain ⟨-, rfl, rfl⟩ := finite.inj heq
    rw [dif_pos hcanonical]
  · cases heq

theorem ofRatio_eq_finite {negative other : Bool} {num den m : Nat} {q : Int} {h : Canonical m q}
    (heq : ofRatio negative num den = .finite other m q h) (sign : Bool) :
    ofRatio sign num den = .finite sign m q h := by
  unfold ofRatio at heq ⊢
  split at heq
  · next hzero =>
    obtain ⟨-, rfl, rfl⟩ := finite.inj heq
    rw [if_pos hzero, zero]
  · next hzero =>
    rw [if_neg hzero]
    exact assemble_eq_finite heq sign

/-! ## Decimals -/

theorem ofRatio_of_large (negative : Bool) {num den : Nat} (hden : 0 < den)
    (h : (2 : ℚ) ^ (1024 : Int) ≤ num / den) : ofRatio negative num den = .infinite negative := by
  have hnum : 0 < num := by
    rcases Nat.eq_zero_or_pos num with rfl | hnum
    · rw [Nat.cast_zero, zero_div] at h
      exact absurd h (not_le.mpr (by positivity))
    · exact hnum
  obtain ⟨-, hhigh⟩ := binade_spec hnum hden
  have hbinade : 1024 < binade num den + 1 := (zpow_lt_zpow_iff_right₀ (by norm_num)).mp
    (h.trans_lt hhigh)
  have hmax : max (binade num den - 52) (-1074) = binade num den - 52 := by omega
  simp only [ofRatio, hnum.ne', if_false, hmax, assemble]
  rw [dif_neg]
  rintro ⟨-, -, hexponent, -⟩
  split at hexponent <;> omega

theorem roundQuotient_of_small {num den : Nat} (hden : 0 < den) {q : Int}
    (h : (num / den : ℚ) < 2 ^ q / 4) :
    roundQuotient (num * Nat.pow 2 (-q).toNat) (den * Nat.pow 2 q.toNat) = 0 := by
  have hbottom : (0 : ℚ) < (den * 2 ^ q.toNat : Nat) := by positivity
  have hsmall : 4 * (num * 2 ^ (-q).toNat) < den * 2 ^ q.toNat := by
    have hquarter : (num / den / 2 ^ q : ℚ) < 1 / 4 := by
      rwa [div_lt_iff₀ (by positivity), one_div_mul_eq_div]
    rw [← scaled_value, div_lt_div_iff₀ hbottom (by norm_num), one_mul, mul_comm] at hquarter
    exact_mod_cast hquarter
  simp only [Nat.pow_eq]
  generalize num * 2 ^ (-q).toNat = top at hsmall ⊢
  generalize den * 2 ^ q.toNat = bottom at hsmall ⊢
  have hquotient : top / bottom = 0 := Nat.div_eq_of_lt (by omega)
  have hrest : top % bottom = top := Nat.mod_eq_of_lt (by omega)
  simp only [roundQuotient, hquotient, hrest]
  rw [if_pos (by omega)]

theorem ofRatio_of_small (negative : Bool) {num den : Nat} (hden : 0 < den)
    (h : (num / den : ℚ) < 2 ^ (-1076 : Int)) : ofRatio negative num den = zero negative := by
  rcases Nat.eq_zero_or_pos num with rfl | hnum
  · simp [ofRatio]
  · obtain ⟨hlow, -⟩ := binade_spec hnum hden
    have hbinade : binade num den < -1076 := (zpow_lt_zpow_iff_right₀ (by norm_num)).mp
      (hlow.trans_lt h)
    have hmax : max (binade num den - 52) (-1074) = -1074 := by omega
    have hquarter : (2 : ℚ) ^ (-1076 : Int) = 2 ^ (-1074 : Int) / 4 := by
      rw [show (-1076 : Int) = -1074 - 2 by norm_num, zpow_sub₀ (by norm_num)]
      norm_num only [zpow_ofNat]
    have hround := roundQuotient_of_small hden (hquarter ▸ h)
    simp only [ofRatio, hnum.ne', if_false, hmax, hround]
    exact assemble_of_canonical negative (by decide)

theorem two_zpow_le_decimal {digits : Nat} (hdigits : digits ≠ 0) (n : Nat) :
    (2 : ℚ) ^ ((Nat.log2 digits : Int) + 3 * (n : Int)) ≤ digits * 10 ^ n := by
  have hlog : (2 : ℚ) ^ (Nat.log2 digits) ≤ digits := by
    exact_mod_cast Nat.log2_self_le hdigits
  calc (2 : ℚ) ^ ((Nat.log2 digits : Int) + 3 * (n : Int)) = 2 ^ (Nat.log2 digits) * 8 ^ n := by
        rw [zpow_add₀ (by norm_num), zpow_mul]
        norm_num
    _ ≤ digits * 10 ^ n := by
        gcongr
        norm_num

theorem decimal_lt_two_zpow (digits n : Nat) :
    (digits : ℚ) * (10 ^ n)⁻¹ < 2 ^ ((Nat.log2 digits : Int) + 1 + 3 * -(n : Int)) := by
  have hlog : (digits : ℚ) < 2 ^ (Nat.log2 digits + 1) := by
    exact_mod_cast Nat.lt_log2_self (n := digits)
  calc (digits : ℚ) * (10 ^ n)⁻¹ < 2 ^ (Nat.log2 digits + 1) * (10 ^ n)⁻¹ := by gcongr
    _ ≤ 2 ^ (Nat.log2 digits + 1) * (8 ^ n)⁻¹ := by
        gcongr
        norm_num
    _ = 2 ^ ((Nat.log2 digits : Int) + 1 + 3 * -(n : Int)) := by
        rw [zpow_add₀ (by norm_num), zpow_mul, zpow_neg, zpow_natCast]
        norm_cast

theorem decimal_value (digits : Nat) (exponent : Int) :
    ((digits * 10 ^ exponent.toNat : Nat) / (10 ^ (-exponent).toNat : Nat) : ℚ) =
      digits * (10 : ℚ) ^ exponent := by
  have hpow := zpow_eq_div (b := 10) (by decide) exponent
  push_cast at hpow ⊢
  rw [hpow]
  ring

/-- To read a decimal is to round its value. -/
theorem ofDecimal_eq_ofRatio (negative : Bool) (digits : Nat) (exponent : Int) :
    ofDecimal negative digits exponent =
      ofRatio negative (digits * 10 ^ exponent.toNat) (10 ^ (-exponent).toNat) := by
  have hten : (0 : Nat) < 10 ^ (-exponent).toNat := by positivity
  have hvalue := decimal_value digits exponent
  unfold ofDecimal
  simp only [Bool.and_eq_true, decide_eq_true_eq, Nat.pow_eq]
  split
  · next hzero => simp [ofRatio, hzero]
  next hdigits =>
  split
  · next hlarge =>
    obtain ⟨hexponent, hsize⟩ := hlarge
    obtain ⟨n, rfl⟩ := Int.eq_ofNat_of_zero_le hexponent
    refine (ofRatio_of_large negative hten ?_).symm
    rw [hvalue]
    calc (2 : ℚ) ^ (1024 : Int) ≤ 2 ^ ((Nat.log2 digits : Int) + 3 * (n : Int)) := by
          gcongr
          norm_num
      _ ≤ digits * 10 ^ n := two_zpow_le_decimal hdigits n
      _ = digits * 10 ^ (n : Int) := by rw [zpow_natCast]
  split
  · next hsmall =>
    obtain ⟨hexponent, hsize⟩ := hsmall
    obtain ⟨n, hn⟩ := Int.eq_ofNat_of_zero_le (a := -exponent) (by omega)
    obtain rfl : exponent = -(n : Int) := by omega
    refine (ofRatio_of_small negative hten ?_).symm
    rw [hvalue]
    calc (digits : ℚ) * 10 ^ (-(n : Int)) = digits * (10 ^ n)⁻¹ := by simp
      _ < 2 ^ ((Nat.log2 digits : Int) + 1 + 3 * -(n : Int)) := decimal_lt_two_zpow digits n
      _ ≤ 2 ^ (-1076 : Int) := by
          gcongr
          · norm_num
          · omega
  · rfl

theorem ofDecimal_congr (negative : Bool) {digits digits' : Nat} {exponent exponent' : Int}
    (h : (digits : ℚ) * 10 ^ exponent = digits' * 10 ^ exponent') :
    ofDecimal negative digits exponent = ofDecimal negative digits' exponent' := by
  rw [ofDecimal_eq_ofRatio, ofDecimal_eq_ofRatio]
  apply ofRatio_congr negative (by positivity) (by positivity)
  rw [← decimal_value, ← decimal_value, div_eq_div_iff (by positivity) (by positivity)] at h
  exact_mod_cast h

/-! ## The range -/

/-- The least magnitude that is rounded to infinity: the greatest finite number,
`(2 ^ 53 - 1) * 2 ^ 971`, and half a unit more. -/
def leastInfinite : Nat := (Nat.pow 2 54 - 1) * Nat.pow 2 970

theorem roundQuotient_mem {num den low high : Nat} (hlow : low * den ≤ num)
    (hhigh : num < high * den) :
    low ≤ roundQuotient num den ∧ roundQuotient num den ≤ high := by
  have hden : 0 < den := Nat.pos_of_mul_pos_left (Nat.zero_lt_of_lt hhigh)
  have hfloor : low ≤ num / den := (Nat.le_div_iff_mul_le hden).mpr hlow
  have hceiling : num / den < high := (Nat.div_lt_iff_lt_mul hden).mpr hhigh
  unfold roundQuotient
  dsimp only
  split_ifs <;> omega

/-- A significand of full width, one that rounding has carried beyond it, or one at the least
exponent, is in range up to the greatest exponent, and there unless it was carried. -/
theorem isFinite_assemble_iff (negative : Bool) {m : Nat} {q : Int}
    (hfull : Nat.pow 2 52 ≤ m ∨ q = -1074) (hhigh : m ≤ Nat.pow 2 53) (hq : -1074 ≤ q) :
    (assemble negative m q).isFinite = true ↔ q < 971 ∨ q = 971 ∧ m < Nat.pow 2 53 := by
  have hfinite : ∀ {m : Nat} {q : Int}, (if h : Canonical m q then finite negative m q h
      else infinite negative).isFinite = true ↔ Canonical m q := by
    intro m q
    split
    · next h => exact iff_of_true rfl h
    · next h => exact iff_of_false Bool.false_ne_true h
  unfold assemble
  dsimp only
  rw [hfinite, Canonical]
  by_cases hcarried : m = Nat.pow 2 53
  · simp only [hcarried, if_true]
    have hwidth : Nat.pow 2 52 < Nat.pow 2 53 := by decide
    omega
  · simp only [hcarried, if_false]
    omega

theorem roundQuotient_lt_width_iff {num half : Nat} (hhalf : 0 < half)
    (hhigh : num < Nat.pow 2 53 * (2 * half)) :
    roundQuotient num (2 * half) < Nat.pow 2 53 ↔ num < (Nat.pow 2 54 - 1) * half := by
  simp only [Nat.pow_eq, Nat.reducePow, Nat.reduceSub] at hhigh ⊢
  rcases Nat.lt_or_ge num (9007199254740991 * (2 * half)) with hbelow | hlast
  · have hquotient : num / (2 * half) < 9007199254740991 :=
      (Nat.div_lt_iff_lt_mul (by omega)).mpr hbelow
    refine iff_of_true ?_ (by omega)
    unfold roundQuotient
    dsimp only
    split_ifs <;> omega
  · have hquotient : num / (2 * half) = 9007199254740991 :=
      Nat.div_eq_of_lt_le (by omega) (by omega)
    have hrest : num % (2 * half) = num - 2 * half * 9007199254740991 := by
      rw [Nat.mod_eq_sub_mul_div, hquotient]
    have hodd : ¬ 9007199254740991 % 2 = 0 := by decide
    unfold roundQuotient
    rw [hquotient, hrest]
    dsimp only
    rw [if_neg hodd]
    split_ifs <;> omega

section

variable {num den : Nat} (hden : 0 < den) {e q : Int} (hhigh : (num / den : ℚ) < 2 ^ (e + 1))
  (hq : max (e - 52) (-1074) = q)
include hden hhigh hq

theorem lt_width : num * 2 ^ (-q).toNat < Nat.pow 2 53 * (den * 2 ^ q.toNat) := by
  rw [← not_le, le_value_iff hden, not_le]
  calc (num / den : ℚ) < 2 ^ (e + 1) := hhigh
    _ ≤ 2 ^ (53 + q) := zpow_le_zpow_right₀ (by norm_num) (by omega)
    _ = (Nat.pow 2 53 : Nat) * 2 ^ q := by
        rw [zpow_add₀ (by norm_num)]
        norm_num

/-- There it is rounded to a significand of full width, unless the exponent is the least one. -/
theorem roundQuotient_width (hlow : (2 : ℚ) ^ e ≤ num / den) :
    (Nat.pow 2 52 ≤ roundQuotient (num * 2 ^ (-q).toNat) (den * 2 ^ q.toNat) ∨ q = -1074) ∧
      roundQuotient (num * 2 ^ (-q).toNat) (den * 2 ^ q.toNat) ≤ Nat.pow 2 53 := by
  have hbelow := lt_width hden hhigh hq
  refine ⟨?_, (roundQuotient_mem (Nat.zero_mul _ ▸ Nat.zero_le _) hbelow).2⟩
  rw [or_iff_not_imp_right]
  intro hleast
  refine (roundQuotient_mem ?_ hbelow).1
  rw [le_value_iff hden]
  calc ((Nat.pow 2 52 : Nat) * 2 ^ q : ℚ) = 2 ^ (52 + q) := by
        rw [zpow_add₀ (by norm_num)]
        norm_num
    _ = 2 ^ e := by
        congr 1
        omega
    _ ≤ num / den := hlow

end

/-- **The range.**  A value is near some finite number up to half a unit above the greatest one. -/
theorem isFinite_ofRatio_iff (negative : Bool) (num : Nat) {den : Nat} (hden : 0 < den) :
    (ofRatio negative num den).isFinite = true ↔ num < leastInfinite * den := by
  -- The exponent has a name so that its power of two is not computed.
  obtain ⟨d, hd, hleast⟩ : ∃ d, d = 970 ∧ leastInfinite = (Nat.pow 2 54 - 1) * Nat.pow 2 d :=
    ⟨970, rfl, by rw [leastInfinite]⟩
  simp only [ofRatio, hleast, Nat.pow_eq]
  rcases Nat.eq_zero_or_pos num with rfl | hnum
  · exact iff_of_true rfl (Nat.mul_pos (Nat.mul_pos (by decide) (Nat.two_pow_pos d)) hden)
  rw [if_neg hnum.ne']
  have hden' : (0 : ℚ) < den := by exact_mod_cast hden
  obtain ⟨hlow, hhigh⟩ := binade_spec hnum hden
  generalize binade num den = e at hlow hhigh ⊢
  generalize hq : max (e - 52) (-1074) = q
  obtain ⟨hfull, hcarry⟩ := roundQuotient_width hden hhigh hq hlow
  rw [isFinite_assemble_iff negative hfull hcarry (by omega)]
  rcases Int.lt_trichotomy e (53 + d) with he | rfl | he
  · refine iff_of_true (.inl (by omega)) ?_
    have hless : (num : ℚ) < 2 ^ (53 + d) * den := by
      rw [← div_lt_iff₀ hden']
      calc (num / den : ℚ) < 2 ^ (e + 1) := hhigh
        _ ≤ 2 ^ ((53 + d : Nat) : Int) := zpow_le_zpow_right₀ (by norm_num) (by omega)
        _ = 2 ^ (53 + d) := zpow_natCast ..
    calc num < 2 ^ (53 + d) * den := by exact_mod_cast hless
      _ = 2 ^ 53 * 2 ^ d * den := by rw [pow_add]
      _ ≤ (2 ^ 54 - 1) * 2 ^ d * den := by gcongr; norm_num
  · have hshift : (-q).toNat = 0 := by omega
    have hexponent : q.toNat = d + 1 := by omega
    have hhalf : 0 < den * 2 ^ d := Nat.mul_pos hden (Nat.two_pow_pos d)
    have hunit : den * 2 ^ (d + 1) = 2 * (den * 2 ^ d) := by ring
    have hlast := lt_width hden hhigh hq
    rw [hshift, hexponent, hunit, pow_zero, mul_one] at hlast ⊢
    rw [roundQuotient_lt_width_iff hhalf hlast, Nat.pow_eq, mul_comm den, mul_assoc]
    omega
  · refine iff_of_false (by omega) (not_lt.mpr ?_)
    have hle : (2 : ℚ) ^ (54 + d) * den ≤ num := by
      rw [← le_div_iff₀ hden']
      calc (2 : ℚ) ^ (54 + d) = 2 ^ ((54 + d : Nat) : Int) := (zpow_natCast ..).symm
        _ ≤ 2 ^ e := zpow_le_zpow_right₀ (by norm_num) (by omega)
        _ ≤ num / den := hlow
    calc (2 ^ 54 - 1) * 2 ^ d * den ≤ 2 ^ 54 * 2 ^ d * den := by gcongr; norm_num
      _ = 2 ^ (54 + d) * den := by rw [pow_add]
      _ ≤ num := by exact_mod_cast hle

theorem isFinite_ofInt_iff (n : Int) :
    (ofInt n).isFinite = true ↔ n.natAbs < leastInfinite := by
  rw [ofInt, isFinite_ofRatio_iff _ _ Nat.one_pos, Nat.mul_one]

end PromptChain.Binary64
