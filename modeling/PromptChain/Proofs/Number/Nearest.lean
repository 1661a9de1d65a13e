import Mathlib.Tactic.Linarith
import PromptChain.Proofs.Number.Rounding
/-!
# The nearest number

What a quotient is rounded to is, of all finite numbers of the format, the one that is nearest to
it, and of two that are as near the even one (`isNearest_ofRatio`).  A significand is the nearest
whole number of units at its own exponent; numbers with a greater exponent are whole numbers of
these units too, and those with a smaller one lie below all that are rounded in this binade.
-/

namespace PromptChain.Binary64

/-- `IsNearest x m q`: no finite magnitude is nearer to `x` than `m * 2 ^ q`, and if another one is
as near, then `m` is even. -/
structure IsNearest (x : ℚ) (m : Nat) (q : Int) : Prop where
  le {n : Nat} {r : Int} (h : Canonical n r) : |m * (2 : ℚ) ^ q - x| ≤ |n * (2 : ℚ) ^ r - x|
  even {n : Nat} {r : Int} (h : Canonical n r) (hne : n * (2 : ℚ) ^ r ≠ m * (2 : ℚ) ^ q)
    (htie : |m * (2 : ℚ) ^ q - x| = |n * (2 : ℚ) ^ r - x|) : m % 2 = 0

/-! ## Whole numbers -/

theorem abs_roundQuotient_sub_le (num : Nat) {den : Nat} (hden : 0 < den) :
    |(roundQuotient num den : ℚ) - num / den| ≤ 1 / 2 ∧
      (|(roundQuotient num den : ℚ) - num / den| = 1 / 2 → roundQuotient num den % 2 = 0) := by
  have hden' : (0 : ℚ) < den := by exact_mod_cast hden
  have hvalue : (num / den : ℚ) = (num / den : Nat) + (num % den : Nat) / den := by
    rw [← sub_eq_iff_eq_add', eq_div_iff hden'.ne', sub_mul, div_mul_cancel₀ _ hden'.ne']
    have hsplit := Nat.div_add_mod' num den
    rw [sub_eq_iff_eq_add']
    exact_mod_cast hsplit.symm
  have hrest : (0 : ℚ) ≤ (num % den : Nat) / den := by positivity
  rw [hvalue, roundQuotient]
  generalize num / den = quotient
  split_ifs with hbelow habove heven
  · have hhalf : ((num % den : Nat) / den : ℚ) < 1 / 2 := by
      rw [div_lt_div_iff₀ hden' (by norm_num), one_mul, mul_comm]
      exact_mod_cast hbelow
    rw [sub_add_cancel_left, abs_neg, abs_of_nonneg hrest]
    exact ⟨hhalf.le, fun htie => absurd htie hhalf.ne⟩
  · have hhalf : 1 / 2 < ((num % den : Nat) / den : ℚ) := by
      rw [div_lt_div_iff₀ (by norm_num) hden', one_mul, mul_comm]
      exact_mod_cast habove
    have hone : ((num % den : Nat) / den : ℚ) ≤ 1 := by
      rw [div_le_one hden']
      exact_mod_cast (Nat.mod_lt num hden).le
    rw [Nat.cast_add_one, add_sub_add_left_eq_sub, abs_of_nonneg (by linarith)]
    exact ⟨by linarith, fun htie => by linarith⟩
  all_goals
    have hhalf : ((num % den : Nat) / den : ℚ) = 1 / 2 := by
      rw [div_eq_div_iff hden'.ne' (by norm_num), one_mul, mul_comm]
      exact_mod_cast (by omega : 2 * (num % den) = den)
    rw [hhalf]
  · rw [sub_add_cancel_left, abs_neg]
    exact ⟨by norm_num, fun _ => heven⟩
  · rw [Nat.cast_add_one, add_sub_add_left_eq_sub]
    exact ⟨by norm_num, fun _ => by omega⟩

theorem roundQuotient_nearest (num : Nat) {den : Nat} (hden : 0 < den) (k : Nat) :
    |(roundQuotient num den : ℚ) - num / den| ≤ |(k : ℚ) - num / den| ∧
      (k ≠ roundQuotient num den →
        |(roundQuotient num den : ℚ) - num / den| = |(k : ℚ) - num / den| →
          roundQuotient num den % 2 = 0) := by
  obtain ⟨hhalf, heven⟩ := abs_roundQuotient_sub_le num hden
  generalize roundQuotient num den = rounded at *
  by_cases hk : k = rounded
  · exact ⟨hk ▸ le_rfl, fun hne => absurd hk hne⟩
  · have happart : (1 : ℚ) ≤ |(rounded : ℚ) - k| := by
      have hint : (1 : Int) ≤ |(rounded : Int) - k| := Int.one_le_abs (by omega)
      exact_mod_cast hint
    have htriangle := abs_sub_le (rounded : ℚ) (num / den) k
    rw [abs_sub_comm (num / den : ℚ)] at htriangle
    exact ⟨by linarith, fun _ htie => heven (by linarith)⟩

/-! ## Numbers of the format -/

section

variable {num den : Nat} (hden : 0 < den)
include hden

theorem roundQuotient_units (q : Int) (k : Nat) :
    |(roundQuotient (num * 2 ^ (-q).toNat) (den * 2 ^ q.toNat) : ℚ) * 2 ^ q - num / den| ≤
        |(k : ℚ) * 2 ^ q - num / den| ∧
      (k ≠ roundQuotient (num * 2 ^ (-q).toNat) (den * 2 ^ q.toNat) →
        |(roundQuotient (num * 2 ^ (-q).toNat) (den * 2 ^ q.toNat) : ℚ) * 2 ^ q - num / den| =
            |(k : ℚ) * 2 ^ q - num / den| →
          roundQuotient (num * 2 ^ (-q).toNat) (den * 2 ^ q.toNat) % 2 = 0) := by
  have hunit : (0 : ℚ) < 2 ^ q := by positivity
  have hscale : ∀ n : Nat, |(n : ℚ) * 2 ^ q - num / den| =
      |(n : ℚ) - (num * 2 ^ (-q).toNat : Nat) / (den * 2 ^ q.toNat : Nat)| * 2 ^ q := by
    intro n
    rw [scaled_value, ← abs_of_pos hunit, ← abs_mul, abs_of_pos hunit, sub_mul,
      div_mul_cancel₀ _ hunit.ne']
  have hnearest := roundQuotient_nearest (num * 2 ^ (-q).toNat)
    (by positivity : 0 < den * 2 ^ q.toNat) k
  rw [hscale, hscale, mul_le_mul_iff_left₀ hunit, mul_left_inj' hunit.ne']
  exact hnearest

theorem roundQuotient_lt_of_lt {e q : Int} (hlow : (2 : ℚ) ^ e ≤ num / den)
    (hq : max (e - 52) (-1074) = q) {n : Nat} {r : Int} (h : Canonical n r) (hr : r < q) :
    |(roundQuotient (num * 2 ^ (-q).toNat) (den * 2 ^ q.toNat) : ℚ) * 2 ^ q - num / den| <
      |(n : ℚ) * 2 ^ r - num / den| := by
  obtain ⟨hwidth, hleast, -, -⟩ := h
  have hfirst : ((Nat.pow 2 52 : Nat) : ℚ) * 2 ^ q = 2 ^ e := by
    have hexponent : e = 52 + q := by omega
    rw [hexponent, zpow_add₀ (by norm_num)]
    norm_num
  have hbelow : (n : ℚ) * 2 ^ r < 2 ^ e := by
    have hwidth' : (n : ℚ) < 2 ^ (53 : Int) := by exact_mod_cast hwidth
    calc (n : ℚ) * 2 ^ r < 2 ^ (53 : Int) * 2 ^ r := by gcongr
      _ = 2 ^ (53 + r) := by rw [zpow_add₀ (by norm_num)]
      _ ≤ 2 ^ e := zpow_le_zpow_right₀ (by norm_num) (by omega)
  calc |(roundQuotient (num * 2 ^ (-q).toNat) (den * 2 ^ q.toNat) : ℚ) * 2 ^ q - num / den|
      ≤ |((Nat.pow 2 52 : Nat) : ℚ) * 2 ^ q - num / den| := (roundQuotient_units hden q _).1
    _ = num / den - 2 ^ e := by
        rw [hfirst, abs_sub_comm, abs_of_nonneg (by linarith)]
    _ < num / den - n * 2 ^ r := by linarith
    _ = |(n : ℚ) * 2 ^ r - num / den| := by
        rw [abs_sub_comm, abs_of_nonneg (by linarith)]

theorem isNearest_roundQuotient {e q : Int} (hlow : (2 : ℚ) ^ e ≤ num / den)
    (hq : max (e - 52) (-1074) = q) :
    IsNearest (num / den) (roundQuotient (num * 2 ^ (-q).toNat) (den * 2 ^ q.toNat)) q := by
  -- With the exponent or a greater one, a number is a whole number of units.
  have hunits : ∀ {r : Int} (n : Nat), q ≤ r →
      (n : ℚ) * 2 ^ r = ((n * 2 ^ (r - q).toNat : Nat) : ℚ) * 2 ^ q := by
    intro r n hr
    obtain ⟨k, hk⟩ := Int.eq_ofNat_of_zero_le (Int.sub_nonneg_of_le hr)
    obtain rfl : r = k + q := by omega
    rw [zpow_add₀ (by norm_num), zpow_natCast, ← mul_assoc]
    simp
  constructor
  · intro n r h
    rcases lt_or_ge r q with hr | hr
    · exact (roundQuotient_lt_of_lt hden hlow hq h hr).le
    · rw [hunits n hr]
      exact (roundQuotient_units hden q _).1
  · intro n r h hne htie
    rcases lt_or_ge r q with hr | hr
    · exact absurd htie (roundQuotient_lt_of_lt hden hlow hq h hr).ne
    · rw [hunits n hr] at hne htie
      refine (roundQuotient_units hden q _).2 (fun heq => hne ?_) htie
      rw [heq]

end

/-- A significand that was carried is as near as before, and it is even. -/
theorem IsNearest.of_assemble {x : ℚ} {m n : Nat} {q r : Int} {negative other : Bool}
    (h : IsNearest x m q) {hcanonical : Canonical n r}
    (hfinite : assemble negative m q = .finite other n r hcanonical) : IsNearest x n r := by
  unfold assemble at hfinite
  split at hfinite
  next significand exponent hcarried =>
  split at hfinite
  · obtain ⟨-, rfl, rfl⟩ := finite.inj hfinite
    split at hcarried
    · next hwidth =>
      obtain ⟨rfl, rfl⟩ := Prod.mk.inj hcarried
      have hvalue : ((Nat.pow 2 52 : Nat) : ℚ) * 2 ^ (q + 1) = m * 2 ^ q := by
        rw [hwidth, zpow_add_one₀ (by norm_num)]
        push_cast
        ring
      exact ⟨fun hn => hvalue ▸ h.le hn, fun _ _ _ => by decide⟩
    · obtain ⟨rfl, rfl⟩ := Prod.mk.inj hcarried
      exact h
  · cases hfinite

theorem assemble_cases (negative : Bool) (m : Nat) (q : Int) :
    (∃ n r h, assemble negative m q = .finite negative n r h) ∨
      assemble negative m q = .infinite negative := by
  unfold assemble
  generalize (if m = Nat.pow 2 53 then (Nat.pow 2 52, q + 1) else (m, q)) = carried
  simp only
  split
  · next hcanonical => exact .inl ⟨_, _, hcanonical, rfl⟩
  · exact .inr rfl

theorem ofRatio_cases (negative : Bool) (num : Nat) {den : Nat} (hden : 0 < den) :
    (∃ m q h, ofRatio negative num den = .finite negative m q h ∧ IsNearest (num / den) m q) ∨
      ofRatio negative num den = .infinite negative := by
  unfold ofRatio
  split
  · next hzero =>
    have hnearest : IsNearest (num / den) 0 (-1074) := by
      constructor
      · intro n r _
        simp only [hzero, Nat.cast_zero, zero_mul, zero_div, sub_zero, abs_zero]
        exact abs_nonneg _
      · exact fun _ _ _ => rfl
    exact .inl ⟨0, -1074, by decide, rfl, hnearest⟩
  · next hnum =>
    obtain ⟨hlow, -⟩ := binade_spec (Nat.pos_of_ne_zero hnum) hden
    have hnearest := isNearest_roundQuotient hden hlow rfl
    rcases assemble_cases negative _ _ with ⟨m, q, h, hfinite⟩ | hinfinite
    · exact .inl ⟨m, q, h, hfinite, hnearest.of_assemble hfinite⟩
    · exact .inr hinfinite

/-- **To the nearest number.**  A value in range is rounded to the number nearest to it, and any
other one to infinity. -/
theorem isNearest_ofRatio (negative : Bool) (num : Nat) {den : Nat} (hden : 0 < den) :
    (num < leastInfinite * den → ∃ m q h, ofRatio negative num den = .finite negative m q h ∧
      IsNearest (num / den) m q) ∧
      (leastInfinite * den ≤ num → ofRatio negative num den = .infinite negative) := by
  have hrange := isFinite_ofRatio_iff negative num hden
  rcases ofRatio_cases negative num hden with ⟨m, q, h, hfinite, hnearest⟩ | hinfinite
  · have hless := hrange.mp (by rw [hfinite]; rfl)
    exact ⟨fun _ => ⟨m, q, h, hfinite, hnearest⟩, fun hle => absurd hless (not_lt.mpr hle)⟩
  · refine ⟨fun hless => ?_, fun _ => hinfinite⟩
    have hfinite := hrange.mpr hless
    rw [hinfinite] at hfinite
    cases hfinite

end PromptChain.Binary64
