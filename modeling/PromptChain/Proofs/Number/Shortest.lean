import PromptChain.Proofs.Json.Numerals
import PromptChain.Proofs.Number.Rounding
/-!
# The decimal text of a number

The digits that are found for a number read back as the number (`ofDecimal_shortest`), and its text,
positional or with an exponent, is a numeral of the value of these digits (`exists_numeral`).
-/

namespace PromptChain

/-! ## Digits -/

theorem natOfDigits_append (front back : List Char) :
    natOfDigits (front ++ back) = natOfDigits front * 10 ^ back.length + natOfDigits back := by
  have hfrom : ∀ (n : Nat) (digits : List Char),
      digits.foldl (fun n c => 10 * n + digitValue c) n =
        n * 10 ^ digits.length + natOfDigits digits := by
    intro n digits
    rw [natOfDigits_eq]
    induction digits generalizing n with
    | nil => simp
    | cons c rest ih =>
      rw [List.foldl_cons, List.foldl_cons, ih, ih (10 * 0 + digitValue c), List.length_cons,
        pow_succ]
      ring
  rw [natOfDigits_eq, List.foldl_append, ← natOfDigits_eq, hfrom]

theorem natOfDigits_zeros (k : Nat) : natOfDigits (List.replicate k '0') = 0 := by
  rw [natOfDigits_eq]
  induction k with
  | zero => rfl
  | succ k ih => exact ih

theorem natOfDigits_zeros_append (k : Nat) (digits : List Char) :
    natOfDigits (List.replicate k '0' ++ digits) = natOfDigits digits := by
  rw [natOfDigits_append, natOfDigits_zeros, zero_mul, zero_add]

theorem natOfDigits_append_zeros (digits : List Char) (k : Nat) :
    natOfDigits (digits ++ List.replicate k '0') = natOfDigits digits * 10 ^ k := by
  rw [natOfDigits_append, natOfDigits_zeros, List.length_replicate, add_zero]

namespace Binary64

theorem exists_trimZeros (digits : List Char) :
    ∃ k, digits = trimZeros digits ++ List.replicate k '0' := by
  refine ⟨(digits.reverse.takeWhile (· = '0')).length, ?_⟩
  have hzeros : digits.reverse.takeWhile (· = '0') =
      List.replicate (digits.reverse.takeWhile (· = '0')).length '0' := by
    apply List.eq_replicate_of_mem
    intro c hc
    simpa using List.mem_takeWhile_imp hc
  rw [trimZeros, ← List.reverse_replicate, ← hzeros, ← List.reverse_append,
    List.takeWhile_append_dropWhile, List.reverse_reverse]

/-! ## The shortest decimal -/

theorem of_neighbour?_eq_some {reads : Nat → Bool} {num den digits : Nat} {exponent : Int}
    (h : neighbour? reads num den exponent = some digits) : reads digits = true := by
  unfold neighbour? at h
  simp only at h
  split at h
  · next hlow hnext =>
    split_ifs at h <;> obtain rfl := Option.some.inj h <;> assumption
  · next hlow _ =>
    obtain rfl := Option.some.inj h
    exact hlow
  · next hnext =>
    obtain rfl := Option.some.inj h
    exact hnext
  · cases h

theorem ofDecimal_exact (negative : Bool) {m : Nat} {q : Int} (h : Canonical m q) (hm : 0 < m) :
    ofDecimal negative ((ratio m q).1 * Nat.pow 5 (-q).toNat) (-((-q).toNat : Int)) =
      .finite negative m q h := by
  rw [ofDecimal_eq_ofRatio, ← ofRatio_ratio negative h hm]
  apply ofRatio_congr negative (by positivity) (ratio_snd_pos m q)
  have htoNat : (-((-q).toNat : Int)).toNat = 0 ∧ (-(-((-q).toNat : Int))).toNat = (-q).toNat := by
    omega
  rw [htoNat.1, htoNat.2]
  simp only [ratio, Nat.pow_eq, pow_zero, mul_one]
  rw [show (10 : Nat) = 5 * 2 from rfl, Nat.mul_pow]
  ring

/-- The digits that are found for a number read back as the number. -/
theorem ofDecimal_shortest (negative : Bool) {m : Nat} {q : Int} (h : Canonical m q) (hm : 0 < m) :
    ofDecimal negative (shortest m q).1 (shortest m q).2 = .finite negative m q h := by
  unfold shortest
  simp only
  generalize hfound : (List.range 17).findSome? _ = found
  cases found with
  | none => exact ofDecimal_exact negative h hm
  | some found =>
    obtain ⟨count, -, hcount⟩ := List.exists_of_findSome?_eq_some hfound
    obtain ⟨digits, hdigits, rfl⟩ := Option.map_eq_some_iff.mp hcount
    have hreads := of_neighbour?_eq_some hdigits
    rw [Option.getD_some]
    generalize decade (ratio m q).1 (ratio m q).2 - ((count + 1 : Nat) : Int) = exponent
      at hreads ⊢
    split at hreads
    · next heq =>
      simp only [Bool.and_eq_true, decide_eq_true_eq] at hreads
      obtain ⟨rfl, rfl⟩ := hreads
      rw [ofDecimal_eq_ofRatio] at heq ⊢
      exact ofRatio_eq_finite heq negative
    · cases hreads

end Binary64

/-! ## Numerals -/

namespace Numeral

def fractionText : Option (List Char) → List Char
  | none => []
  | some digits => '.' :: digits

def exponentText : Option (Bool × List Char) → List Char
  | none => []
  | some (negative, digits) => 'e' :: (if negative then '-' else '+') :: digits

def magnitudeText (n : Numeral) : List Char :=
  n.whole ++ (fractionText n.fraction ++ exponentText n.exponent)

def IsDigits (digits : List Char) : Prop := digits ≠ [] ∧ ∀ c ∈ digits, isDigit c = true

/-- Whether the parts of a numeral are as in texts: the whole part is a zero or starts with another
digit, and where there is a point or an exponent there are digits. -/
structure Proper (n : Numeral) : Prop where
  whole : IsDigits n.whole
  lead : ∀ rest, n.whole = '0' :: rest → rest = []
  fraction : ∀ digits ∈ n.fraction, IsDigits digits
  exponent : ∀ part ∈ n.exponent, IsDigits part.2

def digits (n : Numeral) : Nat := natOfDigits (n.whole ++ n.fraction.getD [])

def scale (n : Numeral) : Int := n.power - ((n.fraction.getD []).length : Int)

theorem toBinary64_eq (n : Numeral) :
    n.toBinary64 = Binary64.ofDecimal n.negative n.digits n.scale := rfl

end Numeral

namespace Binary64

open Numeral (IsDigits)

theorem isDigits_natDigits (n : Nat) : IsDigits (natDigits n) :=
  ⟨natDigits_ne_nil n, fun _ hc => isDigit_of_mem_natDigits hc⟩

theorem isDigits_zero : IsDigits ['0'] := by
  refine ⟨by simp, fun c hc => ?_⟩
  obtain rfl := List.mem_singleton.mp hc
  rfl

theorem isDigits_append {front back : List Char} (hfront : IsDigits front)
    (hback : ∀ c ∈ back, isDigit c = true) : IsDigits (front ++ back) := by
  refine ⟨by simp [hfront.1], fun c hc => ?_⟩
  rcases List.mem_append.mp hc with hc | hc
  · exact hfront.2 c hc
  · exact hback c hc

theorem isDigit_of_mem_zeros {k : Nat} {c : Char} (h : c ∈ List.replicate k '0') :
    isDigit c = true := by
  rw [(List.mem_replicate.mp h).2]
  rfl

theorem exists_exponent (e : Int) :
    ∃ negative digits, exponentChars e = Numeral.exponentText (some (negative, digits)) ∧
      IsDigits digits ∧
      (if negative then -(natOfDigits digits : Int) else natOfDigits digits) = e := by
  have hvalue : natOfDigits ('0' :: natDigits e.natAbs) = natOfDigits (natDigits e.natAbs) :=
    natOfDigits_zeros_append 1 _
  have hdigits := isDigits_natDigits e.natAbs
  obtain ⟨digits, hshown, hdigits', hvalue'⟩ : ∃ digits,
      (if (natDigits e.natAbs).length < 2 then '0' :: natDigits e.natAbs else natDigits e.natAbs) =
        digits ∧ IsDigits digits ∧ natOfDigits digits = e.natAbs := by
    have hnumber := natOfDigits_natDigits e.natAbs
    split
    · exact ⟨_, rfl, isDigits_append isDigits_zero hdigits.2, hvalue.trans hnumber⟩
    · exact ⟨_, rfl, hdigits, hnumber⟩
  refine ⟨decide (e < 0), digits, ?_, hdigits', ?_⟩
  · simp only [exponentChars, Numeral.exponentText, hshown, decide_eq_true_eq]
  · rw [hvalue']
    simp only [decide_eq_true_eq]
    split <;> omega

/-- Whether a text is a numeral of the value of a decimal, and not of an integer. -/
def IsDecimal (cs : List Char) (digits : Nat) (exponent : Int) : Prop :=
  ∃ n : Numeral, n.Proper ∧ n.isInteger = false ∧ cs = n.magnitudeText ∧
    (n.digits : ℚ) * 10 ^ n.scale = digits * 10 ^ exponent

theorem isDecimal_exponential {d : Char} (hd : isDigit d = true) (fraction : Option (List Char))
    (hfraction : ∀ digits ∈ fraction, IsDigits digits) (power : Int) :
    IsDecimal (d :: Numeral.fractionText fraction ++ exponentChars power)
      (natOfDigits (d :: fraction.getD [])) (power - (fraction.getD []).length) := by
  obtain ⟨negative, shown, htext, hshown, hpower⟩ := exists_exponent power
  refine ⟨{ whole := [d], fraction, exponent := some (negative, shown) },
    ⟨⟨by simp, by simpa using hd⟩, fun rest h => (List.cons.inj h).2.symm, hfraction, ?_⟩,
    by simp [Numeral.isInteger], by simp [Numeral.magnitudeText, htext], ?_⟩
  · intro part hmem
    obtain rfl := Option.some.inj hmem
    exact hshown
  · simp only [Numeral.digits, Numeral.scale, Numeral.power, hpower, List.cons_append,
      List.nil_append]

section

variable {digits : List Char} (hdigits : IsDigits digits)
include hdigits

theorem isDecimal_behind (k : Nat) :
    IsDecimal ('0' :: '.' :: List.replicate k '0' ++ digits) (natOfDigits digits)
      (-(k : Int) - digits.length) := by
  refine ⟨{ whole := ['0'], fraction := some (List.replicate k '0' ++ digits) },
    ⟨isDigits_zero, fun rest h => (List.cons.inj h).2.symm, ?_, by simp⟩, rfl,
    by simp [Numeral.magnitudeText, Numeral.fractionText, Numeral.exponentText], ?_⟩
  · intro fraction hmem
    obtain rfl := Option.some.inj hmem
    refine ⟨by simp [hdigits.1], fun c hc => ?_⟩
    rcases List.mem_append.mp hc with hc | hc
    · exact isDigit_of_mem_zeros hc
    · exact hdigits.2 c hc
  · have hvalue : natOfDigits ('0' :: (List.replicate k '0' ++ digits)) = natOfDigits digits :=
      natOfDigits_zeros_append (k + 1) digits
    have hscale : (0 : Int) - ((k + digits.length : Nat) : Int) = -(k : Int) - digits.length := by
      omega
    simp only [Numeral.digits, Numeral.scale, Numeral.power, Option.getD_some, List.cons_append,
      List.nil_append, hvalue, List.length_append, List.length_replicate, hscale]

variable (hlead : ∀ rest, digits ≠ '0' :: rest)
include hlead

theorem isDecimal_before (k : Nat) :
    IsDecimal (digits ++ List.replicate k '0' ++ ['.', '0']) (natOfDigits digits) k := by
  refine ⟨{ whole := digits ++ List.replicate k '0', fraction := some ['0'] },
    ⟨isDigits_append hdigits fun _ => isDigit_of_mem_zeros, ?_, ?_, by simp⟩, rfl,
    by simp [Numeral.magnitudeText, Numeral.fractionText, Numeral.exponentText], ?_⟩
  · intro rest h
    obtain ⟨c, more, hcons⟩ := List.exists_cons_of_ne_nil hdigits.1
    rw [hcons, List.cons_append] at h
    exact absurd (hcons.trans (by rw [(List.cons.inj h).1])) (hlead more)
  · intro fraction hmem
    obtain rfl := Option.some.inj hmem
    exact isDigits_zero
  · have hzeros : digits ++ List.replicate k '0' ++ ['0'] =
        digits ++ List.replicate (k + 1) '0' := by simp [List.replicate_succ']
    have hvalue := natOfDigits_append_zeros digits (k + 1)
    have hexponent : (k : Int) = ((k + 1 : Nat) : Int) + (0 - 1) := by omega
    simp only [Numeral.digits, Numeral.scale, Numeral.power, Option.getD_some, hzeros, hvalue,
      List.length_singleton, Nat.cast_mul, Nat.cast_pow, Nat.cast_ofNat, Nat.cast_one]
    rw [hexponent, zpow_add₀ (by norm_num), zpow_natCast, mul_assoc]

theorem isDecimal_among {k : Nat} (hpos : 0 < k) (hk : k < digits.length) :
    IsDecimal (digits.take k ++ '.' :: digits.drop k) (natOfDigits digits)
      ((k : Int) - digits.length) := by
  have htake : digits.take k ≠ [] := by
    rw [Ne, List.take_eq_nil_iff]
    exact fun h => h.elim hpos.ne' hdigits.1
  refine ⟨{ whole := digits.take k, fraction := some (digits.drop k) },
    ⟨⟨htake, fun c hc => hdigits.2 c (List.mem_of_mem_take hc)⟩, ?_, ?_, by simp⟩, rfl,
    by simp [Numeral.magnitudeText, Numeral.fractionText, Numeral.exponentText], ?_⟩
  · intro rest h
    have hsplit := List.take_append_drop k digits
    rw [show digits.take k = '0' :: rest from h, List.cons_append] at hsplit
    exact absurd hsplit.symm (hlead _)
  · intro fraction hmem
    obtain rfl := Option.some.inj hmem
    refine ⟨?_, fun c hc => hdigits.2 c (List.mem_of_mem_drop hc)⟩
    rw [Ne, List.drop_eq_nil_iff]
    omega
  · have hscale : (0 : Int) - ((digits.length - k : Nat) : Int) = k - digits.length := by omega
    simp only [Numeral.digits, Numeral.scale, Numeral.power, Option.getD_some,
      List.take_append_drop, List.length_drop, hscale]

theorem isDecimal_layOut (point : Int) :
    IsDecimal (layOut digits point) (natOfDigits digits) (point - digits.length) := by
  unfold layOut
  simp only
  split_ifs with hpositional hsmall hshort
  · have hexponent : point = -((-point).toNat : Int) := by omega
    conv => arg 3; rw [hexponent]
    exact isDecimal_behind hdigits _
  · have hexponent : point - digits.length = ((point.toNat - digits.length : Nat) : Int) := by omega
    rw [hexponent]
    exact isDecimal_before hdigits hlead _
  · have hexponent : point = (point.toNat : Int) := by omega
    conv => arg 3; rw [hexponent]
    exact isDecimal_among hdigits hlead (by omega) (by omega)
  · obtain ⟨d, rest, rfl⟩ := List.exists_cons_of_ne_nil hdigits.1
    have hd := hdigits.2 d List.mem_cons_self
    cases rest with
    | nil =>
      simpa [Numeral.fractionText] using
        isDecimal_exponential hd none (by simp) (point - 1)
    | cons e rest =>
      have hrest : IsDigits (e :: rest) :=
        ⟨by simp, fun c hc => hdigits.2 c (List.mem_cons_of_mem _ hc)⟩
      have hexponent : point - ((d :: e :: rest).length : Int) =
          point - 1 - ((e :: rest).length : Int) := by
        simp only [List.length_cons]
        omega
      rw [hexponent]
      exact isDecimal_exponential hd (some (e :: rest)) (by simpa using hrest)
        (point - 1)

end

theorem exists_trimmed {found : Nat} (hpos : 0 < found) :
    ∃ k, natOfDigits (trimZeros (natDigits found)) * 10 ^ k = found ∧
      (natDigits found).length = (trimZeros (natDigits found)).length + k ∧
      IsDigits (trimZeros (natDigits found)) ∧
      ∀ rest, trimZeros (natDigits found) ≠ '0' :: rest := by
  obtain ⟨k, hk⟩ := exists_trimZeros (natDigits found)
  have htrimmed : natOfDigits (trimZeros (natDigits found)) * 10 ^ k = found := by
    rw [← natOfDigits_append_zeros, ← hk, natOfDigits_natDigits]
  refine ⟨k, htrimmed, ?_, ⟨fun hnil => ?_, fun c hc => ?_⟩, fun rest hzero => ?_⟩
  · rw [congrArg List.length hk, List.length_append, List.length_replicate]
  · rw [hnil] at htrimmed
    simp [natOfDigits, natOfBlocks] at htrimmed
    omega
  · refine isDigit_of_mem_natDigits (n := found) ?_
    rw [hk]
    exact List.mem_append_left _ hc
  · rw [hzero] at hk
    exact hpos.ne' (eq_zero_of_natDigits hk).1

/-- **The text of a number.**  The magnitude of a finite number is written as a numeral that reads
back as the number. -/
theorem exists_numeral (negative : Bool) {m : Nat} {q : Int} (h : Canonical m q) :
    ∃ n : Numeral, n.Proper ∧ n.negative = negative ∧ n.isInteger = false ∧
      finiteChars negative m q = (if negative then '-' :: n.magnitudeText else n.magnitudeText) ∧
      n.toBinary64 = .finite negative m q h := by
  rcases Nat.eq_zero_or_pos m with rfl | hm
  · obtain rfl : q = -1074 := h.2.2.2.resolve_left (by decide)
    refine ⟨{ negative, whole := ['0'], fraction := some ['0'] },
      ⟨isDigits_zero, fun rest h => (List.cons.inj h).2.symm, ?_, by simp⟩, rfl, rfl, rfl, rfl⟩
    intro digits hmem
    obtain rfl := Option.some.inj hmem
    exact isDigits_zero
  · have hfound := ofDecimal_shortest negative h hm
    rcases hshortest : shortest m q with ⟨found, exponent⟩
    rw [hshortest] at hfound
    have hpos : 0 < found := by
      rcases Nat.eq_zero_or_pos found with rfl | hpos
      · have hzero : ofDecimal negative 0 exponent = zero negative := by simp [ofDecimal]
        rw [hzero] at hfound
        exact absurd (finite.inj hfound).2.1 hm.ne
      · exact hpos
    obtain ⟨k, htrimmed, hlength, hdigits, hlead⟩ := exists_trimmed hpos
    obtain ⟨n, hproper, hinteger, htext, hvalue⟩ :=
      isDecimal_layOut hdigits hlead ((natDigits found).length + exponent)
    refine ⟨{ n with negative }, ⟨hproper.whole, hproper.lead, hproper.fraction,
      hproper.exponent⟩, rfl, hinteger, ?_, ?_⟩
    · simp only [finiteChars, if_neg hm.ne', hshortest, htext]
      rfl
    · rw [← hfound, Numeral.toBinary64_eq]
      apply ofDecimal_congr
      calc (n.digits : ℚ) * 10 ^ n.scale
          = natOfDigits (trimZeros (natDigits found)) * 10 ^ ((k : Int) + exponent) := by
            rw [hvalue, hlength]
            push_cast
            congr 2
            ring
        _ = (natOfDigits (trimZeros (natDigits found)) * 10 ^ k : Nat) * 10 ^ exponent := by
            rw [zpow_add₀ (by norm_num), zpow_natCast]
            push_cast
            ring
        _ = found * 10 ^ exponent := by rw [htrimmed]

end Binary64

end PromptChain
