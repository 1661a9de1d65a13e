import Mathlib.Data.List.Chain
import PromptChain.Json.Writer
import PromptChain.Json.Reader
/-!
# Strings in quotes

The escapes of a JSON string are taken back one by one: what stands for a character is read as this
character, whether it is itself, a letter behind a backslash, one UTF-16 unit or a pair of them.  A
surrogate that stands alone is read from the escape of its unit, unless the escape that comes next
makes a pair of the two; so texts in which no halves of a pair stand side by side are read back
(`readString_points`).
-/

namespace PromptChain

open Text (CodePoint isHighSurrogate isLowSurrogate charOfPair hexDigits hexValue?)

namespace Json

theorem hexValue?_digitChar : ∀ n < 16, hexValue? (Nat.digitChar n) = some n := by decide

theorem length_hexDigits (width n : Nat) : (hexDigits width n).length = width := by
  induction width generalizing n with
  | zero => rfl
  | succ width ih => simp [hexDigits, ih]

theorem unitAt?_hexDigits {unit : Nat} (h : unit < 0x10000) {behind : List CodePoint}
    (hbehind : behind ≠ []) :
    unitAt? (CodePoint.ofChars (hexDigits 4 unit) ++ behind) = some unit := by
  obtain ⟨p, rest, rfl⟩ := List.exists_cons_of_ne_nil hbehind
  have hdigit : ∀ n, hexValue? (Nat.digitChar (n % 16)) = some (n % 16) :=
    fun n => hexValue?_digitChar _ (Nat.mod_lt _ (by decide))
  have hvalue : ((unit / 16 / 16 / 16 % 16 * 16 + unit / 16 / 16 % 16) * 16 + unit / 16 % 16) * 16 +
      unit % 16 = unit := by omega
  simp [hexDigits, unitAt?, hdigit, hvalue]

theorem readString_skip (dialect : Dialect) (start front behind : List CodePoint) :
    readString dialect start front.length (front ++ behind) =
      readString dialect start 0 behind := by
  induction front with
  | nil => rfl
  | cons p rest ih =>
    rw [List.length_cons, List.cons_append, readString]
    exact ih

abbrev withFirst (p : CodePoint) :
    Except Stop (List CodePoint × List CodePoint) → Except Stop (List CodePoint × List CodePoint)
  | .error e => .error e
  | .ok (more, behind) => .ok (p :: more, behind)

theorem readString_escape {dialect : Dialect} (start escape : List CodePoint)
    {behind : List CodePoint} {p : CodePoint} (hbehind : behind ≠ [])
    (h : escapeAt dialect (escape ++ behind) = .ok (p, escape.length)) :
    readString dialect start 0 (.char '\\' :: (escape ++ behind)) =
      withFirst p (readString dialect start 0 behind) := by
  have hquote : CodePoint.is (.char '\\') '"' = false := by decide
  have hslash : CodePoint.is (.char '\\') '\\' = true := by decide
  have hempty : (escape ++ behind).isEmpty = false := by simp [hbehind]
  rw [readString]
  cases hrest : readString dialect start 0 behind <;>
    simp only [hquote, hslash, hempty, h, hrest, Bool.false_eq_true, if_false, if_true,
      readString_skip]

theorem isHighSurrogate_of_char (c : Char) (h : c.toNat < 0x10000) :
    isHighSurrogate c.toNat = false ∧ isLowSurrogate c.toNat = false := by
  have hvalid : c.toNat < 0xd800 ∨ 0xdfff < c.toNat ∧ c.toNat < 0x110000 := c.valid
  simp only [isHighSurrogate, isLowSurrogate, Bool.and_eq_false_iff, decide_eq_false_iff_not]
  omega

theorem ofNat_toNat (c : Char) : CodePoint.ofNat c.toNat = .char c := by
  have hvalid : c.toNat < 0xd800 ∨ 0xdfff < c.toNat ∧ c.toNat < 0x110000 := c.valid
  have hsurrogate : ¬(0xd800 ≤ c.toNat ∧ c.toNat < 0xe000) := by omega
  rw [CodePoint.ofNat, dif_neg hsurrogate, Char.ofNat_toNat]

theorem escapeAt_unit {c : Char} (h : c.toNat < 0x10000) {behind : List CodePoint}
    (hbehind : behind ≠ []) :
    escapeAt .plain (.char 'u' :: (CodePoint.ofChars (hexDigits 4 c.toNat) ++ behind)) =
      .ok (.char c, 5) := by
  obtain ⟨hhigh, hlow⟩ := isHighSurrogate_of_char c h
  simp [escapeAt, unitAt?_hexDigits h hbehind, hhigh, hlow, ofNat_toNat]

theorem escapeAt_pair {c : Char} {offset : Nat} (hoffset : c.toNat = 0x10000 + offset)
    {behind : List CodePoint} (hbehind : behind ≠ []) :
    escapeAt .plain (.char 'u' :: (CodePoint.ofChars (hexDigits 4 (0xd800 + offset / 0x400)) ++
        (.char '\\' :: .char 'u' :: (CodePoint.ofChars (hexDigits 4 (0xdc00 + offset % 0x400)) ++
          behind)))) = .ok (.char c, 11) := by
  have hvalid : c.toNat < 0xd800 ∨ 0xdfff < c.toNat ∧ c.toNat < 0x110000 := c.valid
  generalize hhighUnit : 0xd800 + offset / 0x400 = high
  generalize hlowUnit : 0xdc00 + offset % 0x400 = low
  have hhigh : isHighSurrogate high = true := by
    simp only [isHighSurrogate, Bool.and_eq_true, decide_eq_true_eq]
    omega
  have hlow : isLowSurrogate low = true := by
    simp only [isLowSurrogate, Bool.and_eq_true, decide_eq_true_eq]
    omega
  have hpair : charOfPair high low = c := by
    have hnumber : 0x10000 + (high - 0xd800) * 0x400 + (low - 0xdc00) = c.toNat := by omega
    rw [charOfPair, hnumber, Char.ofNat_toNat]
  generalize hmore : .char '\\' :: .char 'u' :: (CodePoint.ofChars (hexDigits 4 low) ++ behind) =
    more
  have hfirst : unitAt? (CodePoint.ofChars (hexDigits 4 high) ++ more) = some high :=
    unitAt?_hexDigits (by omega) (by simp [← hmore])
  have hsecond : unitAt? (CodePoint.ofChars (hexDigits 4 low) ++ behind) = some low :=
    unitAt?_hexDigits (by omega) hbehind
  have hdrop : (CodePoint.ofChars (hexDigits 4 high) ++ more).drop 4 = more :=
    List.drop_left' (by simp [length_hexDigits])
  simp only [escapeAt, hfirst, hhigh, hdrop]
  simp only [← hmore, hsecond, hlow, if_true, hpair]

theorem readString_stringChar (c : Char) (start : List CodePoint) {behind : List CodePoint}
    (hbehind : behind ≠ []) :
    readString .plain start 0 (CodePoint.ofChars (stringChar c) ++ behind) =
      withFirst (.char c) (readString .plain start 0 behind) := by
  have hletter : ∀ letter, escapeAt .plain (.char letter :: behind) = .ok (.char c, 1) →
      readString .plain start 0 (.char '\\' :: .char letter :: behind) =
        withFirst (.char c) (readString .plain start 0 behind) :=
    fun letter h => readString_escape start [.char letter] hbehind h
  unfold stringChar
  split
  · next hc => exact hletter '"' (by rw [hc]; rfl)
  next hquote =>
  split
  · next hc => exact hletter '\\' (by rw [hc]; rfl)
  next hslash =>
  split
  · next hc => exact hletter 'n' (by rw [hc]; rfl)
  split
  · next hc => exact hletter 'r' (by rw [hc]; rfl)
  split
  · next hc => exact hletter 't' (by rw [hc]; rfl)
  split
  · next hc => exact hletter 'b' (by rw [hc]; rfl)
  split
  · next hc => exact hletter 'f' (by rw [hc]; rfl)
  split
  · next hplain =>
    -- The character stands for itself.
    simp only [Bool.and_eq_true, decide_eq_true_eq] at hplain
    have hcontrol : ¬c.toNat < 32 := by omega
    simp only [CodePoint.ofChars_cons, CodePoint.ofChars_nil, List.cons_append, List.nil_append]
    rw [readString]
    rcases readString .plain start 0 behind with e | ⟨more, rest⟩ <;>
      simp only [CodePoint.is, hquote, hslash, isControl, hcontrol, decide_false,
        Bool.false_eq_true, if_false]
  split
  · next hsmall =>
    have hescape := escapeAt_unit hsmall hbehind
    have hread := readString_escape start
      (.char 'u' :: CodePoint.ofChars (hexDigits 4 c.toNat)) hbehind
      (by simpa [length_hexDigits] using hescape)
    simpa [unitEscape] using hread
  · next hlarge =>
    have hoffset : c.toNat = 0x10000 + (c.toNat - 0x10000) := by omega
    have hescape := escapeAt_pair hoffset hbehind
    have hread := readString_escape start
      (.char 'u' :: (CodePoint.ofChars
          (hexDigits 4 (0xd800 + (c.toNat - 0x10000) / 0x400)) ++ .char '\\' :: .char 'u' ::
        CodePoint.ofChars (hexDigits 4 (0xdc00 + (c.toNat - 0x10000) % 0x400)))) hbehind
      (by simpa [length_hexDigits] using hescape)
    simpa [unitEscape] using hread

/-! ## Lone surrogates -/

def isHigh : CodePoint → Bool
  | .char _ => false
  | .surrogate offset => isHighSurrogate (CodePoint.unitOf offset)

def isLow : CodePoint → Bool
  | .char _ => false
  | .surrogate offset => isLowSurrogate (CodePoint.unitOf offset)

/-- Whether no halves of a pair stand side by side in a text. -/
def Unpaired (points : List CodePoint) : Prop :=
  points.IsChain fun p q => isHigh p = true → isLow q = false

instance (points : List CodePoint) : Decidable (Unpaired points) := by
  unfold Unpaired; infer_instance

theorem unpaired_ofChars (cs : List Char) : Unpaired (CodePoint.ofChars cs) := by
  rw [Unpaired, CodePoint.ofChars, List.isChain_map]
  refine List.Pairwise.isChain (List.pairwise_iff_forall_sublist.mpr fun _ h => ?_)
  simp [isHigh] at h

/-- Whether what follows is not the escape of the second half of a pair, nor of nothing at all. -/
def NoLow (behind : List CodePoint) : Prop :=
  ∀ more, behind = .char '\\' :: .char 'u' :: more →
    ∃ unit, unitAt? more = some unit ∧ isLowSurrogate unit = false

theorem noLow_cons {p : CodePoint} (h : p ≠ .char '\\') (rest : List CodePoint) :
    NoLow (p :: rest) := fun _ heq => absurd (List.cons.inj heq).1 h

theorem noLow_unitEscape {unit : Nat} (h : unit < 0x10000) (hlow : isLowSurrogate unit = false)
    {behind : List CodePoint} (hbehind : behind ≠ []) :
    NoLow (CodePoint.ofChars (unitEscape unit) ++ behind) := by
  rintro more heq
  obtain rfl := (List.cons.inj (List.cons.inj heq).2).2
  exact ⟨unit, unitAt?_hexDigits h hbehind, hlow⟩

theorem noLow_stringPoint {p : CodePoint} (h : isLow p = false) {behind : List CodePoint}
    (hbehind : behind ≠ []) : NoLow (CodePoint.ofChars (stringPoint p) ++ behind) := by
  have hletter : ∀ letter, letter ≠ 'u' → NoLow (.char '\\' :: .char letter :: behind) :=
    fun letter hne more heq =>
      absurd (CodePoint.char.inj (List.cons.inj (List.cons.inj heq).2).1) hne
  cases p with
  | surrogate offset =>
    have hunit : CodePoint.unitOf offset < 0x10000 := by
      have := offset.isLt
      rw [CodePoint.unitOf]
      omega
    exact noLow_unitEscape hunit h hbehind
  | char c =>
    have hvalid : c.toNat < 0xd800 ∨ 0xdfff < c.toNat ∧ c.toNat < 0x110000 := c.valid
    rw [stringPoint]
    unfold stringChar
    split
    · exact hletter '"' (by decide)
    split
    · exact hletter '\\' (by decide)
    next hslash =>
    split
    · exact hletter 'n' (by decide)
    split
    · exact hletter 'r' (by decide)
    split
    · exact hletter 't' (by decide)
    split
    · exact hletter 'b' (by decide)
    split
    · exact hletter 'f' (by decide)
    split
    · exact noLow_cons (fun heq => hslash (CodePoint.char.inj heq)) _
    split
    · next hsmall => exact noLow_unitEscape hsmall (isHighSurrogate_of_char c hsmall).2 hbehind
    · have hhigh : isLowSurrogate (0xd800 + (c.toNat - 0x10000) / 0x400) = false := by
        simp only [isLowSurrogate, Bool.and_eq_false_iff, decide_eq_false_iff_not]
        omega
      dsimp only
      rw [CodePoint.ofChars_append, List.append_assoc]
      exact noLow_unitEscape (by omega) hhigh (by simp [unitEscape])

theorem escapeAt_surrogate {offset : Fin 0x800} {behind : List CodePoint} (hbehind : behind ≠ [])
    (halone : isHigh (.surrogate offset) = true → NoLow behind) :
    escapeAt .plain (.char 'u' :: (CodePoint.ofChars (hexDigits 4 (CodePoint.unitOf offset)) ++
      behind)) = .ok (.surrogate offset, 5) := by
  have hunit : 0xd800 ≤ CodePoint.unitOf offset ∧ CodePoint.unitOf offset < 0xe000 := by
    have := offset.isLt
    rw [CodePoint.unitOf]
    omega
  have hpoint : CodePoint.ofNat (CodePoint.unitOf offset) = .surrogate offset := by
    have hoffset : CodePoint.unitOf offset - 0xd800 = offset.val := Nat.add_sub_cancel_left ..
    rw [CodePoint.ofNat, dif_pos hunit]
    exact congrArg _ (Fin.ext hoffset)
  have hfirst : unitAt? (CodePoint.ofChars (hexDigits 4 (CodePoint.unitOf offset)) ++ behind) =
      some (CodePoint.unitOf offset) := unitAt?_hexDigits (by omega) hbehind
  have hdrop : (CodePoint.ofChars (hexDigits 4 (CodePoint.unitOf offset)) ++ behind).drop 4 =
      behind := List.drop_left' (by simp [length_hexDigits])
  have hlone : Dialect.plain.loneHalves = true := rfl
  simp only [escapeAt, hfirst, hdrop, hlone, Bool.true_or, if_true, hpoint]
  split
  · next more hhigh =>
    obtain ⟨low, hlow, hno⟩ := halone hhigh more rfl
    simp only [hlow, hno, Bool.false_eq_true, if_false]
  · rfl

theorem readString_stringPoint (p : CodePoint) (start : List CodePoint) {behind : List CodePoint}
    (hbehind : behind ≠ []) (halone : isHigh p = true → NoLow behind) :
    readString .plain start 0 (CodePoint.ofChars (stringPoint p) ++ behind) =
      withFirst p (readString .plain start 0 behind) := by
  cases p with
  | char c => exact readString_stringChar c start hbehind
  | surrogate offset =>
    have hread := readString_escape start
      (.char 'u' :: CodePoint.ofChars (hexDigits 4 (CodePoint.unitOf offset))) hbehind
      (by simpa [length_hexDigits] using escapeAt_surrogate hbehind halone)
    simpa [stringPoint, unitEscape] using hread

theorem readString_points {points : List CodePoint} (h : Unpaired points)
    (start behind : List CodePoint) :
    readString .plain start 0
        (CodePoint.ofChars (points.flatMap stringPoint ++ ['"']) ++ behind) =
      .ok (points, behind) := by
  rw [CodePoint.ofChars_append, List.append_assoc]
  induction points with
  | nil => rfl
  | cons p rest ih =>
    have halone : isHigh p = true → NoLow (CodePoint.ofChars (rest.flatMap stringPoint) ++
        (CodePoint.ofChars ['"'] ++ behind)) := by
      intro hhigh
      cases rest with
      | nil => exact noLow_cons (by decide) _
      | cons q more =>
        rw [List.flatMap_cons, CodePoint.ofChars_append, List.append_assoc]
        exact noLow_stringPoint ((List.isChain_cons_cons.mp h).1 hhigh) (by simp)
    rw [List.flatMap_cons, CodePoint.ofChars_append, List.append_assoc,
      readString_stringPoint p start (by simp) halone, ih (List.IsChain.tail h)]

end Json

end PromptChain
