import PromptChain.Text.Blank
/-!
# Code points

Texts in which surrogates may stand alone.  UTF-16 writes a character beyond U+FFFF as a pair of
surrogates, and an escape may name one half of a pair without the other.  Such a half is a code
point but no character, so that no string holds it.  `chars?` finds the characters that code points
come from, if they come from characters at all (`chars?_eq_some_iff`).
-/

namespace PromptChain.Text

/-- A code point: a character, or a surrogate, counted from the first one on. -/
inductive CodePoint where
  | char (c : Char)
  | surrogate (offset : Fin 0x800)
  deriving DecidableEq, Repr

namespace CodePoint

def unitOf (offset : Fin 0x800) : Nat := 0xd800 + offset.val

/-- The code point of a number below 0x110000. -/
def ofNat (n : Nat) : CodePoint :=
  if h : 0xd800 ≤ n ∧ n < 0xe000 then .surrogate ⟨n - 0xd800, by omega⟩ else .char (Char.ofNat n)

def char? : CodePoint → Option Char
  | .char c => some c
  | .surrogate _ => none

def is (p : CodePoint) (c : Char) : Bool :=
  match p with
  | .char d => d = c
  | .surrogate _ => false

def isBlank : CodePoint → Bool
  | .char c => Text.isBlank c
  | .surrogate _ => false

def trim (points : List CodePoint) : List CodePoint := strip isBlank points

/-- A code point where only characters can stand, with the replacement character for surrogates. -/
def shown : CodePoint → Char
  | .char c => c
  | .surrogate _ => '\ufffd'

def ofChars (cs : List Char) : List CodePoint := cs.map .char

def ofText (s : String) : List CodePoint := ofChars s.toList

def chars? (points : List CodePoint) : Option (List Char) := points.mapM char?

def shownText (points : List CodePoint) : String := String.ofList (points.map shown)

theorem map_intercalate {α β : Type} (f : α → β) (separator : List α) (parts : List (List α)) :
    (separator.intercalate parts).map f =
      (separator.map f).intercalate (parts.map fun part => part.map f) := by
  induction parts with
  | nil => rfl
  | cons first rest ih =>
    cases rest with
    | nil => simp only [List.intercalate_singleton, List.map_cons, List.map_nil]
    | cons second more =>
      rw [List.intercalate_cons_cons, List.map_append, List.map_append, ih]
      exact List.intercalate_cons_cons.symm

@[simp] theorem ofChars_nil : ofChars [] = [] := rfl

@[simp] theorem ofChars_cons (c : Char) (cs : List Char) :
    ofChars (c :: cs) = .char c :: ofChars cs := rfl

@[simp] theorem ofChars_append (cs ds : List Char) :
    ofChars (cs ++ ds) = ofChars cs ++ ofChars ds := List.map_append

@[simp] theorem length_ofChars (cs : List Char) : (ofChars cs).length = cs.length :=
  List.length_map _

theorem chars?_ofChars (cs : List Char) : chars? (ofChars cs) = some cs := by
  induction cs with
  | nil => rfl
  | cons c rest ih =>
    simp only [chars?, ofChars] at ih
    simp [chars?, ofChars, char?, ih]

theorem chars?_eq_some_iff {points : List CodePoint} {cs : List Char} :
    chars? points = some cs ↔ points = ofChars cs := by
  constructor
  · intro h
    induction points generalizing cs with
    | nil => simp_all [chars?, ofChars]
    | cons p rest ih =>
      cases p with
      | surrogate offset => simp [chars?, char?] at h
      | char c =>
        obtain ⟨more, hmore, rfl⟩ : ∃ more, chars? rest = some more ∧ c :: more = cs := by
          simpa [chars?, char?, Option.bind_eq_some_iff] using h
        simp [ih hmore, ofChars]
  · rintro rfl
    exact chars?_ofChars cs

theorem shownText_ofText (s : String) : shownText (ofText s) = s := by
  have hshown : (ofText s).map shown = s.toList := by
    rw [ofText, ofChars, List.map_map]
    exact List.map_id _
  rw [shownText, hshown, String.ofList_toList]

theorem shownText_intercalate (separator : Char) (parts : List (List CodePoint)) :
    shownText ([.char separator].intercalate parts) =
      (String.singleton separator).intercalate (parts.map shownText) := by
  apply String.toList_injective
  rw [shownText, String.toList_ofList, map_intercalate, String.toList_intercalate,
    String.toList_singleton, List.map_map]
  exact congrArg _ (List.map_congr_left fun part _ => String.toList_ofList.symm)

theorem ofText_intercalate (separator : Char) (texts : List String) :
    ofText ((String.singleton separator).intercalate texts) =
      [.char separator].intercalate (texts.map ofText) := by
  rw [ofText, ofChars, String.toList_intercalate, map_intercalate, String.toList_singleton,
    List.map_map]
  rfl

end CodePoint

def isHighSurrogate (unit : Nat) : Bool := 0xd800 ≤ unit && unit < 0xdc00

def isLowSurrogate (unit : Nat) : Bool := 0xdc00 ≤ unit && unit < 0xe000

def charOfPair (high low : Nat) : Char :=
  Char.ofNat (0x10000 + (high - 0xd800) * 0x400 + (low - 0xdc00))

/-- The code points of UTF-16 units: surrogates that stand in the order of a pair are one. -/
def CodePoint.ofUnits : List Nat → List CodePoint
  | [] => []
  | [unit] => [.ofNat unit]
  | high :: low :: rest =>
    if isHighSurrogate high && isLowSurrogate low then .char (charOfPair high low) :: ofUnits rest
    else .ofNat high :: ofUnits (low :: rest)

end PromptChain.Text
