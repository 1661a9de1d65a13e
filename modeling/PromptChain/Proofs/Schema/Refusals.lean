import PromptChain.Proofs.Json.Forms
import PromptChain.Proofs.Number.Literals
import PromptChain.Proofs.Schema.Makes
/-!
# Refusals

A schema of texts, numbers, truth values, arrays and objects refuses what does not fit it.  Parsing
with it breaks, that is, fails for another reason, only on integers: those that are near no float,
and those with too many digits to be read or written.  Where it comes upon them is told by recursion
on the schema (`parse_breaks_iff`).  A text that stands for an array or an object never breaks
parsing by itself: whatever it cannot be read for is a mismatch.
-/

namespace PromptChain

/-! ## Numerals of integers -/

namespace Numeral

def IsSign (cs : List Char) : Prop := cs = [] ∨ cs = ['-'] ∨ cs = ['+']

theorem isSign_iff {sign : List Char} : IsSign sign ↔ ∃ negative, SpellsSign negative sign := by
  constructor
  · rintro (rfl | rfl | rfl)
    · exact ⟨_, .none⟩
    · exact ⟨_, .minus⟩
    · exact ⟨_, .plus⟩
  · rintro ⟨negative, _ | _ | _⟩
    · exact .inl rfl
    · exact .inr (.inr rfl)
    · exact .inr (.inl rfl)

theorem of_read? {cs : List Char} {n : Numeral} (h : read? cs = some n)
    (hinteger : n.isInteger = true) :
    ∃ sign, IsSign sign ∧ cs = sign ++ n.whole ∧ ∀ c ∈ n.whole, isDigit c = true := by
  have hspells := spells_of_read? h
  obtain ⟨negative, sign, digits, hsign, hdigits, rfl⟩ := hspells.isInteger_iff.mp hinteger
  rw [hspells.unique (hsign.spells hdigits)]
  exact ⟨sign, isSign_iff.mpr ⟨negative, hsign⟩, rfl, hdigits.2⟩

theorem read?_append {sign digits : List Char} (hsign : IsSign sign) (hne : digits ≠ [])
    (hdigits : ∀ c ∈ digits, isDigit c = true) :
    ∃ n, read? (sign ++ digits) = some n ∧ n.isInteger = true ∧ n.whole = digits := by
  obtain ⟨negative, hsign⟩ := isSign_iff.mp hsign
  exact ⟨_, read?_of_spells (hsign.spells ⟨hne, hdigits⟩), rfl, rfl⟩

end Numeral

namespace Schema

open Value (HasForm IsText)

/-! ## What parsing comes upon -/

/-- The schemas that texts, numbers, truth values, arrays and objects build, with texts for the
names of fields. -/
inductive TextNamed : Schema → Prop where
  | string (d : Value) : TextNamed (.string d)
  | number (d : Value) : TextNamed (.number d)
  | boolean (d : Value) : TextNamed (.boolean d)
  | array {item : Schema} (hitem : TextNamed item) (described : Option Value) :
      TextNamed (.array item described)
  | object {fields : List (Value × Schema)} (hnames : ∀ field ∈ fields, IsText field.1)
      (hfields : ∀ field ∈ fields, TextNamed field.2) (described : Option Value) :
      TextNamed (.object fields described)

/-- The integers that no schema can do anything with, where parsing comes upon them, and the fault
for each.  Parsing comes to an item once those before it are parsed. -/
inductive Exceeds : Schema → Value → Fault → Prop where
  | tooLarge {n : Int} (hlarge : Binary64.leastInfinite ≤ n.natAbs) (d : Value) :
      Exceeds (.number d) (.int n) .intTooLarge
  | longNumeral {s : String} {sign digits : List Char}
      (htext : Text.trimChars s.toList = sign ++ digits) (hsign : Numeral.IsSign sign)
      (hdigits : ∀ c ∈ digits, isDigit c = true) (hlong : maxIntDigits < digits.length)
      (d : Value) : Exceeds (.number d) (.text s) (.longNumeral digits.length)
  /-- What is to become a text holds an integer with too many digits. -/
  | unwritable {v : Value} (hv : v.isWritable = false) (d : Value) :
      Exceeds (.string d) v .longInteger
  /-- What is no number holds an integer with too many digits to be shown in the refusal. -/
  | notNumber {v : Value} (hv : v.isWritable = false) (hint : ∀ n, v ≠ .int n) (d : Value) :
      Exceeds (.number d) v .longInteger
  | notBoolean {v : Value} (hv : v.isWritable = false) (hint : ∀ n, v ≠ .int n) (d : Value) :
      Exceeds (.boolean d) v .longInteger
  | item {item : Schema} {v x : Value} {before after : List Value} {e : Fault}
      (hlist : decode "array" v = .ok (.list (before ++ x :: after)))
      (hbefore : ∀ w ∈ before, ∃ y, parse item w = .ok y) (hitem : Exceeds item x e)
      (described : Option Value) : Exceeds (.array item described) v e
  | field {schema : Schema} {v w name x : Value} {before after : List (Value × Schema)} {e : Fault}
      (hobject : decode "object" v = .ok w)
      (hbefore : ∀ field ∈ before, ∃ x y, item? w field.1 = some x ∧ parse field.2 x = .ok y)
      (hname : item? w name = some x) (hfield : Exceeds schema x e) (described : Option Value) :
      Exceeds (.object (before ++ (name, schema) :: after) described) v e

/-- Whether a result is missing, for another reason than a mismatch. -/
def Breaks {α : Type} (result : Except Fault α) (e : Fault) : Prop :=
  result = .error e ∧ ∀ why, e ≠ .mismatch why

section

variable {α β : Type} {e : Fault}

theorem not_breaks_ok (a : α) : ¬ Breaks (.ok a) e := fun h => nomatch h.1

theorem not_breaks_mismatch (why : Mismatch) :
    ¬ Breaks (.error (.mismatch why) : Except Fault α) e :=
  fun h => h.2 why (Except.error.inj h.1).symm

theorem breaks_map {result : Except Fault α} (f : α → β) :
    Breaks (result.map f) e ↔ Breaks result e := by
  cases result with
  | ok a => exact iff_of_false (not_breaks_ok _) (not_breaks_ok _)
  | error e' => simp only [Breaks, Except.map, Except.error.injEq]

theorem breaks_told {writable : Bool} {result : Except Fault α} (h : Told writable result) :
    Breaks result e ↔ writable = false ∧ e = .longInteger := by
  cases h with
  | ok a => exact iff_of_false (not_breaks_ok a) (by simp)
  | error =>
    simp only [Breaks, Except.error.injEq, true_and]
    constructor
    · exact fun h => h.1.symm
    · rintro rfl
      exact ⟨rfl, nofun⟩

end

/-! ## Texts, numbers and truth values -/

variable {e : Fault}

theorem breaks_shown (v : Value) (why : String → Mismatch) :
    Breaks (match v.shown with
      | .error e => .error e
      | .ok shown => (.error (.mismatch (why shown)) : Except Fault Value)) e ↔
      v.isWritable = false ∧ e = .longInteger := by
  have htold : Told v.isWritable v.shown := (Value.literal_told v).map String.ofList
  rw [← breaks_told htold]
  cases v.shown with
  | ok shown => exact iff_of_false (not_breaks_mismatch _) (not_breaks_ok _)
  | error e' => simp only [Breaks, Except.error.injEq]

theorem breaks_notNumber (v : Value) :
    Breaks (notNumber v) e ↔ v.isWritable = false ∧ e = .longInteger := breaks_shown v .notNumber

theorem breaks_notBoolean (v : Value) :
    Breaks (notBoolean v) e ↔ v.isWritable = false ∧ e = .longInteger := breaks_shown v .notBoolean

theorem told_parseString {v : Value} (h : HasForm v) (hnull : v ≠ .null) :
    Told v.isWritable (parseString v) := by
  cases h with
  | null => exact absurd rfl hnull
  | text s => exact .ok _
  | brokenText points => exact .ok _
  | bool b => exact (Json.compact_told (.bool b)).map _
  | list hitems => exact (Json.compact_told (.list hitems)).map _
  | object hfields => exact (Json.compact_told (.object hfields)).map _
  | brokenObject keys hitems => exact (Json.compact_told (.brokenObject keys hitems)).map _
  | int n | real x | tuple hitems =>
    unfold parseString Value.plain
    exact (Value.literal_told _).map _

theorem breaks_parseString {v : Value} (h : HasForm v) (d : Value) :
    Breaks (parseString v) e ↔ Exceeds (.string d) v e := by
  have hexceeds : Exceeds (.string d) v e ↔ v.isWritable = false ∧ e = .longInteger := by
    constructor
    · rintro (_ | _)
      exact ⟨‹_›, rfl⟩
    · rintro ⟨hv, rfl⟩
      exact .unwritable hv d
  rw [hexceeds]
  by_cases hnull : v = .null
  · subst hnull
    exact iff_of_false (not_breaks_mismatch .absent) (by simp [Value.isWritable])
  · exact breaks_told (told_parseString h hnull)

theorem breaks_parseNumberText (s : String) (d : Value) :
    Breaks (parseNumberText s) e ↔ Exceeds (.number d) (.text s) e := by
  have hnone : ¬ Breaks (notNumber (.text s)) e := by simp [breaks_notNumber, Value.isWritable]
  constructor
  · intro h
    unfold parseNumberText at h
    split at h
    · exact absurd h hnone
    next n hn =>
    split at h
    · next hinteger =>
      split at h
      · next hlong =>
        obtain ⟨sign, hsign, htext, hdigits⟩ := Numeral.of_read? hn hinteger
        rw [← Except.error.inj h.1]
        exact .longNumeral htext hsign hdigits hlong d
      · exact absurd h (not_breaks_ok _)
    · split at h
      · exact absurd h (not_breaks_ok _)
      · exact absurd h hnone
  · intro h
    cases h with
    | @longNumeral s sign digits htext hsign hdigits hlong =>
      have hne : digits ≠ [] := List.ne_nil_of_length_pos (Nat.zero_lt_of_lt hlong)
      obtain ⟨n, hread, hinteger, rfl⟩ := Numeral.read?_append hsign hne hdigits
      refine ⟨?_, nofun⟩
      rw [parseNumberText, htext, hread]
      simp only [hinteger, if_true, if_pos hlong]
    | notNumber hv => cases hv

theorem breaks_parseNumber (v : Value) (d : Value) :
    Breaks (parseNumber v) e ↔ Exceeds (.number d) v e := by
  -- Beside integers and texts, only what the refusal shows can break parsing.
  have hother : (∀ n, v ≠ .int n) → (∀ s, v ≠ .text s) →
      (Exceeds (.number d) v e ↔ v.isWritable = false ∧ e = .longInteger) := by
    intro hint htext
    constructor
    · intro h
      cases h with
      | tooLarge => exact absurd rfl (hint _)
      | longNumeral => exact absurd rfl (htext _)
      | notNumber hv => exact ⟨hv, rfl⟩
    · rintro ⟨hv, rfl⟩
      exact .notNumber hv hint d
  cases v with
  | int n =>
    rw [parseNumber]
    by_cases hlarge : Binary64.leastInfinite ≤ n.natAbs
    · have hfinite : ¬ (Binary64.ofInt n).isFinite = true := by
        rwa [Binary64.isFinite_ofInt_iff, not_lt]
      rw [if_neg hfinite]
      constructor
      · rintro ⟨heq, -⟩
        rw [← Except.error.inj heq]
        exact .tooLarge hlarge d
      · intro h
        cases h with
        | tooLarge => exact ⟨rfl, nofun⟩
        | notNumber _ hint => exact absurd rfl (hint n)
    · have hfinite : (Binary64.ofInt n).isFinite = true := by
        rwa [Binary64.isFinite_ofInt_iff, ← not_le]
      rw [if_pos hfinite]
      refine iff_of_false (not_breaks_ok _) fun h => ?_
      cases h with
      | tooLarge h => exact hlarge h
      | notNumber _ hint => exact hint n rfl
  | text s => exact breaks_parseNumberText s d
  | real x =>
    rw [hother nofun nofun, parseNumber]
    split
    · exact iff_of_false (not_breaks_ok _) (by simp [Value.isWritable])
    · exact breaks_notNumber _
  | _ => exact (breaks_notNumber _).trans (hother nofun nofun).symm

theorem breaks_parseBoolean (v : Value) (d : Value) :
    Breaks (parseBoolean v) e ↔ Exceeds (.boolean d) v e := by
  have hother : (∀ n, v ≠ .int n) →
      (Exceeds (.boolean d) v e ↔ v.isWritable = false ∧ e = .longInteger) := by
    intro hint
    constructor
    · intro h
      cases h with
      | notBoolean hv => exact ⟨hv, rfl⟩
    · rintro ⟨hv, rfl⟩
      exact .notBoolean hv hint d
  cases v with
  | int n =>
    refine iff_of_false (not_breaks_ok _) fun h => ?_
    cases h with
    | notBoolean _ hint => exact hint n rfl
  | bool b =>
    rw [hother nofun, parseBoolean]
    exact iff_of_false (not_breaks_ok _) (by simp [Value.isWritable])
  | real x =>
    rw [hother nofun, parseBoolean]
    exact iff_of_false (not_breaks_ok _) (by simp [Value.isWritable])
  | text s =>
    have hfalse : ¬ ((Value.text s).isWritable = false ∧ e = .longInteger) := by
      simp [Value.isWritable]
    rw [hother nofun, parseBoolean]
    split
    · exact iff_of_false (not_breaks_ok _) hfalse
    split
    · exact iff_of_false (not_breaks_ok _) hfalse
    · exact breaks_notBoolean _
  | _ => exact (breaks_notBoolean _).trans (hother nofun).symm

/-! ## Arrays and objects -/

theorem not_breaks_decode {expected : String} {v : Value} {e' : Fault}
    (h : decode expected v = .error e') : ¬ Breaks (.error e' : Except Fault Value) e := by
  have hdecoded : ∀ result, decode.decoded expected result = .error e' →
      ¬ Breaks (.error e' : Except Fault Value) e := by
    intro result hresult
    cases result with
    | ok w => cases hresult
    | error cause =>
      rw [← Except.error.inj hresult]
      exact not_breaks_mismatch _
  cases v with
  | text s => exact hdecoded _ h
  | brokenText points => exact hdecoded _ h
  | _ => cases h

theorem hasForm_decode {expected : String} {v w : Value} (h : HasForm v)
    (hdecode : decode expected v = .ok w) : HasForm w := by
  have hdecoded : ∀ points, decode.decoded expected (Json.readText points) = .ok w → HasForm w := by
    intro points hpoints
    cases hread : Json.readText points with
    | ok u =>
      rw [hread] at hpoints
      cases hpoints
      exact Json.hasForm_readText hread
    | error cause =>
      rw [hread] at hpoints
      cases hpoints
  cases v with
  | text s => exact hdecoded _ hdecode
  | brokenText points => exact hdecoded _ hdecode
  | _ =>
    cases hdecode
    exact h

theorem hasForm_item? {w name x : Value} (h : HasForm w) (hitem : item? w name = some x) :
    HasForm x := by
  cases h with
  | @object fields hfields =>
    obtain ⟨key, -, hkey⟩ := Option.bind_eq_some_iff.mp hitem
    rw [get?_eq_lookup] at hkey
    obtain ⟨before, after, hsplit, -⟩ := List.lookup_eq_some_iff.mp hkey
    have hmem : (Value.text key, x) ∈ fields.map fun field => (Value.text field.1, field.2) := by
      rw [hsplit]
      simp
    obtain ⟨field, hfield, heq⟩ := List.mem_map.mp hmem
    cases heq
    exact hfields field hfield
  | @brokenObject keys items hitems =>
    obtain ⟨before, after, hsplit, -⟩ := List.lookup_eq_some_iff.mp hitem
    have hmem : (name, x) ∈ (keys.map Value.ofPoints).zip items := by
      rw [hsplit]
      simp
    exact hitems x (List.of_mem_zip hmem).2
  | _ => cases hitem

theorem mapM_eq_error_iff {α β ε : Type} {f : α → Except ε β} {items : List α} {e : ε} :
    items.mapM f = .error e ↔
      ∃ before x after, items = before ++ x :: after ∧ (∀ w ∈ before, ∃ y, f w = .ok y) ∧
        f x = .error e := by
  induction items with
  | nil =>
    refine iff_of_false nofun ?_
    rintro ⟨before, x, after, hsplit, -⟩
    simp at hsplit
  | cons v rest ih =>
    have hcons : (v :: rest).mapM f = .error e ↔
        f v = .error e ∨ (∃ y, f v = .ok y) ∧ rest.mapM f = .error e := by
      rw [List.mapM_cons]
      cases f v with
      | error e' => simp [bind, Except.bind]
      | ok y => cases rest.mapM f <;> simp [bind, Except.bind, pure, Except.pure]
    rw [hcons, ih]
    constructor
    · rintro (hv | ⟨hv, before, x, after, rfl, hbefore, hx⟩)
      · exact ⟨[], v, rest, rfl, by simp, hv⟩
      · exact ⟨v :: before, x, after, rfl, List.forall_mem_cons.mpr ⟨hv, hbefore⟩, hx⟩
    · rintro ⟨_ | ⟨w, before⟩, x, after, hsplit, hbefore, hx⟩
      · cases hsplit
        exact .inl hx
      · cases hsplit
        obtain ⟨hw, hbefore⟩ := List.forall_mem_cons.mp hbefore
        exact .inr ⟨hw, before, x, after, rfl, hbefore, hx⟩

theorem parseItems_eq_mapM (parse : Value → Except Fault Value) (items : List Value) :
    parseItems parse items = items.mapM parse := by
  induction items with
  | nil => rfl
  | cons v rest ih =>
    rw [parseItems, ih, List.mapM_cons]
    cases parse v with
    | error e => rfl
    | ok y => cases rest.mapM parse <;> rfl

def parseField (v : Value) (field : Value × Schema) : Except Fault (Value × Value) :=
  match item? v field.1 with
  | none => missing field.1
  | some item => (parse field.2 item).map fun parsed => (field.1, parsed)

theorem parseFields_eq_mapM (fields : List (Value × Schema)) (v : Value) :
    parseFields fields v = fields.mapM (parseField v) := by
  induction fields with
  | nil =>
    rw [parseFields]
    rfl
  | cons field rest ih =>
    rw [parseFields, ih, List.mapM_cons, parseField]
    cases item? v field.1 with
    | none =>
      dsimp only
      unfold missing
      cases field.1.plain <;> rfl
    | some item =>
      dsimp only
      cases parse field.2 item with
      | error e => rfl
      | ok y => cases rest.mapM (parseField v) <;> rfl

theorem parseField_eq_ok_iff {v : Value} {field : Value × Schema} :
    (∃ y, parseField v field = .ok y) ↔
      ∃ x y, item? v field.1 = some x ∧ parse field.2 x = .ok y := by
  unfold parseField
  cases item? v field.1 with
  | none =>
    refine iff_of_false ?_ (by simp)
    unfold missing
    cases field.1.plain <;> simp
  | some x => rcases hparse : parse field.2 x with e | y <;> simp [Except.map, hparse]

theorem breaks_parseField {v : Value} {field : Value × Schema} (hname : IsText field.1) :
    Breaks (parseField v field) e ↔
      ∃ x, item? v field.1 = some x ∧ Breaks (parse field.2 x) e := by
  unfold parseField
  cases item? v field.1 with
  | none =>
    refine iff_of_false ?_ (by simp)
    obtain ⟨points, hpoints⟩ := hname
    rw [missing, hpoints]
    rcases Value.ofPoints_cases points with ⟨cs, -, heq⟩ | ⟨-, heq⟩ <;> rw [heq]
    · exact not_breaks_mismatch _
    · exact not_breaks_mismatch _
  | some x => simp [breaks_map]

theorem isObject_of_item? {w name x : Value} (h : item? w name = some x) : isObject w = true := by
  cases w with
  | object fields => rfl
  | brokenObject keys items => rfl
  | _ => cases h

/-- **A schema refuses what does not fit it, and breaks only on integers.**  Parsing with a schema
of texts, numbers, truth values, arrays and objects fails for another reason than a mismatch exactly
where it comes upon an integer that is near no float, or has too many digits to be read or
written. -/
theorem parse_breaks_iff {s : Schema} (hs : TextNamed s) {v : Value} (hv : HasForm v) (e : Fault) :
    Breaks (s.parse v) e ↔ Exceeds s v e := by
  -- On the schema; what is decoded from a text has a form again, so that the parts of it do.
  induction hs generalizing v with
  | string d => exact breaks_parseString hv d
  | number d => exact breaks_parseNumber v d
  | boolean d => exact breaks_parseBoolean v d
  | @array item _ described ih =>
    constructor
    · intro h
      rw [parse] at h
      split at h
      · next hdecode => exact absurd h (not_breaks_decode hdecode)
      · next items hlist =>
        rw [breaks_map, parseItems_eq_mapM] at h
        obtain ⟨before, x, after, rfl, hbefore, hx⟩ := mapM_eq_error_iff.mp h.1
        cases hasForm_decode hv hlist with
        | list hitems =>
          have hitem := (ih (hitems x (by simp))).mp ⟨hx, h.2⟩
          exact .item hlist hbefore hitem described
      · exact absurd h (not_breaks_mismatch _)
    · intro h
      cases h with
      | @item _ _ x before after _ hlist hbefore hitem =>
        rw [parse, hlist]
        dsimp only
        rw [breaks_map, parseItems_eq_mapM]
        cases hasForm_decode hv hlist with
        | list hitems =>
          obtain ⟨hx, hne⟩ := (ih (hitems x (by simp))).mpr hitem
          exact ⟨mapM_eq_error_iff.mpr ⟨before, x, after, rfl, hbefore, hx⟩, hne⟩
  | @object fields hnames _ described ih =>
    constructor
    · intro h
      rw [parse] at h
      split at h
      · next hdecode => exact absurd h (not_breaks_decode hdecode)
      next w hobject =>
      split at h
      · rw [breaks_map, parseFields_eq_mapM] at h
        obtain ⟨before, field, after, rfl, hbefore, hfield⟩ := mapM_eq_error_iff.mp h.1
        have hmem : field ∈ before ++ field :: after := by simp
        obtain ⟨x, hname, hx⟩ := (breaks_parseField (hnames field hmem)).mp ⟨hfield, h.2⟩
        have hitem := (ih field hmem (hasForm_item? (hasForm_decode hv hobject) hname)).mp hx
        exact .field hobject (fun other hother => parseField_eq_ok_iff.mp (hbefore other hother))
          hname hitem described
      · exact absurd h (not_breaks_mismatch _)
    · intro h
      cases h with
      | @field schema _ w name x before after _ hobject hbefore hname hfield =>
        have hmem : (name, schema) ∈ before ++ (name, schema) :: after := by simp
        have hx := (ih _ hmem (hasForm_item? (hasForm_decode hv hobject) hname)).mpr hfield
        obtain ⟨heq, hne⟩ := (breaks_parseField (hnames _ hmem)).mpr ⟨x, hname, hx⟩
        rw [parse, hobject]
        dsimp only
        rw [if_pos (isObject_of_item? hname), breaks_map, parseFields_eq_mapM]
        exact ⟨mapM_eq_error_iff.mpr ⟨before, (name, schema), after, rfl,
          fun other hother => parseField_eq_ok_iff.mpr (hbefore other hother), heq⟩, hne⟩

/-- Ten to the power of 309 is no number, and the refusal is no mismatch. -/
theorem parse_breaks_power :
    parse (.number .null) (.int (Nat.pow 10 309)) = .error .intTooLarge := by
  have hlarge : Binary64.leastInfinite ≤ (Nat.pow 10 309 : Int).natAbs := by decide +kernel
  have hbreaks := (parse_breaks_iff (.number .null) (.int (Nat.pow 10 309)) .intTooLarge).mpr
    (.tooLarge hlarge .null)
  exact hbreaks.1

end Schema

end PromptChain
