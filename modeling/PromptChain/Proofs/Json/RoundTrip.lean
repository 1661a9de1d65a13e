import Mathlib.Data.List.Forall2
import PromptChain.Proofs.Json.Numerals
import PromptChain.Proofs.Json.Strings
/-!
# Writing and reading back

What is written as JSON, in either layout, is read as the value that it was written from, if the
value has a form in JSON that loses nothing: no floats, no integers with too many digits, no texts
with lone surrogates, and no key twice in an object.
-/

namespace PromptChain

/-! ## Entries -/

namespace Entries

variable {α : Type}

theorem put_of_not_mem {entries : Entries α} {key : String} (value : α)
    (h : key ∉ entries.keys) : entries.put key value = entries ++ [(key, value)] := by
  induction entries with
  | nil => rfl
  | cons pair rest ih =>
    rw [keys, List.map_cons, List.mem_cons, not_or] at h
    rw [put, if_neg (Ne.symm h.1), ih h.2, List.cons_append]

theorem foldl_put_of_nodup (entries : Entries α) {pairs : List (String × α)}
    (h : ((entries ++ pairs).map Prod.fst).Nodup) :
    pairs.foldl (fun entries pair => put entries pair.1 pair.2) entries = entries ++ pairs := by
  induction pairs generalizing entries with
  | nil => simp
  | cons pair rest ih =>
    have hsplit : entries ++ pair :: rest = (entries ++ [pair]) ++ rest := by simp
    have hfresh : pair.1 ∉ keys entries := by
      intro hmem
      rw [List.map_append, List.nodup_append] at h
      exact h.2.2 pair.1 hmem pair.1 (by simp) rfl
    rw [List.foldl_cons, put_of_not_mem pair.2 hfresh, ih _ (hsplit ▸ h), hsplit]

theorem ofPairs_of_nodup {pairs : List (String × α)} (h : (pairs.map Prod.fst).Nodup) :
    ofPairs pairs = pairs := foldl_put_of_nodup [] h

end Entries

namespace Json

open Text (CodePoint)

/-- The values that JSON texts hold without loss. -/
inductive Faithful : Value → Prop where
  | null : Faithful .null
  | bool (b : Bool) : Faithful (.bool b)
  | int {n : Int} (hshort : isLongInt n = false) : Faithful (.int n)
  | text (s : String) : Faithful (.text s)
  | list {items : List Value} (hitems : ∀ v ∈ items, Faithful v) : Faithful (.list items)
  | object {fields : List (String × Value)} (hfields : ∀ field ∈ fields, Faithful field.2)
      (hdistinct : (fields.map Prod.fst).Nodup) : Faithful (.object fields)

/-! ## Blanks -/

def Blank (cs : List Char) : Prop := ∀ c ∈ cs, isSpace (.char c) = true

theorem skipSpace_blank {cs : List Char} (h : Blank cs) (points : List CodePoint) :
    skipSpace (CodePoint.ofChars cs ++ points) = skipSpace points := by
  rw [skipSpace, List.dropWhile_append_of_pos]
  · rfl
  · intro p hp
    obtain ⟨c, hc, rfl⟩ := List.mem_map.mp hp
    exact h c hc

theorem skipSpace_cons {p : CodePoint} (h : isSpace p = false) (rest : List CodePoint) :
    skipSpace (p :: rest) = p :: rest := by
  simp [skipSpace, h]

theorem isNumeric_of_isSpace {p : CodePoint} (h : isSpace p = true) : isNumeric p = false := by
  cases p with
  | surrogate offset => rfl
  | char c =>
    simp only [isSpace, Bool.or_eq_true, decide_eq_true_eq] at h
    rcases h with ((rfl | rfl) | rfl) | rfl <;> rfl

theorem closed_blank {cs : List Char} (h : Blank cs) {p : CodePoint} {rest : List CodePoint}
    (hp : isNumeric p = false) : Closed (CodePoint.ofChars cs ++ p :: rest) := by
  cases cs with
  | nil => exact fun q hq => Option.some.inj hq ▸ hp
  | cons c more =>
    exact fun q hq => Option.some.inj hq ▸ isNumeric_of_isSpace (h c List.mem_cons_self)

theorem blank_newLine (depth : Nat) : Blank (newLine depth) := by
  intro c hc
  rcases List.mem_cons.mp hc with rfl | hc
  · rfl
  · rw [(List.mem_replicate.mp hc).2]
    rfl

theorem blank_edge (layout : Layout) (depth : Nat) : Blank (layout.edge depth) := by
  cases layout with
  | line => simp [Layout.edge, Blank]
  | indented => exact blank_newLine depth

theorem exists_separator (layout : Layout) (depth : Nat) :
    ∃ gap, layout.separator depth = ',' :: gap ∧ Blank gap := by
  cases layout with
  | line => exact ⟨[' '], rfl, by simp [Blank, isSpace]⟩
  | indented => exact ⟨newLine depth, rfl, blank_newLine depth⟩

/-! ## Values and their texts -/

/-- Whether a text starts as values do: neither with a blank, nor with the end of a list, nor with a
mark that texts have no use for. -/
def Opened (cs : List Char) : Prop :=
  ∃ c rest, cs = c :: rest ∧ isSpace (.char c) = false ∧ c ≠ ']' ∧ c ≠ Text.byteOrderMark

theorem skipSpace_opened {cs : List Char} (h : Opened cs) (behind : List CodePoint) :
    skipSpace (CodePoint.ofChars cs ++ behind) = CodePoint.ofChars cs ++ behind := by
  obtain ⟨c, rest, rfl, hspace, -⟩ := h
  exact skipSpace_cons hspace _

theorem joinChars_cons_cons (separator first second : List Char) (more : List (List Char)) :
    joinChars separator (first :: second :: more) =
      first ++ separator ++ joinChars separator (second :: more) := rfl

theorem opened_join (separator : List Char) {first : List Char} (h : Opened first)
    (more : List (List Char)) : Opened (joinChars separator (first :: more)) := by
  obtain ⟨c, rest, rfl, hc⟩ := h
  cases more with
  | nil => exact ⟨c, rest, rfl, hc⟩
  | cons second more => exact ⟨c, _, rfl, hc⟩

/-- Whether a text is read as a value, wherever it stands. -/
structure Denotes (cs : List Char) (v : Value) : Prop where
  opened : Opened cs
  reads : ∀ fuel behind, cs.length ≤ fuel → Closed behind →
    readValue .plain fuel (CodePoint.ofChars cs ++ behind) = .ok (v, behind)

theorem Denotes.of_cons {c : Char} {rest : List Char} {v : Value} (hopened : Opened (c :: rest))
    (h : ∀ fuel behind, rest.length ≤ fuel → Closed behind →
      readValue .plain (fuel + 1) (.char c :: (CodePoint.ofChars rest ++ behind)) =
        .ok (v, behind)) : Denotes (c :: rest) v where
  opened := hopened
  reads := by
    intro fuel behind hfuel hbehind
    rw [List.length_cons] at hfuel
    obtain ⟨fuel, rfl⟩ := Nat.exists_eq_add_of_le' (Nat.one_le_of_lt hfuel)
    exact h fuel behind (by omega) hbehind

theorem denotes_null : Denotes ['n', 'u', 'l', 'l'] .null :=
  .of_cons ⟨_, _, rfl, by decide⟩ fun _ _ _ _ => rfl

theorem denotes_bool (b : Bool) :
    Denotes (if b then ['t', 'r', 'u', 'e'] else ['f', 'a', 'l', 's', 'e']) (.bool b) := by
  cases b with
  | true => exact .of_cons ⟨_, _, rfl, by decide⟩ fun _ _ _ _ => rfl
  | false => exact .of_cons ⟨_, _, rfl, by decide⟩ fun _ _ _ _ => rfl

theorem string_eq (cs : List Char) : string cs = pointString (CodePoint.ofChars cs) := by
  simp [string, pointString, CodePoint.ofChars, List.flatMap_map, stringPoint]

theorem pointString_eq (points : List CodePoint) :
    pointString points = '"' :: (points.flatMap stringPoint ++ ['"']) := rfl

theorem denotes_pointString {points : List CodePoint} (h : Unpaired points) :
    Denotes (pointString points) (.ofPoints points) := by
  rw [pointString_eq]
  refine .of_cons ⟨_, _, rfl, by decide⟩ fun fuel behind _ _ => ?_
  rw [readValue]
  simp only [readString_points h]

theorem denotes_string (s : String) : Denotes (string s.toList) (.text s) := by
  rw [string_eq, ← Value.ofPoints_ofText]
  exact denotes_pointString (unpaired_ofChars s.toList)

theorem readValue_digit {c : Char} (hc : isDigit c = true) (fuel : Nat) (rest : List CodePoint) :
    readValue .plain (fuel + 1) (.char c :: rest) = readNumber .plain (.char c :: rest) ∧
      readValue .plain (fuel + 1) (.char '-' :: .char c :: rest) =
        readNumber .plain (.char '-' :: .char c :: rest) := by
  -- No other form of a value starts with a digit, and only an infinity with a minus sign.
  have hne : ∀ d, isDigit d = false → c ≠ d := fun d hd heq => by simp [heq, hd] at hc
  have hI := hne 'I' (by decide)
  constructor
  · have hquote := hne '"' (by decide)
    have hlist := hne '[' (by decide)
    have hobject := hne '\x7b' (by decide)
    have hn := hne 'n' (by decide)
    have ht := hne 't' (by decide)
    have hf := hne 'f' (by decide)
    have hN := hne 'N' (by decide)
    have hminus := hne '-' (by decide)
    simp [readValue, readScalar, hquote, hlist, hobject, hn, ht, hf, hN, hI, hminus]
  · simp [readValue, readScalar, hI]

theorem opened_digit {c : Char} (hc : isDigit c = true) (rest : List Char) :
    Opened (c :: rest) := by
  have hne : ∀ d, isDigit d = false → c ≠ d := fun d hd heq => by simp [heq, hd] at hc
  refine ⟨c, rest, rfl, ?_, hne _ (by decide), hne _ (by decide)⟩
  simp [isSpace, hne ' ' (by decide), hne '\t' (by decide), hne '\n' (by decide),
    hne '\r' (by decide)]

theorem denotes_number {d : Char} {digits : List Char} (hd : isDigit d = true) (negative : Bool)
    {cs : List Char} (hcs : cs = if negative then '-' :: d :: digits else d :: digits) {v : Value}
    (hread : ∀ rest, Closed rest →
      readNumber .plain (CodePoint.ofChars cs ++ rest) = .ok (v, rest)) : Denotes cs v := by
  cases negative with
  | true =>
    obtain rfl : cs = '-' :: d :: digits := hcs
    refine .of_cons ⟨_, _, rfl, by decide⟩ fun fuel behind _ hbehind => ?_
    exact ((readValue_digit hd fuel _).2).trans (hread behind hbehind)
  | false =>
    obtain rfl : cs = d :: digits := hcs
    refine .of_cons (opened_digit hd digits) fun fuel behind _ hbehind => ?_
    exact ((readValue_digit hd fuel _).1).trans (hread behind hbehind)

theorem denotes_int {n : Int} (h : isLongInt n = false) : Denotes (intDigits n) (.int n) := by
  obtain ⟨d, digits, hdigits⟩ := List.exists_cons_of_ne_nil (natDigits_ne_nil n.natAbs)
  have hd : isDigit d = true := isDigit_of_mem_natDigits (n := n.natAbs) (by simp [hdigits])
  have hcs : intDigits n = if decide (n < 0) then '-' :: d :: digits else d :: digits := by
    simp [intDigits, hdigits]
  exact denotes_number hd (decide (n < 0)) hcs fun _ hrest => readNumber_intDigits h hrest

/-! ## Lists -/

theorem closed_comma (rest : List CodePoint) : Closed (.char ',' :: rest) :=
  fun _ hp => Option.some.inj hp ▸ rfl

theorem exists_enclosed (layout : Layout) (depth : Nat) (left right : Char) {first : List Char}
    (hfirst : Opened first) (more : List (List Char)) :
    ∃ gap rest, Blank gap ∧ enclose layout depth left right (first :: more) = left :: rest ∧
      (joinChars (',' :: gap) (first :: more)).length < rest.length ∧
      ∀ behind, skipSpace (CodePoint.ofChars rest ++ behind) =
        CodePoint.ofChars (joinChars (',' :: gap) (first :: more)) ++
          (CodePoint.ofChars (layout.edge depth) ++ .char right :: behind) := by
  obtain ⟨gap, hseparator, hgap⟩ := exists_separator layout (depth + 1)
  have hopened := opened_join (',' :: gap) hfirst more
  refine ⟨gap, layout.edge (depth + 1) ++ (joinChars (',' :: gap) (first :: more) ++
    (layout.edge depth ++ [right])), hgap, by simp [enclose, hseparator], ?_, fun behind => ?_⟩
  · simp only [List.length_append, List.length_cons, List.length_nil]
    omega
  · simp only [CodePoint.ofChars_append, CodePoint.ofChars_cons, CodePoint.ofChars_nil,
      List.append_assoc, List.cons_append, List.nil_append]
    rw [skipSpace_blank (blank_edge layout (depth + 1)), skipSpace_opened hopened]

theorem Denotes.reads_last {cs : List Char} {v : Value} (h : Denotes cs v) {fuel : Nat}
    (hfuel : cs.length ≤ fuel) {edge : List Char} (hedge : Blank edge)
    (behind : List CodePoint) :
    readItems .plain (fuel + 1)
        (CodePoint.ofChars cs ++ (CodePoint.ofChars edge ++ .char ']' :: behind)) =
      .ok ([v], behind) := by
  have hclosed : Closed (CodePoint.ofChars edge ++ .char ']' :: behind) := closed_blank hedge rfl
  have hread := h.reads fuel _ hfuel hclosed
  have hend : Json.skipSpace (CodePoint.ofChars edge ++ .char ']' :: behind) =
      .char ']' :: behind := by rw [skipSpace_blank hedge, skipSpace_cons rfl]
  rw [readItems]
  simp only [hread, hend]

theorem Denotes.reads_more {cs : List Char} {v : Value} (h : Denotes cs v) {fuel : Nat}
    (hfuel : cs.length ≤ fuel) {rest behind : List CodePoint} {items : List Value}
    (hnext : readItems .plain fuel (skipSpace rest) = .ok (items, behind)) :
    readItems .plain (fuel + 1) (CodePoint.ofChars cs ++ .char ',' :: rest) =
      .ok (v :: items, behind) := by
  have hread := h.reads fuel _ hfuel (closed_comma rest)
  rw [readItems]
  simp only [hread, skipSpace_cons (p := .char ',') rfl, hnext]

theorem readItems_join {gap edge : List Char} (hgap : Blank gap) (hedge : Blank edge)
    (behind : List CodePoint) {written : List (List Char)} {items : List Value}
    (h : List.Forall₂ Denotes written items) (hne : written ≠ []) {fuel : Nat}
    (hfuel : (joinChars (',' :: gap) written).length < fuel) :
    readItems .plain fuel (CodePoint.ofChars (joinChars (',' :: gap) written) ++
      (CodePoint.ofChars edge ++ .char ']' :: behind)) = .ok (items, behind) := by
  -- What is left of the text bounds the fuel that the other items need.
  induction h generalizing fuel with
  | nil => exact absurd rfl hne
  | @cons cs v more rest hfirst hrest ih =>
    obtain ⟨fuel, rfl⟩ := Nat.exists_eq_add_of_le' (Nat.one_le_of_lt hfuel)
    cases hrest with
    | nil => exact hfirst.reads_last (Nat.le_of_lt_succ hfuel) hedge behind
    | @cons cs' v' more rest hsecond hrest =>
      have hopened := opened_join (',' :: gap) hsecond.opened more
      rw [joinChars_cons_cons] at hfuel ⊢
      generalize joinChars (',' :: gap) (cs' :: more) = tail at ih hopened hfuel ⊢
      simp only [List.length_append, List.length_cons] at hfuel
      have htail : tail.length < fuel := by omega
      have hnext := ih (by simp) htail
      simp only [CodePoint.ofChars_append, CodePoint.ofChars_cons, List.append_assoc,
        List.cons_append]
      apply hfirst.reads_more (by omega)
      rw [skipSpace_blank hgap, skipSpace_opened hopened]
      exact hnext

theorem denotes_list (layout : Layout) (depth : Nat) {written : List (List Char)}
    {items : List Value} (h : List.Forall₂ Denotes written items) :
    Denotes (enclose layout depth '[' ']' written) (.list items) := by
  cases h with
  | nil => exact .of_cons ⟨_, _, rfl, by decide⟩ fun _ _ _ _ => rfl
  | @cons first v more rest hfirst hrest =>
    obtain ⟨gap, inside, hgap, henclosed, hlength, hskip⟩ :=
      exists_enclosed layout depth '[' ']' hfirst.opened more
    obtain ⟨c, cs, hstart, -, hbracket, -⟩ := opened_join (',' :: gap) hfirst.opened more
    rw [henclosed]
    refine .of_cons ⟨_, _, rfl, by decide⟩ fun fuel behind hfuel _ => ?_
    have hitems := readItems_join hgap (blank_edge layout depth) behind (.cons hfirst hrest)
      (by simp) (Nat.lt_of_lt_of_le hlength hfuel)
    rw [hstart] at hskip hitems
    rw [readValue]
    simp only [hskip]
    split
    · next heq => exact absurd (CodePoint.char.inj (List.cons.inj heq).1) hbracket
    · simp only [hitems]

/-! ## Objects -/

def DenotesField (cs : List Char) (pair : List CodePoint × Value) : Prop :=
  ∃ written, cs = field (pointString pair.1) written ∧ Unpaired pair.1 ∧ Denotes written pair.2

section

variable {cs : List Char} {pair : List CodePoint × Value} (h : DenotesField cs pair)
include h

theorem DenotesField.opened : Opened cs := by
  obtain ⟨written, rfl, -⟩ := h
  exact ⟨_, _, rfl, by decide⟩

theorem DenotesField.reads {fuel : Nat} (hfuel : cs.length ≤ fuel) {rest : List CodePoint}
    (hclosed : Closed rest) :
    (∀ behind, skipSpace rest = .char '\x7d' :: behind →
      readFields .plain (fuel + 1) (CodePoint.ofChars cs ++ rest) = .ok ([pair], behind)) ∧
    ∀ next behind fields, skipSpace rest = .char ',' :: next →
      readFields .plain fuel (skipSpace next) = .ok (fields, behind) →
      readFields .plain (fuel + 1) (CodePoint.ofChars cs ++ rest) =
        .ok (pair :: fields, behind) := by
  obtain ⟨written, rfl, hunpaired, hwritten⟩ := h
  have hread := hwritten.reads fuel rest
    (by simp only [field, List.length_append, List.length_cons] at hfuel; omega) hclosed
  have hspace : skipSpace (.char ' ' :: (CodePoint.ofChars written ++ rest)) =
      CodePoint.ofChars written ++ rest := skipSpace_opened hwritten.opened rest
  have hkey := fun start behind => readString_points hunpaired start behind
  rw [field, pointString_eq]
  simp only [CodePoint.ofChars_cons, CodePoint.ofChars_append, List.cons_append,
    List.append_assoc] at hkey ⊢
  rw [readFields]
  simp only [hkey, skipSpace_cons (p := .char ':') rfl, hspace, hread]
  constructor
  · intro behind hend
    simp only [hend]
  · intro next behind fields hcomma hnext
    simp only [hcomma, hnext]

end

theorem readFields_join {gap edge : List Char} (hgap : Blank gap) (hedge : Blank edge)
    (behind : List CodePoint) {written : List (List Char)}
    {fields : List (List CodePoint × Value)}
    (h : List.Forall₂ DenotesField written fields) (hne : written ≠ []) {fuel : Nat}
    (hfuel : (joinChars (',' :: gap) written).length < fuel) :
    readFields .plain fuel (CodePoint.ofChars (joinChars (',' :: gap) written) ++
      (CodePoint.ofChars edge ++ .char '\x7d' :: behind)) = .ok (fields, behind) := by
  induction h generalizing fuel with
  | nil => exact absurd rfl hne
  | @cons cs pair more rest hfirst hrest ih =>
    obtain ⟨fuel, rfl⟩ := Nat.exists_eq_add_of_le' (Nat.one_le_of_lt hfuel)
    cases hrest with
    | nil =>
      have hend : skipSpace (CodePoint.ofChars edge ++ .char '\x7d' :: behind) =
          .char '\x7d' :: behind := by rw [skipSpace_blank hedge, skipSpace_cons rfl]
      exact (hfirst.reads (Nat.le_of_lt_succ hfuel) (closed_blank hedge rfl)).1 behind hend
    | @cons cs' pair' more rest hsecond hrest =>
      have hopened := opened_join (',' :: gap) hsecond.opened more
      rw [joinChars_cons_cons] at hfuel ⊢
      generalize joinChars (',' :: gap) (cs' :: more) = tail at ih hopened hfuel ⊢
      simp only [List.length_append, List.length_cons] at hfuel
      have htail : tail.length < fuel := by omega
      have hnext := ih (by simp) htail
      simp only [CodePoint.ofChars_append, CodePoint.ofChars_cons, List.append_assoc,
        List.cons_append]
      apply (hfirst.reads (by omega) (closed_comma _)).2 _ _ _ (skipSpace_cons rfl _)
      rw [skipSpace_blank hgap, skipSpace_opened hopened]
      exact hnext

theorem denotes_fields (layout : Layout) (depth : Nat) {written : List (List Char)}
    {fields : List (List CodePoint × Value)} (h : List.Forall₂ DenotesField written fields) :
    Denotes (enclose layout depth '\x7b' '\x7d' written) (objectOf .plain fields) := by
  cases h with
  | nil => exact .of_cons ⟨_, _, rfl, by decide⟩ fun _ _ _ _ => rfl
  | @cons first pair more rest hfirst hrest =>
    obtain ⟨gap, inside, hgap, henclosed, hlength, hskip⟩ :=
      exists_enclosed layout depth '\x7b' '\x7d' hfirst.opened more
    obtain ⟨cs, hstart⟩ : ∃ cs, joinChars (',' :: gap) (first :: more) = '"' :: cs := by
      obtain ⟨value, rfl, -⟩ := hfirst
      cases more with
      | nil => exact ⟨_, rfl⟩
      | cons second more => exact ⟨_, rfl⟩
    rw [henclosed]
    refine .of_cons ⟨_, _, rfl, by decide⟩ fun fuel behind hfuel _ => ?_
    have hfields := readFields_join hgap (blank_edge layout depth) behind (.cons hfirst hrest)
      (by simp) (Nat.lt_of_lt_of_le hlength hfuel)
    rw [hstart] at hskip hfields
    rw [readValue]
    simp only [hskip]
    split
    · next heq => exact absurd (CodePoint.char.inj (List.cons.inj heq).1) (by decide)
    · simp only [hfields]

theorem objectOf_ofText {fields : List (String × Value)}
    (h : (fields.map Prod.fst).Nodup) :
    objectOf .plain (fields.map fun pair => (CodePoint.ofText pair.1, pair.2)) =
      .object fields := by
  have hwhole : wholeFields? (fields.map fun pair => (CodePoint.ofText pair.1, pair.2)) =
      some fields := by
    clear h
    induction fields with
    | nil => rfl
    | cons pair rest ih =>
      rw [wholeFields?] at ih ⊢
      rw [List.map_cons, List.mapM_cons, ih]
      simp [CodePoint.ofText, CodePoint.chars?_ofChars]
  simp only [objectOf, hwhole, Dialect.plain, Bool.false_eq_true, if_false,
    Entries.ofPairs_of_nodup h]

theorem denotes_object (layout : Layout) (depth : Nat) {written : List (List Char)}
    {fields : List (String × Value)}
    (h : List.Forall₂ DenotesField written
      (fields.map fun pair => (CodePoint.ofText pair.1, pair.2)))
    (hdistinct : (fields.map Prod.fst).Nodup) :
    Denotes (enclose layout depth '\x7b' '\x7d' written) (.object fields) :=
  objectOf_ofText hdistinct ▸ denotes_fields layout depth h

/-! ## Documents -/

theorem Denotes.readText {cs : List Char} {v : Value} (h : Denotes cs v) :
    Json.readText (CodePoint.ofChars cs) = .ok v := by
  have hread := h.reads (2 * (CodePoint.ofChars cs).length + 1) []
    (by rw [CodePoint.length_ofChars]; omega) (fun _ hp => nomatch hp)
  have hspace := skipSpace_opened h.opened []
  rw [List.append_nil] at hread hspace
  have hdocument : readDocument .plain (CodePoint.ofChars cs) = .ok v := by
    simp only [readDocument, hspace, hread]
    rfl
  obtain ⟨c, rest, rfl, -, -, hmark⟩ := h.opened
  have hhead : ¬(CodePoint.ofChars (c :: rest)).head? = some (.char Text.byteOrderMark) :=
    fun heq => hmark (CodePoint.char.inj (Option.some.inj heq))
  rw [Json.readText, if_neg hhead, readPoints, hdocument]

theorem Denotes.read {cs : List Char} {v : Value} (h : Denotes cs v) :
    Json.read (String.ofList cs) = .ok v := by
  rw [Json.read, CodePoint.ofText, String.toList_ofList]
  exact h.readText

variable (layout : Layout) (foreign : Substitute)

def Encodes (v : Value) : Prop :=
  ∀ depth, ∃ cs, encode layout foreign depth v = .ok cs ∧ Denotes cs v

variable {layout foreign}

theorem encodeItems_of_encodes {items : List Value}
    (h : ∀ v ∈ items, Encodes layout foreign v) (depth : Nat) :
    ∃ written, encodeItems layout foreign depth items = .ok written ∧
      List.Forall₂ Denotes written items := by
  induction items with
  | nil => exact ⟨[], rfl, .nil⟩
  | cons v rest ih =>
    obtain ⟨cs, hcs, hdenotes⟩ := h v List.mem_cons_self depth
    obtain ⟨more, hmore, hrest⟩ := ih fun v hv => h v (List.mem_cons_of_mem _ hv)
    exact ⟨cs :: more, by simp only [encodeItems, hcs, hmore], .cons hdenotes hrest⟩

theorem denotesField_ofText (key : String) {cs : List Char} {v : Value} (h : Denotes cs v) :
    DenotesField (field (string key.toList) cs) (CodePoint.ofText key, v) :=
  ⟨cs, by rw [string_eq, CodePoint.ofText], unpaired_ofChars _, h⟩

theorem encodeFields_of_encodes {fields : List (String × Value)}
    (h : ∀ pair ∈ fields, Encodes layout foreign pair.2) (depth : Nat) :
    ∃ written, encodeFields layout foreign depth fields = .ok written ∧
      List.Forall₂ DenotesField written
        (fields.map fun pair => (CodePoint.ofText pair.1, pair.2)) := by
  induction fields with
  | nil => exact ⟨[], rfl, .nil⟩
  | cons pair rest ih =>
    obtain ⟨cs, hcs, hdenotes⟩ := h pair List.mem_cons_self depth
    obtain ⟨more, hmore, hrest⟩ := ih fun pair hpair => h pair (List.mem_cons_of_mem _ hpair)
    exact ⟨field (string pair.1.toList) cs :: more, by simp only [encodeFields, hcs, hmore],
      .cons (denotesField_ofText pair.1 hdenotes) hrest⟩

/-- Every value without losses is written as a text that is read as the value. -/
theorem Faithful.encodes {v : Value} (h : Faithful v) : Encodes layout foreign v := by
  induction h with
  | null => exact fun _ => ⟨_, rfl, denotes_null⟩
  | bool b =>
    intro depth
    cases b with
    | true => exact ⟨_, rfl, denotes_bool true⟩
    | false => exact ⟨_, rfl, denotes_bool false⟩
  | int hshort =>
    exact fun _ => ⟨_, by simp [encode, intText, hshort], denotes_int hshort⟩
  | text s => exact fun _ => ⟨_, rfl, denotes_string s⟩
  | list hitems ih =>
    intro depth
    obtain ⟨written, hwritten, hdenotes⟩ := encodeItems_of_encodes ih (depth + 1)
    exact ⟨_, by rw [encode, hwritten]; rfl, denotes_list layout depth hdenotes⟩
  | object hfields hdistinct ih =>
    intro depth
    obtain ⟨written, hwritten, hdenotes⟩ := encodeFields_of_encodes ih (depth + 1)
    exact ⟨_, by rw [encode, hwritten]; rfl, denotes_object layout depth hdenotes hdistinct⟩

theorem read_encode (layout : Layout) {v : Value} (h : Faithful v) :
    ∃ written, (encode layout refuse 0 v).map String.ofList = .ok written ∧
      read written = .ok v := by
  have hencodes : Encodes layout refuse v := h.encodes
  obtain ⟨cs, hcs, hdenotes⟩ := hencodes 0
  exact ⟨String.ofList cs, by rw [hcs]; rfl, hdenotes.read⟩

end Json

end PromptChain
