import PromptChain.Proofs.Schema.Makes
import PromptChain.Schema.Describe
/-!
# What descriptions keep

Whatever stands in a schema, at any depth, is described in the text that describes the schema:
texts, numbers and truth values by their kinds and descriptions, objects by the names of their
fields and by their descriptions.  There is one exception.  An object is shown without its
description not only on its own, but also if there is nothing around it but arrays.
-/

namespace PromptChain

/-! ## Texts that occur in a text -/

inductive InOrder : List (List Char) → List Char → Prop where
  | nil (text : List Char) : InOrder [] text
  | cons (before : List Char) (part : List Char) {rest : List (List Char)} {after : List Char}
      (h : InOrder rest after) : InOrder (part :: rest) (before ++ part ++ after)

namespace InOrder

theorem singleton {part text : List Char} (h : part <:+: text) : InOrder [part] text := by
  obtain ⟨before, after, rfl⟩ := h
  exact .cons before part (.nil after)

theorem append_right {parts : List (List Char)} {text : List Char} (h : InOrder parts text)
    (more : List Char) : InOrder parts (text ++ more) := by
  induction h with
  | nil text => exact .nil _
  | cons before part _ ih =>
    rw [List.append_assoc]
    exact .cons before part ih

theorem append_left {parts : List (List Char)} {text : List Char} (h : InOrder parts text)
    (front : List Char) : InOrder parts (front ++ text) := by
  cases h with
  | nil => exact .nil _
  | cons before part h =>
    rw [← List.append_assoc, ← List.append_assoc]
    exact .cons (front ++ before) part h

theorem mono {parts : List (List Char)} {text whole : List Char} (h : InOrder parts text)
    (hoccurs : text <:+: whole) : InOrder parts whole := by
  obtain ⟨before, after, rfl⟩ := hoccurs
  exact (h.append_left before).append_right after

theorem cons_append {part text after : List Char} {rest : List (List Char)} (hpart : part <:+: text)
    (h : InOrder rest after) : InOrder (part :: rest) (text ++ after) := by
  obtain ⟨before, between, rfl⟩ := hpart
  rw [List.append_assoc]
  exact .cons before part (h.append_left between)

end InOrder

theorem exists_joinChars_cons (separator first : List Char) (rest : List (List Char)) :
    ∃ between, joinChars separator (first :: rest) =
      first ++ (between ++ joinChars separator rest) := by
  cases rest with
  | nil => exact ⟨[], by simp [joinChars]⟩
  | cons second more => exact ⟨separator, by simp [joinChars]⟩

namespace Schema

open Value (IsText)

/-! ## Parts of schemas -/

/-- The schemas of texts, numbers, truth values, arrays and objects, with texts for descriptions and
for the names of fields. -/
inductive Worded : Schema → Prop where
  | string {d : Value} (hd : IsText d) : Worded (.string d)
  | number {d : Value} (hd : IsText d) : Worded (.number d)
  | boolean {d : Value} (hd : IsText d) : Worded (.boolean d)
  | array {item : Schema} (hitem : Worded item) {described : Option Value}
      (hdescribed : ∀ d ∈ described, IsText d) : Worded (.array item described)
  | object {fields : List (Value × Schema)} (hnames : ∀ field ∈ fields, IsText field.1)
      (hfields : ∀ field ∈ fields, Worded field.2) {described : Option Value}
      (hdescribed : ∀ d ∈ described, IsText d) : Worded (.object fields described)

/-- `Within t s`: the schema `t` is `s` or stands in it, however deep. -/
inductive Within (t : Schema) : Schema → Prop where
  | self : Within t t
  | item {item : Schema} (h : Within t item) (described : Option Value) :
      Within t (.array item described)
  | field {fields : List (Value × Schema)} {field : Value × Schema} (hmem : field ∈ fields)
      (h : Within t field.2) (described : Option Value) : Within t (.object fields described)

/-- What is left of a schema when the arrays around it are taken off. -/
def core : Schema → Schema
  | .array item _ => core item
  | s => s

/-- A schema whose core has another description, if the core is a schema of objects. -/
def retitle (d : Value) : Schema → Schema
  | .array item described => .array (retitle d item) described
  | .object fields _ => .object fields (some d)
  | s => s

def quoted (name : List Char) : List Char := '"' :: name ++ ['"']

/-- What a description lists of a schema: its kind and what it is described by, or the names of its
fields, in quotes. -/
inductive Lists : Schema → List (List Char) → Prop where
  | string {d : Value} {cs : List Char} (hd : d.plain = .ok cs) :
      Lists (.string d) ["string: ".toList ++ cs]
  | number {d : Value} {cs : List Char} (hd : d.plain = .ok cs) :
      Lists (.number d) ["number: ".toList ++ cs]
  | boolean {d : Value} {cs : List Char} (hd : d.plain = .ok cs) :
      Lists (.boolean d) ["boolean: ".toList ++ cs]
  | names {fields : List (Value × Schema)} {names : List (List Char)}
      (hnames : List.Forall₂ (fun field name => field.1.plain = .ok name) fields names)
      (described : Option Value) : Lists (.object fields described) (names.map quoted)

/-! ## Parts of descriptions -/

/-- A text in which everything in a schema is described, and the schema itself. -/
structure Covers (text : List Char) (s : Schema) : Prop where
  lists : ∀ t parts, Within t s → Lists t parts → InOrder parts text
  titles : ∀ fields described cs, Within (.object fields described) s →
    (described.getD objectText).plain = .ok cs → Text.trimChars cs <:+: text

theorem Covers.mono {text whole : List Char} {s : Schema} (h : Covers text s)
    (hoccurs : text <:+: whole) : Covers whole s where
  lists t parts ht hparts := (h.lists t parts ht hparts).mono hoccurs
  titles fields described cs ht hcs := (h.titles fields described cs ht hcs).trans hoccurs

theorem Covers.array {text : List Char} {item : Schema} (h : Covers text item)
    (described : Option Value) : Covers text (.array item described) where
  lists t parts ht hparts := by
    cases ht with
    | self => cases hparts
    | item ht => exact h.lists t parts ht hparts
  titles fields d cs ht hcs := by
    cases ht with
    | item ht => exact h.titles fields d cs ht hcs

theorem infix_arrayOf (item : List Char) : item <:+: arrayOf item :=
  ⟨"array of [".toList, [']'], rfl⟩

theorem infix_braced (indent : List Char) (lines : List (List Char)) :
    joinChars [',', '\n'] lines <:+: braced indent lines :=
  ⟨['\x7b', '\n'], '\n' :: indent ++ ['\x7d'], by simp [braced]⟩

theorem exists_nestedFields {indent : List Char} {fields : List (Value × Schema)}
    (hnames : ∀ field ∈ fields, IsText field.1)
    (hfields : ∀ field ∈ fields, ∃ text, nested indent field.2 = .ok text ∧ Covers text field.2) :
    ∃ lines, nestedFields indent fields = .ok lines ∧
      (∀ field ∈ fields, Covers (joinChars [',', '\n'] lines) field.2) ∧
      ∀ names, List.Forall₂ (fun field name => field.1.plain = .ok name) fields names →
        InOrder (names.map quoted) (joinChars [',', '\n'] lines) := by
  induction fields with
  | nil =>
    refine ⟨[], by rw [nestedFields], by simp, fun names h => ?_⟩
    cases h
    exact .nil _
  | cons first rest ih =>
    obtain ⟨hname, hnames⟩ := List.forall_mem_cons.mp hnames
    obtain ⟨⟨shown, hshown, hcovers⟩, hfields⟩ := List.forall_mem_cons.mp hfields
    obtain ⟨name, hplain⟩ := Value.exists_plain hname
    obtain ⟨lines, hlines, hrest, horder⟩ := ih hnames hfields
    obtain ⟨between, hjoined⟩ :=
      exists_joinChars_cons [',', '\n'] (fieldLine indent name shown) lines
    refine ⟨fieldLine indent name shown :: lines, ?_, ?_, ?_⟩
    · rw [nestedFields, hplain, hshown, hlines]
    · rw [hjoined, List.forall_mem_cons]
      constructor
      · apply hcovers.mono
        exact ⟨indent ++ '"' :: name ++ ['"', ':', ' '], between ++ joinChars [',', '\n'] lines,
          by simp [fieldLine]⟩
      · intro field hfield
        apply (hrest field hfield).mono
        exact ((List.suffix_append between _).trans (List.suffix_append _ _)).isInfix
    · intro names h
      cases h with
      | cons hname' hmore =>
      obtain rfl := Except.ok.inj (hplain.symm.trans hname')
      rw [hjoined, List.map_cons]
      apply InOrder.cons_append
      · exact ⟨indent, ':' :: ' ' :: shown, by simp [fieldLine, quoted]⟩
      · exact (horder _ hmore).append_left between

theorem lists_object {fields : List (Value × Schema)} {described : Option Value} {text : List Char}
    (hcovers : ∀ field ∈ fields, Covers text field.2)
    (horder : ∀ names, List.Forall₂ (fun field name => field.1.plain = .ok name) fields names →
      InOrder (names.map quoted) text) {t : Schema} {parts : List (List Char)}
    (ht : Within t (.object fields described)) (hparts : Lists t parts) : InOrder parts text := by
  cases ht with
  | self =>
    cases hparts with
    | names hnames => exact horder _ hnames
  | field hmem ht => exact (hcovers _ hmem).lists t parts ht hparts

theorem exists_titled (indent : List Char) {d : Value} {cs : List Char} (hd : d.plain = .ok cs)
    (lines : List (List Char)) :
    ∃ text, titled indent d (braced indent lines) = .ok text ∧ Text.trimChars cs <:+: text ∧
      braced indent lines <:+: text := by
  refine ⟨_, by rw [titled, hd]; rfl, ?_, ?_⟩
  · apply Text.infix_strip
    exact ⟨indent ++ [' '], '\n' :: indent ++ braced indent lines, by simp⟩
  · have hbraced : Text.trimChars (braced indent lines) = braced indent lines :=
      Text.strip_bracketed ('\n' :: joinChars [',', '\n'] lines ++ '\n' :: indent) (by decide)
        (by decide)
    conv_lhs => rw [← hbraced]
    apply Text.infix_strip
    exact (List.suffix_append _ _).isInfix

theorem exists_nested {s : Schema} (hs : Worded s) (indent : List Char) :
    ∃ text, nested indent s = .ok text ∧ Covers text s := by
  induction hs generalizing indent with
  | string hd | number hd | boolean hd =>
    obtain ⟨cs, hcs⟩ := Value.exists_plain hd
    refine ⟨_, by rw [nested, labelled, hcs]; rfl, fun t parts ht hparts => ?_, fun _ _ _ ht => ?_⟩
    · cases ht
      cases hparts with
      | _ hcs' =>
        obtain rfl := Except.ok.inj (hcs.symm.trans hcs')
        exact .singleton List.infix_rfl
    · cases ht
  | @array item _ described _ ih =>
    obtain ⟨text, htext, hcovers⟩ := ih (indent ++ [' ', ' '])
    refine ⟨arrayOf text, by rw [nested, htext]; rfl, ?_⟩
    exact (hcovers.mono (infix_arrayOf text)).array described
  | @object fields hnames _ described hdescribed ih =>
    obtain ⟨lines, hlines, hcovers, horder⟩ := exists_nestedFields hnames fun field hfield =>
      ih field hfield (indent ++ [' ', ' '])
    have hd : IsText (described.getD objectText) := by
      cases described with
      | none => exact Value.isText_text "Object"
      | some d => exact hdescribed d rfl
    obtain ⟨cs, hcs⟩ := Value.exists_plain hd
    obtain ⟨text, htext, htitle, hbraced⟩ := exists_titled indent hcs lines
    have hjoined := (infix_braced indent lines).trans hbraced
    refine ⟨text, by rw [nested, hlines]; exact htext, ?_, ?_⟩
    · exact fun t parts ht hparts => (lists_object hcovers horder ht hparts).mono hjoined
    · intro others d cs' ht hcs'
      cases ht with
      | self =>
        obtain rfl := Except.ok.inj (hcs.symm.trans hcs')
        exact htitle
      | field hmem ht => exact ((hcovers _ hmem).mono hjoined).titles others d cs' ht hcs'

/-! ## Descriptions -/

theorem descChars_of_text {s : Schema} {text : List Char}
    (h : descOrKind s = .ok (.text (String.ofList text))) : descChars s = .ok text := by
  rw [descChars, h]
  exact congrArg _ (String.toList_ofList)

theorem desc_of_worded {s : Schema} (hs : Worded s) : desc s = descOrKind s := by
  cases hs <;> rfl

theorem descOrKind_retitle (d : Value) : ∀ s : Schema, descOrKind (retitle d s) = descOrKind s
  | .array item described => by
    rw [retitle, descOrKind, descOrKind, descChars, descChars, descOrKind_retitle d item]
  | .object fields described => by rw [retitle, descOrKind, descOrKind]
  | .string _ => rfl
  | .number _ => rfl
  | .boolean _ => rfl
  | .record .. => rfl
  | .validation _ => rfl
  | .made .. => rfl

theorem desc_retitle (d : Value) (s : Schema) : desc (retitle d s) = desc s := by
  cases s with
  | array item described => exact descOrKind_retitle d (.array item described)
  | object fields described => exact descOrKind_retitle d (.object fields described)
  | _ => rfl

/-- **What is in a schema is in its description.**  A schema of texts, numbers, truth values, arrays
and objects is described by a text in which, from any depth, all kinds of texts, numbers and truth
values occur with their descriptions, all names of fields, those of one object in order, and all
descriptions of objects, without blanks around them.  Only the description of the core is left out,
if the core is an object: the text is the same under any other. -/
theorem exists_desc {s : Schema} (hs : Worded s) :
    ∃ text, desc s = .ok (.text (String.ofList text)) ∧
      (∀ t parts, Within t s → Lists t parts → InOrder parts text) ∧
      (∀ fields described cs, Within (.object fields described) s →
        .object fields described ≠ s.core → (described.getD objectText).plain = .ok cs →
        Text.trimChars cs <:+: text) ∧
      ∀ d, desc (retitle d s) = .ok (.text (String.ofList text)) := by
  have hworded := hs
  simp only [desc_retitle, desc_of_worded hworded]
  induction hs with
  | string | number | boolean =>
    obtain ⟨text, htext, hcovers⟩ := exists_nested hworded []
    rw [nested] at htext
    have hdesc : ofChars (.ok text) = .ok (.text (String.ofList text)) := rfl
    rw [descOrKind, htext, hdesc]
    exact ⟨text, rfl, hcovers.lists, fun _ _ _ ht _ => hcovers.titles _ _ _ ht, fun _ => rfl⟩
  | @array item hitem described _ ih =>
    obtain ⟨text, htext, hlists, htitles, -⟩ := ih hitem
    have hdesc : descOrKind (.array item described) =
        .ok (.text (String.ofList (arrayOf text))) := by
      rw [descOrKind, descChars_of_text htext]
      rfl
    refine ⟨arrayOf text, hdesc, ?_, ?_, fun _ => hdesc⟩
    · intro t parts ht hparts
      cases ht with
      | self => cases hparts
      | item ht => exact (hlists t parts ht hparts).mono (infix_arrayOf text)
    · intro fields d cs ht hcore hcs
      cases ht with
      | item ht => exact (htitles fields d cs ht hcore hcs).trans (infix_arrayOf text)
  | @object fields hnames hfields described hdescribed ih =>
    obtain ⟨lines, hlines, hcovers, horder⟩ := exists_nestedFields hnames fun field hfield =>
      exists_nested (hfields field hfield) [' ', ' ']
    have hjoined := infix_braced [] lines
    have hdesc : descOrKind (.object fields described) =
        .ok (.text (String.ofList (braced [] lines))) := by
      rw [descOrKind, hlines]
      rfl
    refine ⟨braced [] lines, hdesc, ?_, ?_, fun _ => hdesc⟩
    · exact fun t parts ht hparts => (lists_object hcovers horder ht hparts).mono hjoined
    · intro others d cs ht hcore hcs
      cases ht with
      | self => exact absurd rfl hcore
      | field hmem ht => exact ((hcovers _ hmem).mono hjoined).titles others d cs ht hcs

/-- In the description of an array of points it does not say that they are points. -/
theorem exists_desc_points :
    let point := Schema.object [(.text "x", .number (.text "X"))] (some (.text "Point"))
    ∃ text, desc (.array point none) = .ok (.text (String.ofList text)) ∧
      InOrder ["number: X".toList] text ∧ ¬ "Point".toList <:+: text := by
  intro point
  have hpoint : Worded point := by
    refine .object (fun field hfield => ?_) (fun field hfield => ?_) fun d hd => ?_
    · rw [List.mem_singleton.mp hfield]
      exact Value.isText_text "x"
    · rw [List.mem_singleton.mp hfield]
      exact .number (Value.isText_text "X")
    · cases hd
      exact Value.isText_text "Point"
  have hworded : Worded (.array point none) := .array hpoint (by simp)
  obtain ⟨text, hdesc, hlists, -⟩ := exists_desc hworded
  refine ⟨text, hdesc, ?_, ?_⟩
  · have hmem : (.text "x", .number (.text "X")) ∈ [(Value.text "x", number (.text "X"))] :=
      List.mem_singleton_self _
    exact hlists _ _ (.item (.field hmem .self _) none) (.number rfl)
  · have hwhole : desc (.array point none) =
        .ok (.text "array of [\x7b\n  \"x\": number: X\n\x7d]") := by
      rw [desc_of_worded hworded, descOrKind, descChars, descOrKind]
      rfl
    have htext := Value.text.inj (Except.ok.inj (hwhole.symm.trans hdesc))
    have hchars : text = "array of [\x7b\n  \"x\": number: X\n\x7d]".toList := by
      rw [htext, String.toList_ofList]
    intro hoccurs
    have hmem : 'P' ∈ text := hoccurs.subset (by decide)
    rw [hchars] at hmem
    exact absurd hmem (by decide)

end Schema

end PromptChain
