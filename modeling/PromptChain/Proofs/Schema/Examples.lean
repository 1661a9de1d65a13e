import Mathlib.Data.List.Nodup
import PromptChain.Proofs.Schema.Idempotence
import PromptChain.Proofs.Schema.TextInput
import PromptChain.Schema.Example
/-!
# Examples that their schemas accept

The example of an array or of an object is the JSON text of a structure that follows the schema: the
examples of the parts stand in it as they are, at every depth, and never as texts of JSON.  The
schema takes its own example for this structure.
-/

namespace PromptChain

namespace Schema

mutual

/-- The structure that an example of a schema shows. -/
def sample : Schema → Value
  | .string _ => .text JsonExample.exampleText
  | .number _ => .int JsonExample.exampleNumber
  | .boolean _ => .bool JsonExample.exampleBoolean
  | .array item _ => .list [sample item]
  | .object fields _ => objectOf (samples fields)
  | _ => .null

def samples : List (Value × Schema) → List (Value × Value)
  | [] => []
  | (name, schema) :: rest => (name, sample schema) :: samples rest

end

theorem samples_eq_map (fields : List (Value × Schema)) :
    samples fields = fields.map fun field => (field.1, sample field.2) := by
  induction fields with
  | nil => rfl
  | cons field rest ih => rw [samples, ih, List.map_cons]

/-! ## Names that are texts -/

/-- The schemas of JSON data: the fields of objects stand under texts, no two under the same. -/
inductive Named : Schema → Prop where
  | string (d : Value) : Named (.string d)
  | number (d : Value) : Named (.number d)
  | boolean (d : Value) : Named (.boolean d)
  | array {item : Schema} (hitem : Named item) (described : Option Value) :
      Named (.array item described)
  | object {entries : Entries Schema} (hentries : ∀ entry ∈ entries, Named entry.2)
      (hdistinct : entries.keys.Nodup) (described : Option Value) :
      Named (.object (Table.ofEntries entries) described)

theorem areData_iff {fields : List (Value × Schema)} :
    areData fields = true ↔
      ∀ field ∈ fields, field.1.text?.isSome = true ∧ field.2.isData = true := by
  induction fields with
  | nil => simp [areData]
  | cons field rest ih =>
    rw [areData, Bool.and_eq_true, Bool.and_eq_true, ih, List.forall_mem_cons]

theorem exists_entries {fields : List (Value × Schema)}
    (h : ∀ field ∈ fields, field.1.text?.isSome = true) :
    ∃ entries : Entries Schema, fields = Table.ofEntries entries := by
  induction fields with
  | nil => exact ⟨[], rfl⟩
  | cons field rest ih =>
    obtain ⟨name, schema⟩ := field
    obtain ⟨entries, rfl⟩ := ih fun field hfield => h field (List.mem_cons_of_mem _ hfield)
    have hname := h (name, schema) List.mem_cons_self
    cases name with
    | text key => exact ⟨(key, schema) :: entries, rfl⟩
    | _ => cases hname

theorem keys_ofEntries {α : Type} (entries : Entries α) :
    (Table.ofEntries entries).keys = entries.keys.map Value.text := by
  simp [Table.keys, Table.ofEntries, Entries.keys]

theorem named_of_isData {s : Schema} (hs : s.Composed) (hdata : s.isData = true) : Named s := by
  induction hs with
  | string d => exact .string d
  | number d => exact .number d
  | boolean d => exact .boolean d
  | array _ described ih => exact .array (ih hdata) described
  | @object fields _ described ih =>
    have hfields := areData_iff.mp hdata
    obtain ⟨entries, hentries⟩ := exists_entries fun field hfield => (hfields field hfield).1
    have hdistinct : (Table.keys (Table.ofPairs fields)).Nodup := by
      refine nodup_keys (Table.distinct_ofPairs fields) ?_
      rw [hentries, keys_ofEntries]
      intro name hname
      obtain ⟨key, -, rfl⟩ := List.mem_map.mp hname
      exact Value.isText_text key
    rw [hentries, keys_ofEntries] at hdistinct
    rw [hentries]
    refine .object (fun entry hentry => ?_) (List.Nodup.of_map Value.text hdistinct) described
    have hfield : (Value.text entry.1, entry.2) ∈ Table.ofPairs fields := by
      rw [hentries]
      exact List.mem_map_of_mem hentry
    obtain ⟨other, hother, heq⟩ := Table.mem_ofPairs hfield
    dsimp only at heq
    rw [heq]
    exact ih other hother (heq ▸ (hfields _ hfield).2)

/-! ## Objects under texts -/

theorem mapM_ofEntries {f : Value × Value → Option (String × Value)}
    (hf : ∀ entry : String × Value, f (.text entry.1, entry.2) = some entry)
    (entries : Entries Value) : (Table.ofEntries entries).mapM f = some entries := by
  induction entries with
  | nil => rfl
  | cons entry rest ih =>
    rw [Table.ofEntries] at ih ⊢
    rw [List.map_cons, List.mapM_cons, hf, ih]
    rfl

theorem objectOf_ofEntries (entries : Entries Value) :
    objectOf (Table.ofEntries entries) = .object entries := by
  rw [objectOf, mapM_ofEntries fun entry => rfl]

theorem encodeKeyed_ofEntries (layout : Json.Layout) (foreign : Json.Substitute) (depth : Nat)
    (entries : Entries Value) :
    Json.encodeKeyed layout foreign depth (Table.ofEntries entries) =
      Json.encodeFields layout foreign depth entries := by
  induction entries with
  | nil => rfl
  | cons entry rest ih =>
    rw [Table.ofEntries] at ih ⊢
    simp only [List.map_cons, Json.encodeKeyed, Json.fieldName, Json.encodeFields, ih]

theorem prettyKeyed_ofEntries (entries : Entries Value) :
    Json.prettyKeyed (Table.ofEntries entries) = Json.pretty (.object entries) := by
  rw [Json.prettyKeyed, encodeKeyed_ofEntries, Json.pretty, Json.encode]
  cases Json.encodeFields .indented Json.refuse 1 entries <;> rfl

/-! ## Structures of examples -/

def sampleEntries (entries : Entries Schema) : Entries Value :=
  entries.map fun entry => (entry.1, sample entry.2)

theorem samples_ofEntries (entries : Entries Schema) :
    samples (Table.ofEntries entries) = Table.ofEntries (sampleEntries entries) := by
  simp [samples_eq_map, Table.ofEntries, sampleEntries]

theorem sample_object (entries : Entries Schema) (described : Option Value) :
    sample (.object (Table.ofEntries entries) described) = .object (sampleEntries entries) := by
  rw [sample, samples_ofEntries, objectOf_ofEntries]

theorem keys_sampleEntries (entries : Entries Schema) :
    (sampleEntries entries).map Prod.fst = entries.keys := by
  simp [sampleEntries, Entries.keys]

theorem faithful_sample {s : Schema} (h : Named s) : Json.Faithful (sample s) := by
  induction h with
  | string d => exact .text _
  | number d => exact .int (by decide +kernel)
  | boolean d => exact .bool _
  | array _ described ih =>
    rw [sample]
    exact .list fun v hv => List.mem_singleton.mp hv ▸ ih
  | @object entries _ hdistinct described ih =>
    rw [sample_object]
    refine .object (fun field hfield => ?_) (keys_sampleEntries entries ▸ hdistinct)
    obtain ⟨entry, hentry, rfl⟩ := List.mem_map.mp hfield
    exact ih entry hentry

theorem get?_of_mem {entries : Entries Value} (hdistinct : (entries.map Prod.fst).Nodup)
    {key : String} {v : Value} (h : (key, v) ∈ entries) : entries.get? key = some v := by
  have hkeys : ((Table.ofEntries entries).map Prod.fst).Nodup := by
    rw [← Table.keys, keys_ofEntries]
    exact List.Nodup.map (fun _ _ => Value.text.inj) hdistinct
  rw [get?_eq_lookup]
  exact lookup_of_mem hkeys (List.mem_map_of_mem h)

theorem parseFields_sampleEntries {entries : Entries Schema} {whole : Entries Value}
    (hwhole : ∀ entry ∈ entries, whole.get? entry.1 = some (sample entry.2))
    (h : ∀ entry ∈ entries, parse entry.2 (sample entry.2) = .ok (sample entry.2)) :
    parseFields (Table.ofEntries entries) (.object whole) =
      .ok (Table.ofEntries (sampleEntries entries)) := by
  induction entries with
  | nil => rfl
  | cons entry rest ih =>
    have hitem : item? (.object whole) (.text entry.1) = some (sample entry.2) :=
      hwhole entry List.mem_cons_self
    have hrest := ih (fun entry hentry => hwhole entry (List.mem_cons_of_mem _ hentry))
      fun entry hentry => h entry (List.mem_cons_of_mem _ hentry)
    have hsplit : Table.ofEntries (entry :: rest) =
        (.text entry.1, entry.2) :: Table.ofEntries rest := rfl
    rw [hsplit, parseFields]
    simp only [hitem, h entry List.mem_cons_self, hrest]
    rfl

theorem parse_sample {s : Schema} (h : Named s) : s.parse (sample s) = .ok (sample s) := by
  induction h with
  | string d => exact congrArg Except.ok (congrArg Value.text (by decide +kernel))
  | number d => rfl
  | boolean d => rfl
  | array _ described ih => simp only [sample, parse, decode_list, parseItems, ih, Except.map]
  | @object entries _ hdistinct described ih =>
    have hwhole : ∀ entry ∈ entries,
        (sampleEntries entries).get? entry.1 = some (sample entry.2) := by
      intro entry hentry
      refine get?_of_mem ?_ (List.mem_map_of_mem hentry)
      rw [keys_sampleEntries]
      exact hdistinct
    rw [sample_object, parse, decode_of_not_text rfl]
    simp only [isObject, if_true, parseFields_sampleEntries hwhole ih, Except.map,
      objectOf_ofEntries]

/-! ## Examples -/

theorem embedded_exampleText :
    embedded (.text JsonExample.exampleText) = .text JsonExample.exampleText := by
  have hread : Json.readText (Text.CodePoint.ofText JsonExample.exampleText) =
      .error (.malformed .value 1 1 0) := by decide +kernel
  rw [embedded, Value.points?, Option.map_some, hread]

theorem embedded_text {written : String} {v : Value} (h : Json.read written = .ok v) :
    embedded (.text written) = v := by
  rw [Json.read] at h
  rw [embedded, Value.points?, Option.map_some, h]

/-- What the example of a schema should be: the structure that it shows, as indented JSON if it has
parts. -/
def Shows (s : Schema) : Prop :=
  s.exampleOf = if s.isStructured then (Json.pretty (sample s)).map .text else .ok (sample s)

theorem embedded_of_shows {s : Schema} (h : Named s) (hshows : Shows s) :
    ∃ shown, s.exampleOf = .ok shown ∧ embedded shown = sample s := by
  obtain ⟨written, hwritten, hread⟩ := Json.read_encode .indented (faithful_sample h)
  rw [← Json.pretty] at hwritten
  rw [Shows, hwritten] at hshows
  cases h with
  | string d => exact ⟨_, hshows, embedded_exampleText⟩
  | number d => exact ⟨_, hshows, rfl⟩
  | boolean d => exact ⟨_, hshows, rfl⟩
  | array hitem described => exact ⟨_, hshows, embedded_text hread⟩
  | object hentries hdistinct described => exact ⟨_, hshows, embedded_text hread⟩

theorem exampleFields_ofEntries {entries : Entries Schema}
    (h : ∀ entry ∈ entries, ∃ shown, entry.2.exampleOf = .ok shown ∧
      embedded shown = sample entry.2) :
    exampleFields (Table.ofEntries entries) = .ok (Table.ofEntries (sampleEntries entries)) := by
  induction entries with
  | nil => rfl
  | cons entry rest ih =>
    obtain ⟨shown, hshown, hembedded⟩ := h entry List.mem_cons_self
    have hrest := ih fun entry hentry => h entry (List.mem_cons_of_mem _ hentry)
    have hsplit : Table.ofEntries (entry :: rest) =
        (.text entry.1, entry.2) :: Table.ofEntries rest := rfl
    rw [hsplit, exampleFields]
    simp only [hshown, hrest, hembedded]
    rfl

theorem shows_of_named {s : Schema} (h : Named s) : Shows s := by
  -- Each level reads the texts of the level below back before it writes its own.
  induction h with
  | string d => rfl
  | number d => rfl
  | boolean d => rfl
  | array hitem described ih =>
    obtain ⟨shown, hshown, hembedded⟩ := embedded_of_shows hitem ih
    simp only [Shows, exampleOf, hshown, hembedded, isStructured, if_true, sample]
  | @object entries hentries _ described ih =>
    have hfields := exampleFields_ofEntries fun entry hentry =>
      embedded_of_shows (hentries entry hentry) (ih entry hentry)
    simp only [Shows, exampleOf, hfields, prettyKeyed_ofEntries, isStructured, if_true,
      sample_object]

/-- **Schemas accept their examples.**  The example of a schema of texts, numbers, truth values,
arrays and objects, under texts, is the structure that follows the schema, written as indented JSON
if it has parts, and it is parsed as this structure. -/
theorem parse_exampleOf {s : Schema} (hs : s.Composed) (hdata : s.isData = true) :
    ∃ shown, s.exampleOf = .ok shown ∧ s.parse shown = .ok (sample s) ∧
      if s.isStructured then (Json.pretty (sample s)).map Value.text = .ok shown
      else shown = sample s := by
  have hnamed := named_of_isData hs hdata
  have hshows := shows_of_named hnamed
  have hparse := parse_sample hnamed
  rw [Shows] at hshows
  cases hstructured : s.isStructured with
  | false => exact ⟨sample s, by simpa [hstructured] using hshows, hparse, by simp⟩
  | true =>
    obtain ⟨written, hwritten, hread⟩ := Json.read_encode .indented (faithful_sample hnamed)
    have hparts : (sample s).points? = none := by
      cases hnamed with
      | array hitem described => rfl
      | object hentries hdistinct described => rw [sample_object]; rfl
      | _ => cases hstructured
    have hpretty : (Json.pretty (sample s)).map Value.text = .ok (.text written) := by
      rw [Json.pretty, hwritten]
      rfl
    refine ⟨.text written, ?_, ?_, ?_⟩
    · rw [hshows, hstructured, if_pos rfl, hpretty]
    · rw [parse_of_read hstructured hread hparts, hparse]
    · rw [if_pos rfl, hpretty]

/-- In the example of a list of objects with lists in them nothing is quoted but texts. -/
theorem parse_exampleOf_marks :
    ∃ shown, exampleOf (.array (ofFields [(.text "title", .string .null),
        (.text "marks", .array (.number .null) none)]) none) = .ok shown ∧
      parse (.array (ofFields [(.text "title", .string .null),
          (.text "marks", .array (.number .null) none)]) none) shown =
        .ok (.list [.object [("title", .text "example string"), ("marks", .list [.int 42])]]) := by
  have hfields : ∀ field ∈ [(Value.text "title", Schema.string .null),
      (.text "marks", .array (.number .null) none)], Composed field.2 := by
    intro field hfield
    simp only [List.mem_cons, List.not_mem_nil, or_false] at hfield
    rcases hfield with rfl | rfl
    · exact .string .null
    · exact .array (.number .null) none
  obtain ⟨shown, hshown, hparse, -⟩ :=
    parse_exampleOf (.array (.object hfields none) none) (by decide +kernel)
  exact ⟨shown, hshown, hparse⟩

end Schema

end PromptChain
