import PromptChain.Proofs.Text.Trimming
import PromptChain.Proofs.Value.Table
import PromptChain.Schema.Parse
/-!
# The values that schemas make

What parsing with a schema can come to, told from the schema alone: trimmed
texts, integers and finite numbers, truth values, lists of what the item's
schema makes, and objects with the declared fields in the order of their
declaration.
-/

namespace PromptChain

open Text (CodePoint)

/-! ## Texts and objects -/

namespace Value

def IsText (v : Value) : Prop := ∃ points, v = .ofPoints points

theorem isText_text (s : String) : IsText (.text s) :=
  ⟨CodePoint.ofText s, (ofPoints_ofText s).symm⟩

theorem ofPoints_cases (points : List CodePoint) :
    (∃ cs, points = CodePoint.ofChars cs ∧ ofPoints points = .text (String.ofList cs)) ∨
      (CodePoint.chars? points = none ∧ ofPoints points = .brokenText points) := by
  cases hchars : CodePoint.chars? points with
  | some cs =>
    exact .inl ⟨cs, CodePoint.chars?_eq_some_iff.mp hchars, by simp [ofPoints, hchars]⟩
  | none => exact .inr ⟨rfl, by simp [ofPoints, hchars]⟩

theorem points?_ofPoints (points : List CodePoint) : (ofPoints points).points? = some points := by
  rcases ofPoints_cases points with ⟨cs, rfl, heq⟩ | ⟨-, heq⟩
  · rw [heq, points?, CodePoint.ofText, String.toList_ofList]
  · rw [heq, points?]

theorem exists_plain {v : Value} (h : IsText v) : ∃ cs, v.plain = .ok cs := by
  obtain ⟨points, rfl⟩ := h
  unfold ofPoints
  split <;> exact ⟨_, rfl⟩

theorem same_ofPoints {points other : List CodePoint}
    (h : (ofPoints points).same (ofPoints other) = false) : points ≠ other := by
  rintro rfl
  rcases ofPoints_cases points with ⟨cs, -, heq⟩ | ⟨-, heq⟩ <;> simp [heq, same] at h

theorem same_ofPoints_of_ne {points other : List CodePoint} (h : points ≠ other) :
    (ofPoints points).same (ofPoints other) = false := by
  rcases ofPoints_cases points with ⟨cs, rfl, heq⟩ | ⟨-, heq⟩ <;>
    rcases ofPoints_cases other with ⟨ds, rfl, heq'⟩ | ⟨-, heq'⟩
  · have hne : String.ofList cs ≠ String.ofList ds :=
      fun hsame => h (congrArg _ (String.ofList_injective hsame))
    simpa [heq, heq', same] using hne
  · rw [heq, heq']
    rfl
  · rw [heq, heq']
    rfl
  · simpa [heq, heq', same] using h

end Value

namespace Schema

open Value (IsText)

/-! ## Objects -/

theorem entries_of_mapM {fields : List (Value × Value)} {entries : List (String × Value)}
    (h : fields.mapM (fun (name, v) => name.text?.map fun key => (key, v)) = some entries) :
    fields = entries.map fun entry => (.text entry.1, entry.2) := by
  induction fields generalizing entries with
  | nil =>
    cases h
    rfl
  | cons first rest ih =>
    obtain ⟨name, v⟩ := first
    cases name with
    | text s =>
      obtain ⟨more, hmore, rfl⟩ : ∃ more, rest.mapM (fun (name, v) =>
          name.text?.map fun key => (key, v)) = some more ∧ (s, v) :: more = entries := by
        simpa [Value.text?, Option.bind_eq_some_iff] using h
      rw [ih hmore]
      rfl
    | _ => simp [Value.text?] at h

theorem lookup_of_mem {α : Type} {fields : List (Value × α)}
    (hdistinct : (fields.map Prod.fst).Nodup) {name : Value} {v : α} (h : (name, v) ∈ fields) :
    fields.lookup name = some v := by
  induction fields with
  | nil => simp at h
  | cons first rest ih =>
    obtain ⟨other, w⟩ := first
    rw [List.map_cons, List.nodup_cons] at hdistinct
    rcases List.mem_cons.mp h with heq | h
    · cases heq
      simp
    · have hne : name ≠ other := by
        intro heq
        have hmem : name ∈ rest.map Prod.fst := List.mem_map_of_mem (f := Prod.fst) h
        exact hdistinct.1 (heq ▸ hmem)
      rw [List.lookup_cons, beq_false_of_ne hne]
      exact ih hdistinct.2 h

theorem get?_eq_lookup (entries : Entries Value) (key : String) :
    entries.get? key =
      List.lookup (.text key) (entries.map fun entry => (Value.text entry.1, entry.2)) := by
  induction entries with
  | nil => rfl
  | cons entry rest ih =>
    by_cases hkey : entry.1 = key
    · simp [Entries.get?, hkey]
    · have hne : Value.text key ≠ .text entry.1 := fun heq => hkey (Value.text.inj heq).symm
      rw [Entries.get?, if_neg hkey, ih, List.map_cons, List.lookup_cons, beq_false_of_ne hne]

theorem map_ofPoints {fields : List (Value × Value)} (htexts : ∀ field ∈ fields, IsText field.1) :
    (fields.filterMap fun (name, _) => name.points?).map Value.ofPoints = fields.map Prod.fst := by
  induction fields with
  | nil => rfl
  | cons first rest ih =>
    obtain ⟨points, hpoints⟩ := htexts first List.mem_cons_self
    have hrest := ih fun field hfield => htexts field (List.mem_cons_of_mem _ hfield)
    simp [hpoints, Value.points?_ofPoints, hrest]

theorem item?_objectOf {fields : List (Value × Value)} (htexts : ∀ field ∈ fields, IsText field.1)
    (hdistinct : (fields.map Prod.fst).Nodup) {name v : Value} (h : (name, v) ∈ fields) :
    item? (objectOf fields) name = some v := by
  have hlookup := lookup_of_mem hdistinct h
  unfold objectOf
  split
  · next entries hentries =>
    have hfields := entries_of_mapM hentries
    rw [hfields] at h hlookup
    obtain ⟨entry, -, heq⟩ := List.mem_map.mp h
    obtain ⟨rfl, rfl⟩ := Prod.mk.inj heq
    rw [item?, Value.text?, Option.bind_some, get?_eq_lookup, hlookup]
  · have hzip : (fields.map Prod.fst).zip (fields.map Prod.snd) = fields := by
      rw [List.zip_map', List.map_id'']
      exact fun field => rfl
    rw [item?, map_ofPoints htexts, hzip]
    exact hlookup

/-! ## What parsing makes -/

/-- The schemas that texts, numbers, truth values, arrays and objects build, however they are
described. -/
inductive Composed : Schema → Prop where
  | string (d : Value) : Composed (.string d)
  | number (d : Value) : Composed (.number d)
  | boolean (d : Value) : Composed (.boolean d)
  | array {item : Schema} (hitem : Composed item) (described : Option Value) :
      Composed (.array item described)
  | object {fields : List (Value × Schema)} (hfields : ∀ field ∈ fields, Composed field.2)
      (described : Option Value) : Composed (.object (Table.ofPairs fields) described)

/-- The values that a schema makes. -/
inductive Makes : Schema → Value → Prop where
  | text {points : List CodePoint} (htrim : CodePoint.trim points = points) (d : Value) :
      Makes (.string d) (.ofPoints points)
  | int (n : Int) (d : Value) : Makes (.number d) (.int n)
  | real {x : Binary64} (hfinite : x.isFinite = true) (d : Value) : Makes (.number d) (.real x)
  | truth (b : Bool) (d : Value) : Makes (.boolean d) (.bool b)
  | list {item : Schema} {items : List Value} (hitems : ∀ v ∈ items, Makes item v)
      (described : Option Value) : Makes (.array item described) (.list items)
  | object {fields : List (Value × Schema)} {made : List (Value × Value)}
      (hnames : made.map Prod.fst = fields.map Prod.fst)
      (htexts : ∀ field ∈ made, IsText field.1)
      (hitems : ∀ pair ∈ fields.zip made, Makes pair.1.2 pair.2.2) (described : Option Value) :
      Makes (.object fields described) (objectOf made)

theorem makes_text {s : String} (h : Text.trim s = s) (d : Value) :
    Makes (.string d) (.text s) := by
  have hchars : Text.trimChars s.toList = s.toList := by
    simpa [Text.trim] using congrArg String.toList h
  rw [← Value.ofPoints_ofText]
  apply Makes.text
  rw [CodePoint.ofText, CodePoint.trim_ofChars, hchars]

theorem bracketed_enclose (layout : Json.Layout) (depth : Nat) (left right : Char)
    (items : List (List Char)) :
    ∃ middle, Json.enclose layout depth left right items = left :: middle ++ [right] := by
  cases items with
  | nil => exact ⟨[], rfl⟩
  | cons first rest =>
    refine ⟨layout.edge (depth + 1) ++ joinChars (layout.separator (depth + 1)) (first :: rest)
      ++ layout.edge depth, ?_⟩
    simp [Json.enclose]

theorem makes_enclosed {α : Type} {written : Except Fault α} {left right : Char}
    {items : α → List (List Char)} {v : Value} (hleft : Text.isBlank left = false)
    (hright : Text.isBlank right = false)
    (h : ((written.map fun w => Json.enclose .line 0 left right (items w)).map
      String.ofList).map Value.text = .ok v) (d : Value) : Makes (.string d) v := by
  cases written with
  | error e => cases h
  | ok w =>
    cases h
    obtain ⟨middle, hmiddle⟩ := bracketed_enclose .line 0 left right (items w)
    apply makes_text
    simp only [Text.trim, String.toList_ofList, hmiddle, Text.trimChars,
      Text.strip_bracketed middle hleft hright]

theorem makes_plain {shown : Except Fault (List Char)} {v : Value}
    (h : (shown.map fun cs => Value.text (String.ofList (Text.trimChars cs))) = .ok v) (d : Value) :
    Makes (.string d) v := by
  cases shown with
  | error e => cases h
  | ok cs =>
    cases h
    apply makes_text
    rw [Text.trim, String.toList_ofList, Text.trimChars, Text.trimChars, Text.strip_strip]

theorem makes_parseString {x y : Value} (h : parseString x = .ok y) (d : Value) :
    Makes (.string d) y := by
  cases x with
  | text s =>
    cases h
    exact makes_text (Text.trim_trim s) d
  | brokenText points =>
    cases h
    exact .text (Text.strip_strip _ _) d
  | null => cases h
  | bool b =>
    cases b <;>
    · cases h
      exact makes_text (by decide) d
  | list items => exact makes_enclosed (by decide) (by decide) h d
  | object fields => exact makes_enclosed (by decide) (by decide) h d
  | brokenObject keys items => exact makes_enclosed (by decide) (by decide) h d
  | int n | real x | bytes content | tuple items | record model fields =>
    unfold parseString at h
    exact makes_plain h d

theorem ne_ok_notNumber (v y : Value) : notNumber v ≠ .ok y := by
  unfold notNumber
  cases v.shown <;> simp

theorem ne_ok_notBoolean (v y : Value) : notBoolean v ≠ .ok y := by
  unfold notBoolean
  cases v.shown <;> simp

theorem makes_parseNumberText {s : String} {y : Value} (h : parseNumberText s = .ok y) (d : Value) :
    Makes (.number d) y := by
  unfold parseNumberText at h
  split at h
  · exact absurd h (ne_ok_notNumber _ _)
  · next n hn =>
    split at h
    · split at h
      · cases h
      · cases h
        exact .int n.toInt d
    · split at h
      · next hfinite =>
        cases h
        exact .real hfinite d
      · exact absurd h (ne_ok_notNumber _ _)

theorem makes_parseNumber {x y : Value} (h : parseNumber x = .ok y) (d : Value) :
    Makes (.number d) y := by
  unfold parseNumber at h
  split at h
  · next n =>
    split at h
    · cases h
      exact .int n d
    · cases h
  · next x =>
    split at h
    · next hfinite =>
      cases h
      exact .real hfinite d
    · exact absurd h (ne_ok_notNumber _ _)
  · exact makes_parseNumberText h d
  · exact absurd h (ne_ok_notNumber _ _)

theorem makes_parseBoolean {x y : Value} (h : parseBoolean x = .ok y) (d : Value) :
    Makes (.boolean d) y := by
  unfold parseBoolean at h
  split at h
  · next b =>
    cases h
    exact .truth b d
  · simp only at h
    split at h
    · cases h
      exact .truth true d
    split at h
    · cases h
      exact .truth false d
    · exact absurd h (ne_ok_notBoolean _ _)
  · next n =>
    cases h
    exact .truth _ d
  · next x =>
    cases h
    exact .truth _ d
  · exact absurd h (ne_ok_notBoolean _ _)

theorem forall_of_parseItems {motive : Value → Prop} {parse : Value → Except Fault Value}
    (hparse : ∀ {x y}, parse x = .ok y → motive y) {items made : List Value}
    (h : parseItems parse items = .ok made) : ∀ v ∈ made, motive v := by
  induction items generalizing made with
  | nil =>
    cases h
    simp
  | cons x rest ih =>
    rw [parseItems] at h
    split at h
    · cases h
    next y hy =>
    split at h
    · cases h
    next more hmore =>
    cases h
    intro v hv
    rcases List.mem_cons.mp hv with rfl | hv
    · exact hparse hy
    · exact ih hmore v hv

theorem isText_of_item? {v name item : Value} (h : item? v name = some item) : IsText name := by
  cases v with
  | object fields =>
    cases name with
    | text s => exact Value.isText_text s
    | _ => cases h
  | brokenObject keys items =>
    rw [item?] at h
    obtain ⟨before, after, hsplit, -⟩ := List.lookup_eq_some_iff.mp h
    have hmem : (name, item) ∈ (keys.map Value.ofPoints).zip items := by
      rw [hsplit]
      simp
    obtain ⟨points, -, hpoints⟩ := List.mem_map.mp (List.of_mem_zip hmem).1
    exact ⟨points, hpoints.symm⟩
  | _ => cases h

theorem makes_parseFields {fields : List (Value × Schema)}
    (hfields : ∀ field ∈ fields, ∀ {x y}, parse field.2 x = .ok y → Makes field.2 y) {v : Value}
    {made : List (Value × Value)} (h : parseFields fields v = .ok made) :
    made.map Prod.fst = fields.map Prod.fst ∧ (∀ field ∈ made, IsText field.1) ∧
      ∀ pair ∈ fields.zip made, Makes pair.1.2 pair.2.2 := by
  induction fields generalizing made with
  | nil =>
    rw [parseFields] at h
    cases h
    simp
  | cons first rest ih =>
    obtain ⟨name, schema⟩ := first
    rw [parseFields] at h
    split at h
    · unfold missing at h
      split at h <;> cases h
    next item hitem =>
    split at h
    · cases h
    next parsed hparsed =>
    split at h
    · cases h
    next more hmore =>
    cases h
    obtain ⟨hnames, htexts, hitems⟩ :=
      ih (fun field hfield => hfields field (List.mem_cons_of_mem _ hfield)) hmore
    refine ⟨by simp [hnames], ?_, ?_⟩
    · intro field hfield
      rcases List.mem_cons.mp hfield with rfl | hfield
      · exact isText_of_item? hitem
      · exact htexts field hfield
    · intro pair hpair
      rw [List.zip_cons_cons] at hpair
      rcases List.mem_cons.mp hpair with rfl | hpair
      · exact hfields (name, schema) List.mem_cons_self hparsed
      · exact hitems pair hpair

/-- Parsing with a schema comes to nothing but values that the schema makes. -/
theorem makes_of_parse {s : Schema} (hs : s.Composed) {x y : Value} (h : s.parse x = .ok y) :
    Makes s y := by
  induction hs generalizing x y with
  | string d =>
    rw [parse] at h
    exact makes_parseString h d
  | number d =>
    rw [parse] at h
    exact makes_parseNumber h d
  | boolean d =>
    rw [parse] at h
    exact makes_parseBoolean h d
  | @array item _ described ih =>
    rw [parse] at h
    split at h
    · cases h
    · next items hdecode =>
      rcases hitems : parseItems (fun x => parse item x) items with e | made
      · rw [hitems] at h
        cases h
      · rw [hitems] at h
        cases h
        exact .list (forall_of_parseItems ih hitems) described
    · cases h
  | @object fields _ described ih =>
    rw [parse] at h
    split at h
    · cases h
    · next v hdecode =>
      split at h
      · rcases hmade : parseFields (Table.ofPairs fields) v with e | made
        · rw [hmade] at h
          cases h
        · rw [hmade] at h
          cases h
          obtain ⟨hnames, htexts, hitems⟩ := makes_parseFields (fun field hfield => by
            obtain ⟨other, hother, heq⟩ := Table.mem_ofPairs hfield
            rw [heq]
            exact ih other hother) hmade
          exact .object hnames htexts hitems described
      · cases h

end Schema

end PromptChain
