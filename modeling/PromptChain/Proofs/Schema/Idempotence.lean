import PromptChain.Proofs.Schema.Makes
/-!
# Parsing twice

What a schema of texts, numbers, truth values, arrays and objects makes of a value is made of it
again without a change, in all but one case.  A numeral in a text may be an integer of any size, but
an integer that is no text must be near some finite float: a greater one is refused the second time.
-/

namespace PromptChain

namespace Value

mutual

/-- Whether each integer in a value is near some finite float. -/
def inRange : Value → Bool
  | .int n => (Binary64.ofInt n).isFinite
  | .tuple items => itemsInRange items
  | .list items => itemsInRange items
  | .object fields => fieldsInRange fields
  | .brokenObject _ items => itemsInRange items
  | .record _ fields => fieldsInRange fields
  | _ => true

def itemsInRange : List Value → Bool
  | [] => true
  | item :: rest => inRange item && itemsInRange rest

def fieldsInRange : List (String × Value) → Bool
  | [] => true
  | (_, item) :: rest => inRange item && fieldsInRange rest

end

theorem itemsInRange_eq_all (items : List Value) : itemsInRange items = items.all inRange := by
  induction items with
  | nil => rfl
  | cons item rest ih => rw [itemsInRange, ih, List.all_cons]

theorem fieldsInRange_eq_all (fields : List (String × Value)) :
    fieldsInRange fields = fields.all fun field => field.2.inRange := by
  induction fields with
  | nil => rfl
  | cons field rest ih => rw [fieldsInRange, ih, List.all_cons]

@[simp] theorem inRange_ofPoints (points : List Text.CodePoint) :
    (ofPoints points).inRange = true := by
  rcases ofPoints_cases points with ⟨cs, -, heq⟩ | ⟨-, heq⟩ <;> simp [heq, inRange]

@[simp] theorem inRange_list (items : List Value) :
    (Value.list items).inRange = items.all inRange := by
  rw [inRange, itemsInRange_eq_all]

end Value

namespace Schema

open Value (IsText)

@[simp] theorem inRange_objectOf (fields : List (Value × Value)) :
    (objectOf fields).inRange = fields.all fun field => field.2.inRange := by
  unfold objectOf
  split
  · next entries hentries =>
    rw [entries_of_mapM hentries, Value.inRange, Value.fieldsInRange_eq_all, List.all_map]
    rfl
  · rw [Value.inRange, Value.itemsInRange_eq_all, List.all_map]
    rfl

theorem isObject_objectOf (fields : List (Value × Value)) : isObject (objectOf fields) = true := by
  unfold objectOf
  split <;> rfl

theorem decode_objectOf (expected : String) (fields : List (Value × Value)) :
    decode expected (objectOf fields) = .ok (objectOf fields) := by
  unfold objectOf
  split <;> rfl

theorem decode_list (expected : String) (items : List Value) :
    decode expected (.list items) = .ok (.list items) := rfl

theorem nodup_keys {α : Type} {table : Table α} (h : table.Distinct)
    (htexts : ∀ key ∈ table.keys, IsText key) : table.keys.Nodup := by
  refine List.pairwise_map.mpr (h.imp_of_mem fun {a b} ha hb hne heq => ?_)
  obtain ⟨points, hpoints⟩ := htexts a.1 (List.mem_map_of_mem ha)
  obtain ⟨other, hother⟩ := htexts b.1 (List.mem_map_of_mem hb)
  rw [hpoints, hother] at hne heq
  rw [heq] at hne
  exact Value.same_ofPoints hne rfl

theorem nodup_names {α : Type} {fields : List (Value × α)} {made : List (Value × Value)}
    (hnames : made.map Prod.fst = (Table.ofPairs fields).map Prod.fst)
    (htexts : ∀ field ∈ made, IsText field.1) : (made.map Prod.fst).Nodup := by
  rw [hnames]
  refine nodup_keys (Table.distinct_ofPairs fields) fun key hkey => ?_
  rw [Table.keys, ← hnames] at hkey
  obtain ⟨field, hfield, rfl⟩ := List.mem_map.mp hkey
  exact htexts field hfield

/-! ## Parsing what was made -/

theorem parseItems_of_made {parse : Value → Except Fault Value} {items : List Value}
    (h : ∀ v ∈ items, parse v = if v.inRange then .ok v else .error .intTooLarge) :
    parseItems parse items =
      if items.all Value.inRange then .ok items else .error .intTooLarge := by
  induction items with
  | nil => rfl
  | cons v rest ih =>
    have hrest := ih fun w hw => h w (List.mem_cons_of_mem _ hw)
    rw [parseItems, h v List.mem_cons_self, hrest, List.all_cons]
    cases v.inRange <;> cases rest.all Value.inRange <;> rfl

theorem parseFields_of_made {fields : List (Value × Schema)} {made whole : List (Value × Value)}
    (hnames : made.map Prod.fst = fields.map Prod.fst)
    (hwhole : ∀ field ∈ made, item? (objectOf whole) field.1 = some field.2)
    (h : ∀ pair ∈ fields.zip made, parse pair.1.2 pair.2.2 =
      if pair.2.2.inRange then .ok pair.2.2 else .error .intTooLarge) :
    parseFields fields (objectOf whole) =
      if made.all fun field => field.2.inRange then .ok made else .error .intTooLarge := by
  induction fields generalizing made with
  | nil =>
    obtain rfl : made = [] := by simpa using hnames
    rw [parseFields]
    rfl
  | cons first rest ih =>
    obtain ⟨name, schema⟩ := first
    obtain ⟨⟨other, v⟩, more, rfl⟩ : ∃ field more, made = field :: more := by
      cases made with
      | nil => simp at hnames
      | cons field more => exact ⟨field, more, rfl⟩
    rw [List.map_cons, List.map_cons, List.cons.injEq] at hnames
    obtain ⟨rfl, hmore⟩ := hnames
    have hrest := ih hmore (fun field hfield => hwhole field (List.mem_cons_of_mem _ hfield))
      fun pair hpair => h pair (List.mem_cons_of_mem _ hpair)
    have hitem : item? (objectOf whole) other = some v := hwhole (other, v) List.mem_cons_self
    have hparse := h ((other, schema), (other, v)) List.mem_cons_self
    rw [parseFields, hitem]
    dsimp only at hparse ⊢
    rw [hparse, hrest, List.all_cons]
    cases v.inRange <;> cases more.all fun field => field.2.inRange <;> rfl

theorem parse_of_makes {s : Schema} (hs : s.Composed) {y : Value} (h : Makes s y) :
    s.parse y = if y.inRange then .ok y else .error .intTooLarge := by
  induction hs generalizing y with
  | string d =>
    cases h with
    | @text points htrim =>
      rw [Value.inRange_ofPoints, if_pos rfl, parse]
      rcases Value.ofPoints_cases points with ⟨cs, rfl, heq⟩ | ⟨-, heq⟩
      · rw [Text.CodePoint.trim_ofChars] at htrim
        rw [heq, parseString, Text.trim, String.toList_ofList,
          Text.CodePoint.ofChars_injective htrim]
      · rw [heq, parseString, htrim, heq]
  | number d =>
    cases h with
    | int n => rw [parse, parseNumber, Value.inRange]
    | real hfinite => simp [parse, parseNumber, hfinite, Value.inRange]
  | boolean d =>
    cases h with
    | truth b => simp [parse, parseBoolean, Value.inRange]
  | array _ described ih =>
    cases h with
    | list hitems =>
      rw [parse, decode_list, Value.inRange_list]
      dsimp only
      rw [parseItems_of_made fun v hv => ih (hitems v hv)]
      split <;> rfl
  | @object fields _ described ih =>
    cases h with
    | @object _ made hnames htexts hitems =>
      have hnodup := nodup_names hnames htexts
      have hparse : ∀ pair ∈ (Table.ofPairs fields).zip made, parse pair.1.2 pair.2.2 =
          if pair.2.2.inRange then .ok pair.2.2 else .error .intTooLarge := by
        intro pair hpair
        obtain ⟨other, hother, heq⟩ := Table.mem_ofPairs (List.of_mem_zip hpair).1
        have hmakes := hitems pair hpair
        rw [heq] at hmakes ⊢
        exact ih other hother hmakes
      rw [parse, decode_objectOf, inRange_objectOf]
      dsimp only
      rw [if_pos (isObject_objectOf made), parseFields_of_made hnames
        (fun field hfield => item?_objectOf htexts hnodup hfield) hparse]
      split <;> rfl

/-- **Parsing is idempotent up to the range of floats.**  What a schema of texts, numbers, truth
values, arrays and objects, under any names, makes of a value is parsed to itself, unless an integer
in it is near no finite float: then, and only then, it is refused. -/
theorem parse_of_parse {s : Schema} (hs : s.Composed) {x y : Value} (h : s.parse x = .ok y) :
    s.parse y = if y.inRange then .ok y else .error .intTooLarge :=
  parse_of_makes hs (makes_of_parse hs h)

/-- The numeral of ten to the power of 309 is a number, which is then too large to be one. -/
theorem parse_of_parse_numeral :
    parse (.number .null) (.text (String.ofList ('1' :: List.replicate 309 '0'))) =
        .ok (.int (Nat.pow 10 309)) ∧
      parse (.number .null) (.int (Nat.pow 10 309)) = .error .intTooLarge := by
  have hread : Numeral.read? (Text.trimChars ('1' :: List.replicate 309 '0')) =
      some { whole := '1' :: List.replicate 309 '0' } := by decide +kernel
  have hinteger : Numeral.toInt { whole := '1' :: List.replicate 309 '0' } = Nat.pow 10 309 := by
    decide +kernel
  have hshort : ¬ maxIntDigits < ('1' :: List.replicate 309 '0').length := by
    decide +kernel
  have hrange : (Value.int (Nat.pow 10 309)).inRange = false := by decide +kernel
  have hfirst : parse (.number .null) (.text (String.ofList ('1' :: List.replicate 309 '0'))) =
      .ok (.int (Nat.pow 10 309)) := by
    rw [parse, parseNumber, parseNumberText, String.toList_ofList, hread]
    simp only [Numeral.isInteger, Option.isNone_none, Bool.and_self, if_true, if_neg hshort,
      hinteger]
  have hagain := parse_of_parse (.number .null) hfirst
  rw [hrange] at hagain
  exact ⟨hfirst, hagain⟩

end Schema

end PromptChain
