import PromptChain.Proofs.Schema.Idempotence
import PromptChain.Proofs.Schema.Refusals
import PromptChain.Proofs.Schema.TextInput
/-!
# The declared fields

What parsing an object comes to is told by its declared fields alone.  The order of its keys and
whatever it has besides make no difference, at no level, not even to the refusal.  What is made has
the declared keys, in the order of their declaration.
-/

namespace PromptChain.Schema

open Value (IsText)

/-! ## Values that differ in what is not declared -/

/-- `Alike s x y`: up to the order of keys and to undeclared keys with their items, in the objects
that the schema asks for, the values are one. -/
inductive Alike : Schema → Value → Value → Prop where
  | same (s : Schema) (x : Value) : Alike s x x
  | list {item : Schema} {xs ys : List Value} (hlength : xs.length = ys.length)
      (hitems : ∀ pair ∈ xs.zip ys, Alike item pair.1 pair.2) (described : Option Value) :
      Alike (.array item described) (.list xs) (.list ys)
  | object {fields : List (Value × Schema)} {x y : Value} (hx : isObject x = true)
      (hy : isObject y = true)
      (hsubset : ∀ field ∈ fields, (item? x field.1).isSome = (item? y field.1).isSome)
      (hitems : ∀ field ∈ fields, ∀ a b, item? x field.1 = some a → item? y field.1 = some b →
        Alike field.2 a b)
      (described : Option Value) : Alike (.object fields described) x y

theorem parseItems_congr {parse : Value → Except Fault Value} {xs ys : List Value}
    (hlength : xs.length = ys.length) (h : ∀ pair ∈ xs.zip ys, parse pair.1 = parse pair.2) :
    parseItems parse xs = parseItems parse ys := by
  induction xs generalizing ys with
  | nil =>
    obtain rfl : ys = [] := List.eq_nil_of_length_eq_zero hlength.symm
    rfl
  | cons x xs ih =>
    cases ys with
    | nil => simp at hlength
    | cons y ys =>
      have hrest := ih (by simpa using hlength) fun pair hpair =>
        h pair (List.mem_cons_of_mem _ hpair)
      rw [parseItems, parseItems, h (x, y) List.mem_cons_self, hrest]

theorem parseFields_congr {fields : List (Value × Schema)} {x y : Value}
    (h : ∀ field ∈ fields, parseField x field = parseField y field) :
    parseFields fields x = parseFields fields y := by
  rw [parseFields_eq_mapM, parseFields_eq_mapM]
  induction fields with
  | nil => rfl
  | cons field rest ih =>
    rw [List.mapM_cons, List.mapM_cons, h field List.mem_cons_self,
      ih fun other hother => h other (List.mem_cons_of_mem _ hother)]

theorem decode_of_isObject {v : Value} (h : isObject v = true) (expected : String) :
    decode expected v = .ok v := by
  cases v with
  | object fields => rfl
  | brokenObject keys items => rfl
  | _ => cases h

theorem parseField_congr {x y : Value} {field : Value × Schema}
    (hsubset : (item? x field.1).isSome = (item? y field.1).isSome)
    (h : ∀ a b, item? x field.1 = some a → item? y field.1 = some b →
      parse field.2 a = parse field.2 b) : parseField x field = parseField y field := by
  unfold parseField
  cases hx : item? x field.1 with
  | none =>
    obtain hy : item? y field.1 = none := by simpa [hx] using hsubset.symm
    rw [hy]
  | some a =>
    obtain ⟨b, hy⟩ : ∃ b, item? y field.1 = some b := by
      simpa [hx, Option.isSome_iff_exists] using hsubset.symm
    rw [hy]
    dsimp only
    rw [h a b hx hy]

theorem parse_congr {s : Schema} {x y : Value} (h : Alike s x y) : s.parse x = s.parse y := by
  induction h with
  | same s x => rfl
  | list hlength hitems described ih =>
    simp only [parse, decode_list, parseItems_congr hlength ih]
  | object hx hy hsubset hitems described ih =>
    have hfields := parseFields_congr fun field hfield =>
      parseField_congr (hsubset field hfield) (ih field hfield)
    simp only [parse, decode_of_isObject hx, decode_of_isObject hy, hx, hy, hfields]

/-! ## The levels of what is made -/

def keys? : Value → Option (List Value)
  | .object fields => some (fields.map fun field => .text field.1)
  | .brokenObject keys _ => some (keys.map .ofPoints)
  | _ => none

/-- `Shaped s x z`: every object in `z`, which a schema made of `x`, has the declared keys in the
order of their declaration, and every list in it is as long as the one that it was made of. -/
inductive Shaped : Schema → Value → Value → Prop where
  | leaf {s : Schema} {z : Value} (hs : s.isStructured = false) (hmade : Makes s z) (x : Value) :
      Shaped s x z
  | list {item : Schema} {x : Value} {items made : List Value}
      (hdecode : decode "array" x = .ok (.list items)) (hlength : made.length = items.length)
      (hitems : ∀ pair ∈ items.zip made, Shaped item pair.1 pair.2) (described : Option Value) :
      Shaped (.array item described) x (.list made)
  | object {fields : List (Value × Schema)} {x v z : Value} (hdecode : decode "object" x = .ok v)
      (hkeys : keys? z = some (fields.map Prod.fst))
      (hfound : ∀ field ∈ fields, (item? v field.1).isSome = true)
      (hitems : ∀ field ∈ fields, ∀ a c, item? v field.1 = some a → item? z field.1 = some c →
        Shaped field.2 a c)
      (described : Option Value) : Shaped (.object fields described) x z

theorem mapM_eq_ok_iff {α β ε : Type} {f : α → Except ε β} {items : List α} {made : List β} :
    items.mapM f = .ok made ↔ List.Forall₂ (fun x y => f x = .ok y) items made := by
  induction items generalizing made with
  | nil => cases made <;> simp [pure, Except.pure]
  | cons x rest ih =>
    have hcons : (x :: rest).mapM f = .ok made ↔
        ∃ y more, f x = .ok y ∧ rest.mapM f = .ok more ∧ made = y :: more := by
      rw [List.mapM_cons]
      cases f x with
      | error e => simp [bind, Except.bind]
      | ok y => cases rest.mapM f <;> simp [bind, Except.bind, pure, Except.pure, eq_comm]
    simp only [hcons, ih, List.forall₂_cons_left_iff]

theorem keys?_objectOf {fields : List (Value × Value)} (htexts : ∀ field ∈ fields, IsText field.1) :
    keys? (objectOf fields) = some (fields.map Prod.fst) := by
  unfold objectOf
  split
  · next entries hentries =>
    rw [entries_of_mapM hentries, keys?, List.map_map]
    rfl
  · rw [keys?, map_ofPoints htexts]

theorem exists_of_forall₂ {α β : Type} {R : α → β → Prop} {xs : List α} {ys : List β}
    (h : List.Forall₂ R xs ys) {x : α} (hx : x ∈ xs) : ∃ y ∈ ys, R x y := by
  induction h with
  | nil => cases hx
  | @cons a b as bs hab _ ih =>
    rcases List.mem_cons.mp hx with rfl | hx
    · exact ⟨b, List.mem_cons_self, hab⟩
    · obtain ⟨y, hy, hxy⟩ := ih hx
      exact ⟨y, List.mem_cons_of_mem _ hy, hxy⟩

theorem item_parseFields {fields : List (Value × Schema)} {v : Value} {made : List (Value × Value)}
    (h : parseFields fields v = .ok made) {field : Value × Schema} (hfield : field ∈ fields) :
    ∃ a c, item? v field.1 = some a ∧ parse field.2 a = .ok c ∧ (field.1, c) ∈ made := by
  rw [parseFields_eq_mapM, mapM_eq_ok_iff] at h
  obtain ⟨entry, hentry, hparsed⟩ := exists_of_forall₂ h hfield
  obtain ⟨a, c, ha, hc⟩ := parseField_eq_ok_iff.mp ⟨entry, hparsed⟩
  rw [parseField, ha] at hparsed
  dsimp only at hparsed
  rw [hc] at hparsed
  cases hparsed
  exact ⟨a, c, ha, hc, hentry⟩

theorem shaped_of_parse {s : Schema} (hs : s.Composed) {x z : Value} (h : s.parse x = .ok z) :
    Shaped s x z := by
  induction hs generalizing x z with
  | string d => exact .leaf rfl (makes_of_parse (.string d) h) x
  | number d => exact .leaf rfl (makes_of_parse (.number d) h) x
  | boolean d => exact .leaf rfl (makes_of_parse (.boolean d) h) x
  | @array item _ described ih =>
    rw [parse] at h
    split at h
    · cases h
    · next items hdecode =>
      rcases hmade : parseItems (fun x => parse item x) items with e | made
      · rw [hmade] at h
        cases h
      · rw [hmade] at h
        cases h
        rw [parseItems_eq_mapM, mapM_eq_ok_iff, List.forall₂_iff_zip] at hmade
        exact .list hdecode hmade.1.symm (fun pair hpair => ih (hmade.2 hpair)) described
    · cases h
  | @object fields hfields described ih =>
    rw [parse] at h
    split at h
    · cases h
    next v hdecode =>
    split at h
    · rcases hmade : parseFields (Table.ofPairs fields) v with e | made
      · rw [hmade] at h
        cases h
      · rw [hmade] at h
        cases h
        obtain ⟨hnames, htexts, -⟩ := makes_parseFields (fun field hfield => by
          obtain ⟨other, hother, heq⟩ := Table.mem_ofPairs hfield
          rw [heq]
          exact makes_of_parse (hfields other hother)) hmade
        have hnodup := nodup_names hnames htexts
        refine .object hdecode (by rw [keys?_objectOf htexts, hnames]) ?_ ?_ described
        · intro field hfield
          obtain ⟨a, c, ha, -⟩ := item_parseFields hmade hfield
          rw [ha]
          rfl
        · intro field hfield a c ha hc
          obtain ⟨a', c', ha', hparsed, hmem⟩ := item_parseFields hmade hfield
          obtain rfl : a' = a := Option.some.inj (ha'.symm.trans ha)
          obtain rfl : c' = c := Option.some.inj ((item?_objectOf htexts hnodup hmem).symm.trans hc)
          obtain ⟨other, hother, heq⟩ := Table.mem_ofPairs hfield
          rw [heq] at hparsed ⊢
          exact ih other hother hparsed
    · cases h

/-- **Only declared fields count.**  With a schema of texts, numbers, truth values, arrays and
objects, values that differ in the order of keys and in undeclared keys alone are parsed to the same
value or refused with the same fault.  In what is made of either, every object has the declared
keys, in the order of their declaration, and every list the length of the one that it was made
of. -/
theorem parse_alike {s : Schema} (hs : s.Composed) {x y : Value} (h : Alike s x y) :
    s.parse x = s.parse y ∧ ∀ z, s.parse x = .ok z → Shaped s x z ∧ Shaped s y z := by
  have hparse := parse_congr h
  exact ⟨hparse, fun z hz => ⟨shaped_of_parse hs hz, shaped_of_parse hs (hparse ▸ hz)⟩⟩

/-- Two lists of one object each: in the second list its keys are turned round, and one is
undeclared. -/
theorem parse_alike_turned :
    let s := Schema.array (ofFields [(.text "a", .boolean .null), (.text "b", .boolean .null)]) none
    let x := Value.list [.object [("a", .int 0), ("b", .bool true)]]
    let y := Value.list [.object [("b", .bool true), ("c", .null), ("a", .int 0)]]
    let z := Value.list [.object [("a", .bool false), ("b", .bool true)]]
    Alike s x y ∧ s.parse y = .ok z ∧ Shaped s y z := by
  intro s x y z
  have hs : s.Composed := by
    refine .array (.object (fun field hfield => ?_) none) none
    simp only [List.mem_cons, List.not_mem_nil, or_false] at hfield
    rcases hfield with rfl | rfl <;> exact .boolean .null
  have halike : Alike s x y := by
    apply Alike.list
    · rfl
    intro pair hpair
    rw [List.mem_singleton.mp hpair]
    refine .object rfl rfl (fun field hfield => ?_) (fun field hfield a b ha hb => ?_) none
    · rcases List.mem_pair.mp hfield with rfl | rfl <;> rfl
    · rcases List.mem_pair.mp hfield with rfl | rfl <;>
      · cases ha
        cases hb
        exact .same _ _
  have hx : s.parse x = .ok z := rfl
  obtain ⟨hparse, hshaped⟩ := parse_alike hs halike
  exact ⟨halike, hparse ▸ hx, (hshaped z hx).2⟩

end PromptChain.Schema
