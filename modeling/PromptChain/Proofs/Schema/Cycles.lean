import Mathlib.Logic.Relation
import PromptChain.Proofs.Schema.Conformance
/-!
# Examples without an end

An example of a node may need an example of another node: of what it refers to, of an alternative, of
its items or its properties.  How deep these stand in one another decides how many steps are taken
(`ofNode_of_wellFormed`).  There is an end to it if and only if no node on the way needs an example of
itself (`exists_generate_iff`); whether a default, given examples or an alternative that is chosen
cuts a way short makes no difference to that, as a node that has them needs nothing.
-/

namespace PromptChain.JsonExample

open Relation (ReflTransGen TransGen)

/-! ## Nodes and what they need -/

/-- The nodes of JSON schemas: references to definitions, whatever stands beside them, and nodes in
which what stands under a keyword is of the kind that belongs there. -/
inductive WellFormed (defs : Entries Value) : Value → Prop where
  | reference {fields : Entries Value} {name : String} {target : Value}
      (hname : RefersTo (.object fields) name) (htarget : defs.get? name = some target) :
      WellFormed defs (.object fields)
  | node {fields : Entries Value} (href : fields.get? refKey = none)
      (hlists : ∀ key ∈ "examples" :: combinators, ∀ v, fields.get? key = some v →
        ∃ items, v = .list items)
      (hproperties : ∀ v, fields.get? "properties" = some v → ∃ properties, v = .object properties)
      (hparts : ∀ part, Part part (.object fields) → WellFormed defs part) :
      WellFormed defs (.object fields)

/-- Whether a node is no reference and gives no example of itself. -/
structure Silent (fields : Entries Value) : Prop where
  reference : fields.get? refKey = none
  examples : ∀ v, fields.get? "examples" = some v → v = .list []
  default : fields.get? "default" = none

def offered (fields : Entries Value) : List Value :=
  combinators.flatMap fun key =>
    ((fields.get? key).getD (.list [])).items.filter fun option =>
      option.field? "type" ≠ some (.text "null")

/-- `Ingredient fields part`: the part is what an example is made from: the first alternative, or if
there is none the items of an array or a property of an object. -/
inductive Ingredient (fields : Entries Value) : Value → Prop where
  | option {part : Value} (h : (offered fields).head? = some part) : Ingredient fields part
  | item (hnone : offered fields = []) (htype : fields.get? "type" = some (.text "array")) :
      Ingredient fields ((fields.get? "items").getD (.object []))
  | property {properties : Entries Value} {property : String × Value} (hnone : offered fields = [])
      (htype : fields.get? "type" = some (.text "object"))
      (hproperties : fields.get? "properties" = some (.object properties))
      (hmem : property ∈ properties) : Ingredient fields property.2

/-- `Needs defs node next`: to make an example of the node takes one of the next. -/
inductive Needs (defs : Entries Value) : Value → Value → Prop where
  | target {node target : Value} {name : String} (hname : RefersTo node name)
      (htarget : defs.get? name = some target) : Needs defs node target
  | part {fields : Entries Value} {part : Value} (hsilent : Silent fields)
      (hpart : Ingredient fields part) : Needs defs (.object fields) part

/-- `Nested defs n node`: from the node on, examples that need one another go so many levels deep. -/
inductive Nested (defs : Entries Value) : Nat → Value → Prop where
  | zero (node : Value) : Nested defs 0 node
  | succ {n : Nat} {node next : Value} (hnext : Needs defs node next) (h : Nested defs n next) :
      Nested defs (n + 1) node

/-- Whether an example of a node takes, in the end, an example of a node that takes one of itself. -/
def Circular (defs : Entries Value) (node : Value) : Prop :=
  ∃ next, ReflTransGen (Needs defs) node next ∧ TransGen (Needs defs) next next

/-- `Made make needs result`: what is needed for the result can be made and it is there, or it fails
as something that it needs does. -/
inductive Made {α : Type} (make : Value → Except Fault Value) (needs : Value → Prop) :
    Except Fault α → Prop where
  | ok (a : α) (h : ∀ part, needs part → ∃ v, make part = .ok v) : Made make needs (.ok a)
  | error {part : Value} {e : Fault} (hpart : needs part) (he : make part = .error e) :
      Made make needs (.error e)

section

variable {defs : Entries Value} {node : Value} {fields : Entries Value}
  {make : Value → Except Fault Value} {needs : Value → Prop}

/-! ## One level -/

theorem Made.map {α β : Type} {result : Except Fault α} (h : Made make needs result) (f : α → β) :
    Made make needs (result.map f) := by
  cases h with
  | ok a h => exact .ok (f a) h
  | error hpart he => exact .error hpart he

theorem made_of_only {part : Value} (hneeds : ∀ other, needs other ↔ other = part) :
    Made make needs (make part) := by
  cases hmake : make part with
  | ok v => exact .ok v fun other hother => ⟨v, (hneeds other).mp hother ▸ hmake⟩
  | error e => exact .error ((hneeds part).mpr rfl) hmake

theorem made_ofProperties (properties : Entries Value) :
    Made make (fun part => ∃ property ∈ properties, property.2 = part)
      (ofProperties make properties) := by
  induction properties with
  | nil => exact .ok [] (by simp)
  | cons first rest ih =>
    obtain ⟨key, node⟩ := first
    rw [ofProperties]
    cases hfirst : make node with
    | error e => exact .error ⟨_, List.mem_cons_self, rfl⟩ hfirst
    | ok v =>
      generalize ofProperties make rest = made at ih
      cases ih with
      | error hpart he =>
        obtain ⟨property, hmem, rfl⟩ := hpart
        exact .error ⟨property, List.mem_cons_of_mem _ hmem, rfl⟩ he
      | ok more hrest =>
        refine .ok _ ?_
        rintro part ⟨property, hmem, rfl⟩
        rcases List.mem_cons.mp hmem with rfl | hmem
        · exact ⟨v, hfirst⟩
        · exact hrest _ ⟨property, hmem, rfl⟩

theorem alternatives_eq {options : List Value}
    (h : ∀ option ∈ options, ∃ fields, option = .object fields) :
    alternatives options =
      .ok (options.filter fun option => option.field? "type" ≠ some (.text "null")) := by
  induction options with
  | nil => rfl
  | cons first rest ih =>
    obtain ⟨⟨fields, rfl⟩, hrest⟩ := List.forall_mem_cons.mp h
    rw [alternatives, ih hrest, List.filter_cons]
    rfl

theorem RefersTo.get?_ne {name : String} (h : RefersTo (.object fields) name) :
    fields.get? refKey ≠ none := by
  cases h with
  | intro href => simp [href]

theorem WellFormed.exists_fields (h : WellFormed defs node) :
    ∃ fields : Entries Value, node = .object fields := by
  cases h with
  | reference => exact ⟨_, rfl⟩
  | node => exact ⟨_, rfl⟩

theorem WellFormed.exists_target (h : WellFormed defs node) {name : String}
    (hname : RefersTo node name) : ∃ target, defs.get? name = some target := by
  cases h with
  | reference hother htarget =>
    obtain rfl := hname.unique hother
    exact ⟨_, htarget⟩
  | node href => exact absurd href hname.get?_ne

theorem WellFormed.of_node (h : WellFormed defs (.object fields))
    (href : fields.get? refKey = none) :
    (∀ key ∈ "examples" :: combinators, ∀ v, fields.get? key = some v →
      ∃ items, v = .list items) ∧
      (∀ v, fields.get? "properties" = some v → ∃ properties, v = .object properties) ∧
      ∀ part, Part part (.object fields) → WellFormed defs part := by
  cases h with
  | reference hname => exact absurd href hname.get?_ne
  | node _ hlists hproperties hparts => exact ⟨hlists, hproperties, hparts⟩

theorem WellFormed.firstAlternative?_eq (h : WellFormed defs (.object fields))
    (href : fields.get? refKey = none) :
    firstAlternative? fields ["anyOf", "oneOf", "allOf"] = .ok (offered fields).head? := by
  obtain ⟨hlists, -, hparts⟩ := h.of_node href
  have hkeys : ∀ keys : List String, (∀ key ∈ keys, key ∈ combinators) →
      firstAlternative? fields keys = .ok (keys.flatMap fun key =>
        ((fields.get? key).getD (.list [])).items.filter fun option =>
          option.field? "type" ≠ some (.text "null")).head? := by
    intro keys hkeys
    induction keys with
    | nil => rfl
    | cons key rest ih =>
      obtain ⟨hkey, hrest⟩ := List.forall_mem_cons.mp hkeys
      obtain ⟨options, hoptions, hobjects⟩ : ∃ options,
          (fields.get? key).getD (.list []) = .list options ∧
            ∀ option ∈ options, ∃ fields, option = .object fields := by
        cases hv : fields.get? key with
        | none => exact ⟨[], rfl, by simp⟩
        | some v =>
          obtain ⟨options, rfl⟩ := hlists key (List.mem_cons_of_mem _ hkey) v hv
          refine ⟨options, rfl, fun option hoption => ?_⟩
          exact (hparts option (.option hkey hv hoption)).exists_fields
      rw [firstAlternative?, List.flatMap_cons, hoptions]
      simp only [Value.parts, Value.parts?, Value.items, alternatives_eq hobjects]
      cases options.filter fun option => option.field? "type" ≠ some (.text "null") with
      | nil => exact ih hrest
      | cons option more => rfl
  exact hkeys _ fun key hkey => hkey

theorem Ingredient.of_nil {part : Value} (h : Ingredient fields part)
    (hnone : offered fields = []) :
    (fields.get? "type" = some (.text "array") ∧
        part = (fields.get? "items").getD (.object [])) ∨
      (fields.get? "type" = some (.text "object") ∧
        ∃ properties, fields.get? "properties" = some (.object properties) ∧
          ∃ property ∈ properties, property.2 = part) := by
  cases h with
  | option h => simp [hnone] at h
  | item hnone htype => exact .inl ⟨htype, rfl⟩
  | property hnone htype hproperties hmem =>
    exact .inr ⟨htype, _, hproperties, _, hmem, rfl⟩

theorem WellFormed.exists_properties (h : WellFormed defs (.object fields))
    (href : fields.get? refKey = none) (hnone : offered fields = [])
    (htype : fields.get? "type" = some (.text "object")) :
    ∃ properties : Entries Value,
      (fields.get? "properties").getD (.object []) = .object properties ∧
        ∀ part, Ingredient fields part ↔ ∃ property ∈ properties, property.2 = part := by
  have hingredient : ∀ part, Ingredient fields part → ∃ properties,
      fields.get? "properties" = some (.object properties) ∧
        ∃ property ∈ properties, property.2 = part := by
    intro part hpart
    rcases hpart.of_nil hnone with ⟨htype', -⟩ | ⟨-, hproperties⟩
    · simp [htype] at htype'
    · exact hproperties
  cases hv : fields.get? "properties" with
  | none =>
    refine ⟨[], rfl, fun part => ⟨fun hpart => ?_, by simp⟩⟩
    obtain ⟨properties, hproperties, -⟩ := hingredient part hpart
    simp [hv] at hproperties
  | some v =>
    obtain ⟨properties, rfl⟩ := (h.of_node href).2.1 v hv
    refine ⟨properties, rfl, fun part => ⟨fun hpart => ?_, ?_⟩⟩
    · obtain ⟨others, hothers, hpart⟩ := hingredient part hpart
      cases hv.symm.trans hothers
      exact hpart
    · rintro ⟨property, hmem, rfl⟩
      exact .property hnone htype hv hmem

theorem made_ofType (h : WellFormed defs (.object fields)) (href : fields.get? refKey = none)
    (hnone : offered fields = []) :
    Made make (Ingredient fields) (ofType make fields) := by
  -- Nothing is needed for a type other than these two.
  have hother : ∀ v : Value, fields.get? "type" ≠ some (.text "array") →
      fields.get? "type" ≠ some (.text "object") → Made make (Ingredient fields) (.ok v) := by
    intro v harray hobject
    refine .ok v fun part hpart => ?_
    rcases hpart.of_nil hnone with ⟨htype, -⟩ | ⟨htype, -⟩
    · exact absurd htype harray
    · exact absurd htype hobject
  unfold ofType
  split
  case h_1 htype | h_2 htype | h_3 htype | h_4 htype =>
    exact hother _ (by simp [htype]) (by simp [htype])
  case h_5 htype =>
    refine (made_of_only fun other => ⟨fun hpart => ?_, ?_⟩).map _
    · rcases hpart.of_nil hnone with ⟨-, hpart⟩ | ⟨htype', -⟩
      · exact hpart
      · simp [htype] at htype'
    · rintro rfl
      exact .item hnone htype
  case h_6 htype =>
    obtain ⟨properties, hproperties, hneeds⟩ := h.exists_properties href hnone htype
    rw [hproperties, funext fun part => propext (hneeds part)]
    exact (made_ofProperties properties).map _
  case h_7 harray hobject => exact hother _ harray hobject

theorem WellFormed.exists_given (h : WellFormed defs (.object fields))
    (href : fields.get? refKey = none) (hgiven : ¬ Silent fields) :
    ∃ v, ∀ make, ofFields make fields = .ok v := by
  have hdefault : (∀ v, fields.get? "examples" = some v → v = .list []) →
      ∃ v, fields.get? "default" = some v := by
    intro hexamples
    by_contra hnone
    exact hgiven ⟨href, hexamples, Option.eq_none_iff_forall_ne_some.mpr (not_exists.mp hnone)⟩
  cases hv : fields.get? "examples" with
  | none =>
    obtain ⟨v, hv'⟩ := hdefault (by simp [hv])
    exact ⟨v, fun make => by simp [ofFields, hv, hv', Value.isFalsy]⟩
  | some v =>
    obtain ⟨items, rfl⟩ := (h.of_node href).1 _ List.mem_cons_self v hv
    cases items with
    | nil =>
      obtain ⟨v, hv'⟩ := hdefault (by simp [hv])
      exact ⟨v, fun make => by simp [ofFields, hv, hv', Value.isFalsy]⟩
    | cons first rest =>
      refine ⟨first, fun make => ?_⟩
      simp [ofFields, hv, Value.isFalsy, Value.first, Value.partAt, Value.itemAt, Value.place,
        Value.int?, Except.map]

theorem Silent.ofFields_eq (h : Silent fields) :
    ofFields make fields =
      match firstAlternative? fields ["anyOf", "oneOf", "allOf"] with
      | .error e => .error e
      | .ok (some node) => make node
      | .ok none => ofType make fields := by
  have hexamples : ((fields.get? "examples").getD .null).isFalsy = true := by
    cases hv : fields.get? "examples" with
    | none => rfl
    | some v =>
      rw [h.examples v hv]
      rfl
  simp only [ofFields, hexamples, h.default]
  rfl

theorem made_ofFields (h : WellFormed defs (.object fields)) (hsilent : Silent fields) :
    Made make (Ingredient fields) (ofFields make fields) := by
  rw [hsilent.ofFields_eq, h.firstAlternative?_eq hsilent.reference]
  cases hoffered : offered fields with
  | nil => exact made_ofType h hsilent.reference hoffered
  | cons option more =>
    have hhead : (offered fields).head? = some option := by rw [hoffered]; rfl
    refine made_of_only fun other => ⟨fun hpart => ?_, ?_⟩
    · cases hpart with
      | option hother => exact Option.some.inj (hother.symm.trans hhead)
      | item hnone => simp [hnone] at hhead
      | property hnone => simp [hnone] at hhead
    · rintro rfl
      exact .option hhead

/-- **One level.**  An example is there if all that is needed for it is; otherwise something that is
needed for it is missing, for the same reason. -/
theorem made_ofNode (h : WellFormed defs node) (fuel : Nat) :
    Made (ofNode (.object defs) fuel) (Needs defs node)
      (ofNode (.object defs) (fuel + 1) node) := by
  obtain ⟨fields, rfl⟩ := h.exists_fields
  cases h with
  | @reference _ name target hname htarget =>
    rw [ofNode_reference hname htarget]
    refine made_of_only fun other => ⟨fun hother => ?_, ?_⟩
    · cases hother with
      | target hname' htarget' =>
        obtain rfl := hname.unique hname'
        exact Option.some.inj (htarget'.symm.trans htarget)
      | part hsilent => exact absurd hsilent.reference hname.get?_ne
    · rintro rfl
      exact .target hname htarget
  | node href hlists hproperties hparts =>
    have h : WellFormed defs (.object fields) := .node href hlists hproperties hparts
    rw [ofNode_fields href]
    have hneeds : Needs defs (.object fields) = fun part => Silent fields ∧ Ingredient fields part := by
      funext part
      apply propext
      constructor
      · intro hpart
        cases hpart with
        | target hname => exact absurd href hname.get?_ne
        | part hsilent hpart => exact ⟨hsilent, hpart⟩
      · exact fun hpart => .part hpart.1 hpart.2
    rw [hneeds]
    by_cases hsilent : Silent fields
    · simp only [hsilent, true_and]
      exact made_ofFields h hsilent
    · obtain ⟨v, hv⟩ := h.exists_given href hsilent
      rw [hv]
      exact .ok v fun part hpart => absurd hpart.1 hsilent

/-! ## All levels -/

theorem WellFormed.part_or_empty (h : WellFormed defs (.object fields))
    (href : fields.get? refKey = none) {part : Value} (hpart : Ingredient fields part) :
    Part part (.object fields) ∨ part = .object [] ∧ fields ≠ [] := by
  cases hpart with
  | option hhead =>
    obtain ⟨key, hkey, hmem⟩ := List.mem_flatMap.mp (List.mem_of_mem_head? hhead)
    have hitem := (List.mem_filter.mp hmem).1
    cases hv : fields.get? key with
    | none => simp [hv, Value.items] at hitem
    | some v =>
      obtain ⟨options, rfl⟩ := (h.of_node href).1 key (List.mem_cons_of_mem _ hkey) v hv
      exact .inl (.option hkey hv (by simpa [hv, Value.items] using hitem))
  | item hnone htype =>
    cases hv : fields.get? "items" with
    | none =>
      refine .inr ⟨rfl, ?_⟩
      rintro rfl
      cases htype
    | some v => exact .inl (.item hv)
  | property hnone htype hproperties hmem => exact .inl (.property hproperties hmem)

theorem wellFormed_of_absent
    (habsent : ∀ key ∈ refKey :: "examples" :: combinators, fields.get? key = none)
    (hitems : ∀ item, fields.get? "items" = some item → WellFormed defs item)
    (hproperties : ∀ v, fields.get? "properties" = some v → ∃ properties : Entries Value,
      v = .object properties ∧ ∀ property ∈ properties, WellFormed defs property.2) :
    WellFormed defs (.object fields) := by
  obtain ⟨href, hlists⟩ := List.forall_mem_cons.mp habsent
  refine .node href (fun key hkey v hv => ?_) (fun v hv => ?_) fun part hpart => ?_
  · cases (hlists key hkey).symm.trans hv
  · obtain ⟨properties, rfl, -⟩ := hproperties v hv
    exact ⟨properties, rfl⟩
  · cases hpart with
    | item hitem => exact hitems part hitem
    | property hfound hmem =>
      obtain ⟨properties, heq, hnodes⟩ := hproperties _ hfound
      cases heq
      exact hnodes _ hmem
    | option hkey hoptions =>
      cases (hlists _ (List.mem_cons_of_mem _ hkey)).symm.trans hoptions

variable (hdefs : ∀ definition ∈ defs, WellFormed defs definition.2)

include hdefs in
theorem WellFormed.of_needs (h : WellFormed defs node) {next : Value}
    (hnext : Needs defs node next) : WellFormed defs next := by
  cases hnext with
  | target hname htarget => exact hdefs _ (Entries.mem_of_get? htarget)
  | part hsilent hpart =>
    rcases h.part_or_empty hsilent.reference hpart with hpart | ⟨rfl, -⟩
    · exact (h.of_node hsilent.reference).2.2 _ hpart
    · exact wellFormed_of_absent (fun _ _ => rfl) nofun nofun

include hdefs in
theorem WellFormed.of_reflTransGen (h : WellFormed defs node) {other : Value}
    (hreach : ReflTransGen (Needs defs) node other) : WellFormed defs other := by
  induction hreach with
  | refl => exact h
  | tail _ hnext ih => exact ih.of_needs hdefs hnext

include hdefs in
/-- **So many levels.**  By induction on the steps: they suffice for an example unless examples that
need one another go as deep as there are steps, and if they do, nothing else is amiss. -/
theorem ofNode_of_wellFormed (h : WellFormed defs node) (fuel : Nat) :
    (∃ v, ofNode (.object defs) fuel node = .ok v) ∧ ¬ Nested defs fuel node ∨
      ofNode (.object defs) fuel node = .error .endlessReference ∧ Nested defs fuel node := by
  induction fuel generalizing node with
  | zero => exact .inr ⟨rfl, .zero node⟩
  | succ fuel ih =>
    generalize hresult : ofNode (.object defs) (fuel + 1) node = result
    have hmade := made_ofNode h fuel
    rw [hresult] at hmade
    cases hmade with
    | ok v hneeds =>
      refine .inl ⟨⟨v, rfl⟩, fun hnested => ?_⟩
      cases hnested with
      | succ hnext hdeep =>
        obtain ⟨w, hw⟩ := hneeds _ hnext
        rcases ih (h.of_needs hdefs hnext) with ⟨-, hshallow⟩ | ⟨hendless, -⟩
        · exact hshallow hdeep
        · cases hw.symm.trans hendless
    | error hpart he =>
      rcases ih (h.of_needs hdefs hpart) with ⟨⟨w, hw⟩, -⟩ | ⟨hendless, hdeep⟩
      · cases hw.symm.trans he
      · exact .inr ⟨he.symm.trans hendless, .succ hpart hdeep⟩

theorem Nested.of_succ {n : Nat} (h : Nested defs (n + 1) node) : Nested defs n node := by
  induction n generalizing node with
  | zero => exact .zero node
  | succ n ih =>
    cases h with
    | succ hnext h => exact .succ hnext (ih h)

theorem Nested.of_transGen {n : Nat} {next : Value} (hpath : TransGen (Needs defs) node next)
    (h : Nested defs n next) : Nested defs (n + 1) node := by
  induction hpath using TransGen.head_induction_on with
  | single hnext => exact .succ hnext h
  | head hnext _ ih => exact .succ hnext ih.of_succ

theorem Circular.nested (h : Circular defs node) (n : Nat) : Nested defs n node := by
  obtain ⟨next, hreach, hcircle⟩ := h
  have hround : Nested defs n next := by
    induction n with
    | zero => exact .zero next
    | succ n ih => exact .of_transGen hcircle ih
  rcases Relation.reflTransGen_iff_eq_or_transGen.mp hreach with rfl | hpath
  · exact hround
  · exact (Nested.of_transGen hpath hround).of_succ

theorem Circular.of_needs {next : Value} (hnext : Needs defs node next)
    (h : Circular defs next) : Circular defs node := by
  obtain ⟨other, hreach, hcircle⟩ := h
  exact ⟨other, .head hnext hreach, hcircle⟩

theorem size_lt_of_ingredient (h : WellFormed defs (.object fields))
    (href : fields.get? refKey = none) {part : Value} (hpart : Ingredient fields part) :
    size part < size (.object fields) := by
  rcases h.part_or_empty href hpart with hpart | ⟨rfl, hne⟩
  · exact size_lt_of_part hpart
  · obtain ⟨⟨key, v⟩, rest, rfl⟩ := List.exists_cons_of_ne_nil hne
    have hpos := size_pos v
    simp only [size, sizeFields]
    omega

include hdefs in
/-- Where there is no circle, a way to other nodes comes by each name only once, and between two
names it leads into smaller and smaller parts. -/
theorem nested_lt {left : List String} {n : Nat} (hnested : Nested defs n node)
    (h : WellFormed defs node) (hcircular : ¬ Circular defs node)
    (hleft : ∀ holder name, ReflTransGen (Needs defs) node holder → RefersTo holder name →
      name ∈ left) : n < left.length * (sizeFields defs + 1) + size node := by
  induction hnested generalizing left with
  | zero node => exact Nat.lt_of_lt_of_le (size_pos node) (Nat.le_add_left _ _)
  | @succ n node next hnext _ ih =>
    have hrest := fun {more : List String} => @ih more (h.of_needs hdefs hnext)
      fun hcircle => hcircular (.of_needs hnext hcircle)
    cases hnext with
    | @target _ _ name hname htarget =>
      have herase : ∀ holder other, ReflTransGen (Needs defs) next holder →
          RefersTo holder other → other ∈ left.erase name := by
        intro holder other hreach hother
        have hne : other ≠ name := by
          rintro rfl
          have hback : TransGen (Needs defs) next next :=
            .tail' hreach (.target hother htarget)
          exact hcircular ⟨next, .single (.target hname htarget), hback⟩
        refine (List.mem_erase_of_ne hne).mpr (hleft holder other ?_ hother)
        exact .head (.target hname htarget) hreach
      have hmem := hleft node name .refl hname
      have hlength : left.length = (left.erase name).length + 1 := by
        have hpos := List.length_pos_of_mem hmem
        rw [List.length_erase_of_mem hmem]
        omega
      have hsize := size_le_sizeFields (Entries.mem_of_get? htarget)
      have hlt := hrest herase
      rw [hlength, Nat.add_one_mul]
      omega
    | part hsilent hpart =>
      have hsize := size_lt_of_ingredient h hsilent.reference hpart
      have hlt := hrest fun holder name hreach =>
        hleft holder name (.head (.part hsilent hpart) hreach)
      omega

/-! ## More steps -/

def Extends {α : Type} (result more : Except Fault α) : Prop := ∀ a, result = .ok a → more = .ok a

theorem Extends.refl {α : Type} (result : Except Fault α) : Extends result result := fun _ h => h

theorem Extends.map {α β : Type} {result more : Except Fault α} (h : Extends result more)
    (f : α → β) : Extends (result.map f) (more.map f) := by
  intro b hb
  cases result with
  | error e => cases hb
  | ok a =>
    rw [h a rfl]
    exact hb

section

variable {more : Value → Except Fault Value} (h : ∀ node, Extends (make node) (more node))
include h

theorem extends_ofProperties (properties : Entries Value) :
    Extends (ofProperties make properties) (ofProperties more properties) := by
  induction properties with
  | nil => exact .refl _
  | cons first rest ih =>
    intro made hmade
    rw [ofProperties] at hmade ⊢
    split at hmade
    · cases hmade
    next v hv =>
    split at hmade
    · cases hmade
    next others hothers =>
    rw [h _ v hv, ih others hothers]
    exact hmade

theorem extends_ofType (fields : Entries Value) :
    Extends (ofType make fields) (ofType more fields) := by
  unfold ofType
  split
  case h_5 => exact (h _).map _
  case h_6 =>
    split
    · exact (extends_ofProperties h _).map _
    · exact .refl _
  all_goals exact .refl _

theorem extends_ofFields (fields : Entries Value) :
    Extends (ofFields make fields) (ofFields more fields) := by
  unfold ofFields
  dsimp only
  split
  · exact .refl _
  split
  · exact .refl _
  split
  · exact .refl _
  · exact h _
  · exact extends_ofType h fields

end

theorem extends_ofNode (definitions node : Value) (fuel : Nat) :
    Extends (ofNode definitions fuel node) (ofNode definitions (fuel + 1) node) := by
  induction fuel generalizing node with
  | zero => exact fun v h => nomatch h
  | succ fuel ih =>
    cases node with
    | object fields =>
      simp only [ofNode]
      split
      · split
        · exact .refl _
        · split
          · exact .refl _
          · exact ih _
      · exact extends_ofFields ih fields
    | _ => exact .refl _

theorem ofNode_eq_ok {definitions : Value} {fuel more : Nat} {v : Value}
    (h : ofNode definitions fuel node = .ok v) (hle : fuel ≤ more) :
    ofNode definitions more node = .ok v := by
  induction more, hle using Nat.le_induction with
  | base => exact h
  | succ more _ ih => exact extends_ofNode _ _ _ v ih

include hdefs in
/-- **Which examples there are.**  An example of a node is made unless it takes one of a node that
needs an example of itself; then no number of steps suffices, and otherwise from `enoughFuel` on the
number makes no difference. -/
theorem exists_generate_iff (hnode : WellFormed defs node) :
    ((∃ v, generate node (.object defs) = .ok v) ↔ ¬ Circular defs node) ∧
      (Circular defs node → ∀ fuel, ofNode (.object defs) fuel node = .error .endlessReference) ∧
      ∀ fuel ≥ enoughFuel (.object defs) node,
        ofNode (.object defs) fuel node = generate node (.object defs) := by
  have hendless : Circular defs node →
      ∀ fuel, ofNode (.object defs) fuel node = .error .endlessReference := by
    intro hcircular fuel
    rcases ofNode_of_wellFormed hdefs hnode fuel with ⟨-, hshallow⟩ | ⟨herror, -⟩
    · exact absurd (hcircular.nested fuel) hshallow
    · exact herror
  have hnames : ∀ holder name, ReflTransGen (Needs defs) node holder → RefersTo holder name →
      name ∈ defs.keys := by
    intro holder name hreach hname
    obtain ⟨target, htarget⟩ := (hnode.of_reflTransGen hdefs hreach).exists_target hname
    exact List.mem_map_of_mem (Entries.mem_of_get? htarget)
  have hmade : ¬ Circular defs node → ∃ v, generate node (.object defs) = .ok v := by
    intro hcircular
    rcases ofNode_of_wellFormed hdefs hnode (enoughFuel (.object defs) node) with
      ⟨hv, -⟩ | ⟨-, hnested⟩
    · exact hv
    · have hlt := nested_lt hdefs hnested hnode hcircular hnames
      exact absurd hlt (Nat.not_lt.mpr (le_enoughFuel defs node))
  refine ⟨⟨?_, hmade⟩, hendless, fun fuel hfuel => ?_⟩
  · rintro ⟨v, hv⟩ hcircular
    cases hv.symm.trans (hendless hcircular _)
  · by_cases hcircular : Circular defs node
    · rw [generate, hendless hcircular, hendless hcircular]
    · obtain ⟨v, hv⟩ := hmade hcircular
      exact (ofNode_eq_ok hv hfuel).trans hv.symm

end

def treeReference : Value := .object [("$ref", .text "#/$defs/Tree")]

def trees : Value := .object [("type", .text "array"), ("items", treeReference)]

def tree : Value :=
  .object [("type", .text "object"), ("properties", .object [("children", trees)])]

theorem refersTo_treeReference : RefersTo treeReference "Tree" := by
  have href : Entries.get? [("$ref", Value.text "#/$defs/Tree")] refKey =
      some (.text ("#/$defs/" ++ "Tree")) := by decide
  exact .intro href (.inr ⟨"#/$defs", by decide⟩) (by decide)

theorem wellFormed_tree : WellFormed [("Tree", tree)] tree := by
  have htrees : WellFormed [("Tree", tree)] trees := by
    refine wellFormed_of_absent (by decide) (fun item hitem => ?_) nofun
    obtain rfl := Option.some.inj hitem
    exact .reference refersTo_treeReference rfl
  refine wellFormed_of_absent (by decide) nofun fun v hv => ?_
  obtain rfl := Option.some.inj hv
  exact ⟨_, rfl, by simpa using htrees⟩

theorem circular_treeReference : Circular [("Tree", tree)] treeReference := by
  have htarget : Needs [("Tree", tree)] treeReference tree := .target refersTo_treeReference rfl
  have hmem : ("children", trees) ∈ [("children", trees)] := List.mem_cons_self
  have htrees : Needs [("Tree", tree)] tree trees :=
    .part ⟨rfl, nofun, rfl⟩ (.property rfl rfl rfl hmem)
  have hitem : Needs [("Tree", tree)] trees treeReference :=
    .part ⟨rfl, nofun, rfl⟩ (.item rfl rfl)
  exact ⟨tree, .single htarget, .head htrees (.head hitem (.single htarget))⟩

/-- There is no example of a tree, however many steps are taken. -/
theorem exists_generate_iff_tree :
    WellFormed [("Tree", tree)] treeReference ∧ WellFormed [("Tree", tree)] tree ∧
      (¬ ∃ v, generate treeReference (.object [("Tree", tree)]) = .ok v) ∧
      ∀ fuel, ofNode (.object [("Tree", tree)]) fuel treeReference =
        .error .endlessReference := by
  have hnode : WellFormed [("Tree", tree)] treeReference := .reference refersTo_treeReference rfl
  have hdefs : ∀ definition ∈ [("Tree", tree)], WellFormed [("Tree", tree)] definition.2 := by
    simpa using wellFormed_tree
  obtain ⟨hiff, hendless, -⟩ := exists_generate_iff hdefs hnode
  exact ⟨hnode, wellFormed_tree, fun hmade => hiff.mp hmade circular_treeReference,
    hendless circular_treeReference⟩

end PromptChain.JsonExample
