import PromptChain.Proofs.Schema.Makes
import PromptChain.Schema.JsonExample
/-!
# Examples that conform

The example that is generated for a node of a JSON schema conforms to the node, whether it was given
in the schema, chosen among alternatives, or made up from a type.  If no reference leads back to
where it was, each of them is followed once at most on the way to any part of the example, so that
the steps that `generate` may take suffice.
-/

namespace PromptChain

namespace Entries

variable {α : Type}

def OnlyKeys (entries : Entries α) (keys : List String) : Prop := ∀ entry ∈ entries, entry.1 ∈ keys

theorem mem_of_get? {entries : Entries α} {key : String} {v : α} (h : entries.get? key = some v) :
    (key, v) ∈ entries := by
  induction entries with
  | nil => cases h
  | cons entry rest ih =>
    rw [get?] at h
    split at h
    · next hkey =>
      cases h
      rw [← hkey]
      exact List.mem_cons_self
    · exact List.mem_cons_of_mem _ (ih h)

theorem OnlyKeys.mono {entries : Entries α} {keys more : List String} (h : entries.OnlyKeys keys)
    (hmore : ∀ key ∈ keys, key ∈ more) : entries.OnlyKeys more :=
  fun entry hentry => hmore _ (h entry hentry)

theorem OnlyKeys.mem {entries : Entries α} {keys : List String} (h : entries.OnlyKeys keys)
    {key : String} {v : α} (hv : entries.get? key = some v) : key ∈ keys := h _ (mem_of_get? hv)

theorem OnlyKeys.get?_eq_none {entries : Entries α} {keys : List String} (h : entries.OnlyKeys keys)
    {key : String} (hkey : key ∉ keys) : entries.get? key = none := by
  rw [Option.eq_none_iff_forall_ne_some]
  exact fun v hv => hkey (h.mem hv)

end Entries

namespace JsonExample

open Value (IsText)

/-! ## Nodes and what conforms to them -/

/-- The keywords under which a node gives alternatives of which one has to be met. -/
def choices : List String := ["anyOf", "oneOf"]

def combinators : List String := choices ++ ["allOf"]

/-- The keywords that do not constrain what conforms to a node. -/
def notes : List String := ["title", "description", "examples", "default", "$defs"]

def scalars : List String := ["string", "integer", "number", "boolean", "null"]

inductive HasType : String → Value → Prop where
  | string {v : Value} (h : IsText v) : HasType "string" v
  | integer (n : Int) : HasType "integer" (.int n)
  | whole {x : Binary64} {n : Int} (h : x.sameInt n = true) : HasType "integer" (.real x)
  | int (n : Int) : HasType "number" (.int n)
  | real (x : Binary64) : HasType "number" (.real x)
  | boolean (b : Bool) : HasType "boolean" (.bool b)
  | null : HasType "null" .null
  | array (items : List Value) : HasType "array" (.list items)
  | object {v : Value} (h : v.entries?.isSome = true) : HasType "object" v

/-- `RefersTo node name`: the node is a reference, of which the name is what stands behind the last
slash. -/
inductive RefersTo : Value → String → Prop where
  | intro {fields : Entries Value} {path name : String}
      (href : fields.get? refKey = some (.text (path ++ name)))
      (hpath : path = "" ∨ ∃ front, path = front ++ "/") (hname : '/' ∉ name.toList) :
      RefersTo (.object fields) name

/-- `Conforms defs node v`: the value meets all that the node asks for, with references into the
table of definitions, and of the alternatives under each keyword a chosen one. -/
inductive Conforms (defs : Entries Value) : Value → Value → Prop where
  | intro {fields : Entries Value} {v : Value} (chosen : String → Value)
      (htype : ∀ type, fields.get? "type" = some (.text type) → HasType type v)
      (hitems : ∀ item items, fields.get? "items" = some item → v = .list items →
        ∀ w ∈ items, Conforms defs item w)
      (hrequired : ∀ names name, fields.get? "required" = some (.list names) →
        .text name ∈ names → v.entries?.isSome = true → (v.field? name).isSome = true)
      (hproperties : ∀ properties name node w,
        fields.get? "properties" = some (.object properties) →
        Entries.get? properties name = some node → v.field? name = some w → Conforms defs node w)
      (hchosen : ∀ key ∈ choices, ∀ options, fields.get? key = some (.list options) →
        chosen key ∈ options)
      (hchoice : ∀ key ∈ choices, ∀ options, fields.get? key = some (.list options) →
        Conforms defs (chosen key) v)
      (hall : ∀ options, fields.get? "allOf" = some (.list options) →
        ∀ option ∈ options, Conforms defs option v)
      (hreference : ∀ name target, RefersTo (.object fields) name → defs.get? name = some target →
        Conforms defs target v) :
      Conforms defs (.object fields) v

def Exemplifies (defs : Entries Value) (node : Value) (result : Except Fault Value) : Prop :=
  ∃ v, result = .ok v ∧ Conforms defs node v

/-- What a node gives as an example of itself: nothing, examples, of which the first conforms to it,
or a default that conforms to it. -/
inductive Given (defs : Entries Value) (fields : Entries Value) : Prop where
  | nothing (hexamples : fields.get? "examples" = none) (hdefault : fields.get? "default" = none)
  | examples {first : Value} {rest : List Value}
      (hexamples : fields.get? "examples" = some (.list (first :: rest)))
      (hfirst : Conforms defs (.object fields) first)
  | default {v : Value} (hexamples : fields.get? "examples" = none)
      (hdefault : fields.get? "default" = some v) (hv : Conforms defs (.object fields) v)

/-- The nodes of JSON schemas: references, nodes for anything, for the values of a type, for arrays
and for objects, and alternatives, however they are annotated. -/
inductive IsNode (defs : Entries Value) : Value → Prop where
  | reference {fields : Entries Value} {name : String} (hname : RefersTo (.object fields) name)
      (hkeys : fields.OnlyKeys (refKey :: notes)) : IsNode defs (.object fields)
  | anything {fields : Entries Value} (hkeys : fields.OnlyKeys notes)
      (hgiven : Given defs fields) : IsNode defs (.object fields)
  | scalar {fields : Entries Value} {type : String} (hkeys : fields.OnlyKeys ("type" :: notes))
      (htype : fields.get? "type" = some (.text type)) (hscalar : type ∈ scalars)
      (hgiven : Given defs fields) : IsNode defs (.object fields)
  | array {fields : Entries Value} (hkeys : fields.OnlyKeys ("type" :: "items" :: notes))
      (htype : fields.get? "type" = some (.text "array"))
      (hitems : ∀ item, fields.get? "items" = some item → IsNode defs item)
      (hgiven : Given defs fields) : IsNode defs (.object fields)
  | object {fields properties : Entries Value}
      (hkeys : fields.OnlyKeys ("type" :: "properties" :: "required" :: notes))
      (htype : fields.get? "type" = some (.text "object"))
      (hproperties : (fields.get? "properties").getD (.object []) = .object properties)
      (hnodes : ∀ property ∈ properties, IsNode defs property.2)
      (hrequired : ∀ names name, fields.get? "required" = some (.list names) →
        .text name ∈ names → properties.has name = true)
      (hgiven : Given defs fields) : IsNode defs (.object fields)
  | options {fields : Entries Value} {key : String} {options : List Value}
      (hkey : key ∈ combinators) (hkeys : fields.OnlyKeys (key :: notes))
      (hoptions : fields.get? key = some (.list options)) (hne : options ≠ [])
      (hnodes : ∀ option ∈ options, IsNode defs option)
      (hall : key = "allOf" → options.length = 1)
      (hgiven : Given defs fields) : IsNode defs (.object fields)

/-! ## References -/

/-- `Part part node`: the part stands in the node, as that of its items, of a property, or as an
alternative. -/
inductive Part : Value → Value → Prop where
  | item {fields : Entries Value} {part : Value} (h : fields.get? "items" = some part) :
      Part part (.object fields)
  | property {fields properties : Entries Value} {property : String × Value}
      (h : fields.get? "properties" = some (.object properties)) (hmem : property ∈ properties) :
      Part property.2 (.object fields)
  | option {fields : Entries Value} {key : String} {options : List Value} {part : Value}
      (hkey : key ∈ combinators) (h : fields.get? key = some (.list options))
      (hmem : part ∈ options) : Part part (.object fields)

/-- `Reaches defs node name`: the node refers to the name, by itself, in a part of it, or in what it
refers to. -/
inductive Reaches (defs : Entries Value) : Value → String → Prop where
  | here {node : Value} {name : String} (h : RefersTo node name) : Reaches defs node name
  | part {part node : Value} {name : String} (hpart : Part part node)
      (h : Reaches defs part name) : Reaches defs node name
  | through {node target : Value} {name other : String} (hother : RefersTo node other)
      (htarget : defs.get? other = some target) (h : Reaches defs target name) :
      Reaches defs node name

/-- A node whose references lead to nodes, and never back to where they were. -/
structure Sound (defs : Entries Value) (node : Value) : Prop where
  isNode : IsNode defs node
  resolves : ∀ name, Reaches defs node name → ∃ target, defs.get? name = some target ∧
    IsNode defs target
  acyclic : ∀ name target, Reaches defs node name → defs.get? name = some target →
    ¬ Reaches defs target name

variable {defs : Entries Value} {node : Value}

theorem Sound.part (h : Sound defs node) {part : Value} (hpart : Part part node)
    (hnode : IsNode defs part) : Sound defs part where
  isNode := hnode
  resolves name hname := h.resolves name (.part hpart hname)
  acyclic name target hname := h.acyclic name target (.part hpart hname)

theorem Sound.target (h : Sound defs node) {name : String} {target : Value}
    (hname : RefersTo node name) (htarget : defs.get? name = some target) : Sound defs target where
  isNode := by
    obtain ⟨other, hother, hnode⟩ := h.resolves name (.here hname)
    obtain rfl : other = target := Option.some.inj (hother.symm.trans htarget)
    exact hnode
  resolves other hother := h.resolves other (.through hname htarget hother)
  acyclic other next hother := h.acyclic other next (.through hname htarget hother)

theorem refName_append {path name : String} (hpath : path = "" ∨ ∃ front, path = front ++ "/")
    (hname : '/' ∉ name.toList) : refName (.text (path ++ name)) = .ok name := by
  have htake : ((path ++ name).toList.reverse.takeWhile (· ≠ '/')) = name.toList.reverse := by
    have hall : ∀ c ∈ name.toList.reverse, decide (c ≠ '/') = true := by
      intro c hc
      rw [decide_eq_true_eq]
      rintro rfl
      exact hname (List.mem_reverse.mp hc)
    rw [String.toList_append, List.reverse_append, List.takeWhile_append_of_pos hall]
    rcases hpath with rfl | ⟨front, rfl⟩
    · simp
    · rw [String.toList_append, List.reverse_append]
      simp
  rw [refName, htake, List.reverse_reverse, String.ofList_toList]

theorem RefersTo.unique {name other : String} (h : RefersTo node name)
    (hother : RefersTo node other) : name = other := by
  cases h with
  | intro href hpath hname =>
    cases hother with
    | intro href' hpath' hname' =>
      have hrefName := refName_append hpath hname
      rw [Value.text.inj (Option.some.inj (href.symm.trans href')),
        refName_append hpath' hname'] at hrefName
      exact (Except.ok.inj hrefName).symm

section

variable {fields : Entries Value} {name : String}

theorem Reaches.of_parts (h : Reaches defs (.object fields) name)
    (href : fields.get? refKey = none) :
    ∃ part, Part part (.object fields) ∧ Reaches defs part name := by
  cases h with
  | here h => cases h with | intro href' => cases href.symm.trans href'
  | part hpart h => exact ⟨_, hpart, h⟩
  | through h => cases h with | intro href' => cases href.symm.trans href'

theorem Reaches.of_array (h : Reaches defs (.object fields) name)
    (hkeys : fields.OnlyKeys ("type" :: "items" :: notes)) :
    ∃ item, fields.get? "items" = some item ∧ Reaches defs item name := by
  obtain ⟨part, hpart, h⟩ := h.of_parts (hkeys.get?_eq_none (by decide))
  cases hpart with
  | item hitem => exact ⟨part, hitem, h⟩
  | property hproperties => exact absurd (hkeys.mem hproperties) (by decide)
  | option hkey hoptions =>
    have habsent := (by decide : ∀ key ∈ combinators, key ∉ "type" :: "items" :: notes) _ hkey
    exact absurd (hkeys.mem hoptions) habsent

theorem Reaches.of_reference (h : Reaches defs (.object fields) name)
    (hkeys : fields.OnlyKeys (refKey :: notes)) {other : String}
    (hother : RefersTo (.object fields) other) :
    name = other ∨ ∃ target, defs.get? other = some target ∧ Reaches defs target name := by
  cases h with
  | here h => exact .inl (h.unique hother)
  | part hpart =>
    cases hpart with
    | item hitem => exact absurd (hkeys.mem hitem) (by decide)
    | property hproperties => exact absurd (hkeys.mem hproperties) (by decide)
    | option hkey hoptions =>
      have habsent := (by decide : ∀ key ∈ combinators, key ∉ refKey :: notes) _ hkey
      exact absurd (hkeys.mem hoptions) habsent
  | through h htarget hreaches =>
    obtain rfl := h.unique hother
    exact .inr ⟨_, htarget, hreaches⟩

theorem not_reaches_of_scalar (hkeys : fields.OnlyKeys ("type" :: notes)) :
    ¬ Reaches defs (.object fields) name := by
  intro h
  obtain ⟨item, hitem, -⟩ := h.of_array (hkeys.mono (by decide))
  exact absurd (hkeys.mem hitem) (by decide)

end

/-! ## Examples of each form -/

section

variable {make : Value → Except Fault Value} {fields : Entries Value}

def typed : List String := "type" :: "items" :: "properties" :: "required" :: notes

/-- A value of the type, with parts that conform, conforms to a node that is neither a reference nor
has alternatives. -/
theorem conforms_of_typed {v : Value} (hkeys : fields.OnlyKeys typed)
    (htype : ∀ type, fields.get? "type" = some (.text type) → HasType type v)
    (hitems : ∀ item items, fields.get? "items" = some item → v = .list items →
      ∀ w ∈ items, Conforms defs item w)
    (hrequired : ∀ names name, fields.get? "required" = some (.list names) →
      .text name ∈ names → v.entries?.isSome = true → (v.field? name).isSome = true)
    (hproperties : ∀ properties name node w, fields.get? "properties" = some (.object properties) →
      Entries.get? properties name = some node → v.field? name = some w → Conforms defs node w) :
    Conforms defs (.object fields) v := by
  have habsent : ∀ key ∈ choices, key ∉ typed := by decide
  refine .intro (fun _ => .null) htype hitems hrequired hproperties ?_ ?_ ?_ ?_
  · intro key hkey options hoptions
    exact absurd (hkeys.mem hoptions) (habsent key hkey)
  · intro key hkey options hoptions
    exact absurd (hkeys.mem hoptions) (habsent key hkey)
  · intro options hoptions
    exact absurd (hkeys.mem hoptions) (by decide)
  · intro name target hname
    cases hname with
    | intro href => exact absurd (hkeys.mem href) (by decide)

theorem conforms_of_scalar {v : Value} (hkeys : fields.OnlyKeys ("type" :: notes))
    (htype : ∀ type, fields.get? "type" = some (.text type) → HasType type v) :
    Conforms defs (.object fields) v := by
  refine conforms_of_typed (hkeys.mono (by decide)) htype ?_ ?_ ?_
  · intro item items hitem
    exact absurd (hkeys.mem hitem) (by decide)
  · intro names name hnames
    exact absurd (hkeys.mem hnames) (by decide)
  · intro properties name node w hproperties
    exact absurd (hkeys.mem hproperties) (by decide)

theorem hasType_of_get? {type : String} {v : Value} (htype : fields.get? "type" = some (.text type))
    (hv : HasType type v) (other : String) (hother : fields.get? "type" = some (.text other)) :
    HasType other v := by
  obtain rfl := Value.text.inj (Option.some.inj (htype.symm.trans hother))
  exact hv

theorem ofFields_of_given (hgiven : Given defs fields)
    (h : fields.get? "examples" = none → fields.get? "default" = none →
      Exemplifies defs (.object fields) (ofFields make fields)) :
    Exemplifies defs (.object fields) (ofFields make fields) := by
  cases hgiven with
  | nothing hexamples hdefault => exact h hexamples hdefault
  | @examples first rest hexamples hfirst =>
    refine ⟨first, ?_, hfirst⟩
    simp [ofFields, hexamples, Value.isFalsy, Value.first, Value.partAt, Value.itemAt, Value.place,
      Value.int?, Except.map]
  | @default v hexamples hdefault hv =>
    refine ⟨v, ?_, hv⟩
    simp [ofFields, hexamples, hdefault, Value.isFalsy]

theorem firstAlternative?_of_absent {keys : List String}
    (h : ∀ key ∈ keys, fields.get? key = none) : firstAlternative? fields keys = .ok none := by
  induction keys with
  | nil => rfl
  | cons key rest ih =>
    obtain ⟨hkey, hrest⟩ := List.forall_mem_cons.mp h
    rw [firstAlternative?, hkey]
    exact ih hrest

theorem ofFields_of_typed (hkeys : fields.OnlyKeys typed) (hgiven : Given defs fields)
    (h : Exemplifies defs (.object fields) (ofType make fields)) :
    Exemplifies defs (.object fields) (ofFields make fields) := by
  refine ofFields_of_given hgiven fun hexamples hdefault => ?_
  have habsent : ∀ key ∈ ["anyOf", "oneOf", "allOf"], fields.get? key = none := by
    intro key hkey
    apply hkeys.get?_eq_none
    revert key
    decide
  have hfields : ofFields make fields = ofType make fields := by
    rw [ofFields, hexamples, hdefault, firstAlternative?_of_absent habsent]
    rfl
  rwa [hfields]

theorem exists_anything (hkeys : fields.OnlyKeys notes) (hgiven : Given defs fields) :
    Exemplifies defs (.object fields) (ofFields make fields) := by
  have htype : fields.get? "type" = none := hkeys.get?_eq_none (by decide)
  refine ofFields_of_typed (hkeys.mono (by decide)) hgiven ⟨.null, by rw [ofType, htype], ?_⟩
  refine conforms_of_scalar (hkeys.mono (by decide)) fun type h => ?_
  cases htype.symm.trans h

theorem exists_scalar {type : String} (hkeys : fields.OnlyKeys ("type" :: notes))
    (htype : fields.get? "type" = some (.text type)) (hscalar : type ∈ scalars)
    (hgiven : Given defs fields) :
    Exemplifies defs (.object fields) (ofFields make fields) := by
  refine ofFields_of_typed (hkeys.mono (by decide)) hgiven ?_
  have hconforms : ∀ v, HasType type v → Conforms defs (.object fields) v :=
    fun v hv => conforms_of_scalar hkeys (hasType_of_get? htype hv)
  rw [ofType, htype]
  simp only [scalars, List.mem_cons, List.not_mem_nil, or_false] at hscalar
  rcases hscalar with rfl | rfl | rfl | rfl | rfl
  · exact ⟨_, rfl, hconforms _ (.string (Value.isText_text _))⟩
  · exact ⟨_, rfl, hconforms _ (.integer _)⟩
  · exact ⟨_, rfl, hconforms _ (.int _)⟩
  · exact ⟨_, rfl, hconforms _ (.boolean _)⟩
  · exact ⟨_, rfl, hconforms _ .null⟩

theorem exists_array (hkeys : fields.OnlyKeys ("type" :: "items" :: notes))
    (htype : fields.get? "type" = some (.text "array")) (hgiven : Given defs fields)
    (hempty : ∃ v, make (.object []) = .ok v)
    (hitems : ∀ item, fields.get? "items" = some item →
      Exemplifies defs item (make item)) :
    Exemplifies defs (.object fields) (ofFields make fields) := by
  obtain ⟨w, hw, hconforms⟩ : ∃ w, make ((fields.get? "items").getD (.object [])) = .ok w ∧
      ∀ item, fields.get? "items" = some item → Conforms defs item w := by
    cases hitem : fields.get? "items" with
    | none =>
      obtain ⟨w, hw⟩ := hempty
      exact ⟨w, hw, nofun⟩
    | some item =>
      obtain ⟨w, hw, hconforms⟩ := hitems item hitem
      refine ⟨w, hw, fun other hother => ?_⟩
      cases hother
      exact hconforms
  refine ofFields_of_typed (hkeys.mono (by decide)) hgiven ⟨.list [w], ?_, ?_⟩
  · have hmake : ofType make fields =
        (make ((fields.get? "items").getD (.object []))).map fun v => .list [v] := by
      rw [ofType, htype]
      rfl
    rw [hmake, hw]
    rfl
  · refine conforms_of_typed (hkeys.mono (by decide)) (hasType_of_get? htype (.array _)) ?_ ?_ ?_
    · intro item items hitem heq v hv
      cases heq
      rw [List.mem_singleton.mp hv]
      exact hconforms item hitem
    · intro names name hnames
      exact absurd (hkeys.mem hnames) (by decide)
    · intro properties name node v hproperties
      exact absurd (hkeys.mem hproperties) (by decide)

theorem exists_ofProperties {properties : Entries Value}
    (h : ∀ property ∈ properties, Exemplifies defs property.2 (make property.2)) :
    ∃ made, ofProperties make properties = .ok made ∧
      ∀ name node, properties.get? name = some node →
        ∃ w, Entries.get? made name = some w ∧ Conforms defs node w := by
  induction properties with
  | nil => exact ⟨[], rfl, nofun⟩
  | cons first rest ih =>
    obtain ⟨key, first⟩ := first
    obtain ⟨⟨v, hv, hconforms⟩, hrest⟩ := List.forall_mem_cons.mp h
    obtain ⟨made, hmade, hitems⟩ := ih hrest
    refine ⟨(key, v) :: made, by rw [ofProperties, hv, hmade], fun name node hnode => ?_⟩
    rw [Entries.get?] at hnode ⊢
    split at hnode
    · next hkey =>
      cases hnode
      exact ⟨v, if_pos hkey, hconforms⟩
    · next hkey =>
      rw [if_neg hkey]
      exact hitems name node hnode

theorem exists_object {properties : Entries Value}
    (hkeys : fields.OnlyKeys ("type" :: "properties" :: "required" :: notes))
    (htype : fields.get? "type" = some (.text "object")) (hgiven : Given defs fields)
    (hproperties : (fields.get? "properties").getD (.object []) = .object properties)
    (hrequired : ∀ names name, fields.get? "required" = some (.list names) →
      .text name ∈ names → properties.has name = true)
    (hnodes : ∀ property ∈ properties, Exemplifies defs property.2 (make property.2)) :
    Exemplifies defs (.object fields) (ofFields make fields) := by
  obtain ⟨made, hmade, hitems⟩ := exists_ofProperties hnodes
  refine ofFields_of_typed (hkeys.mono (by decide)) hgiven ⟨.object made, ?_, ?_⟩
  · have hmake : ofType make fields = (ofProperties make properties).map .object := by
      rw [ofType, htype, hproperties]
      rfl
    rw [hmake, hmade]
    rfl
  · refine conforms_of_typed (hkeys.mono (by decide)) (hasType_of_get? htype (.object rfl)) ?_ ?_ ?_
    · intro item items hitem
      exact absurd (hkeys.mem hitem) (by decide)
    · intro names name hnames hname _
      obtain ⟨node, hnode⟩ := Option.isSome_iff_exists.mp (hrequired names name hnames hname)
      obtain ⟨w, hw, -⟩ := hitems name node hnode
      exact Option.isSome_iff_exists.mpr ⟨w, hw⟩
    · intro others name node w hothers hnode hw
      rw [hothers] at hproperties
      cases hproperties
      obtain ⟨w', hw', hconforms⟩ := hitems name node hnode
      obtain rfl : w' = w := Option.some.inj (hw'.symm.trans hw)
      exact hconforms

theorem exists_alternatives {options : List Value} (h : ∀ option ∈ options, IsNode defs option) :
    ∃ kept, alternatives options = .ok kept ∧ (∀ option ∈ kept, option ∈ options) ∧
      (kept = [] → ∀ option ∈ options, ∃ fields : Entries Value, option = .object fields ∧
        fields.get? "type" = some (.text "null")) := by
  induction options with
  | nil => exact ⟨[], rfl, nofun, nofun⟩
  | cons first rest ih =>
    obtain ⟨hfirst, hrest⟩ := List.forall_mem_cons.mp h
    obtain ⟨kept, hkept, hmem, hnull⟩ := ih hrest
    obtain ⟨fields, rfl⟩ : ∃ fields, first = .object fields := by
      cases hfirst <;> exact ⟨_, rfl⟩
    by_cases htype : Entries.get? fields "type" = some (.text "null")
    · refine ⟨kept, by simp [alternatives, isAlternative, htype, hkept], ?_, fun hnil => ?_⟩
      · exact fun option hoption => List.mem_cons_of_mem _ (hmem option hoption)
      · exact List.forall_mem_cons.mpr ⟨⟨fields, rfl, htype⟩, hnull hnil⟩
    · refine ⟨.object fields :: kept, ?_, ?_, nofun⟩
      · simp [alternatives, isAlternative, htype, hkept]
      · exact List.forall_mem_cons.mpr
          ⟨List.mem_cons_self, fun option hoption => List.mem_cons_of_mem _ (hmem option hoption)⟩

theorem get?_of_options {key : String} (hkey : key ∈ combinators)
    (hkeys : fields.OnlyKeys (key :: notes)) {other : String}
    (hother : other ∈ [refKey, "type", "items", "properties", "required"]) :
    fields.get? other = none :=
  hkeys.get?_eq_none ((by decide : ∀ key ∈ combinators,
    ∀ other ∈ [refKey, "type", "items", "properties", "required"], other ∉ key :: notes)
      key hkey other hother)

theorem get?_of_options_ne {key : String} (hkeys : fields.OnlyKeys (key :: notes)) {other : String}
    (hother : other ∈ combinators) (hne : other ≠ key) : fields.get? other = none := by
  apply hkeys.get?_eq_none
  rw [List.mem_cons, not_or]
  exact ⟨hne, (by decide : ∀ other ∈ combinators, other ∉ notes) other hother⟩

theorem conforms_null (h : IsNode defs (.object fields))
    (htype : fields.get? "type" = some (.text "null")) : Conforms defs (.object fields) .null := by
  cases h with
  | reference _ hkeys => exact absurd (hkeys.mem htype) (by decide)
  | anything hkeys => exact absurd (hkeys.mem htype) (by decide)
  | scalar hkeys => exact conforms_of_scalar hkeys (hasType_of_get? htype .null)
  | array _ htype' => simp [htype'] at htype
  | object _ htype' => simp [htype'] at htype
  | options hkey hkeys => cases (get?_of_options hkey hkeys (by decide)).symm.trans htype

theorem firstAlternative?_of_only {keys : List String} {key : String} {options kept : List Value}
    (hkeys : keys.Nodup) (hkey : key ∈ keys)
    (honly : ∀ other ∈ keys, other ≠ key → fields.get? other = none)
    (hoptions : fields.get? key = some (.list options)) (hkept : alternatives options = .ok kept) :
    firstAlternative? fields keys = .ok kept.head? := by
  induction keys with
  | nil => cases hkey
  | cons first rest ih =>
    obtain ⟨hfirst, hrest⟩ := List.nodup_cons.mp hkeys
    obtain ⟨honlyFirst, honlyRest⟩ := List.forall_mem_cons.mp honly
    rcases List.mem_cons.mp hkey with rfl | hkey
    · have hlast : firstAlternative? fields rest = .ok none :=
        firstAlternative?_of_absent fun other hother =>
          honlyRest other hother fun heq => hfirst (heq ▸ hother)
      rw [firstAlternative?, hoptions]
      simp only [Option.getD_some, Value.parts, Value.parts?, hkept, hlast]
      cases kept <;> rfl
    · have hne : first ≠ key := fun heq => hfirst (heq ▸ hkey)
      rw [firstAlternative?, honlyFirst hne]
      exact ih hrest hkey honlyRest

theorem conforms_of_option {key : String} {options : List Value} (hkey : key ∈ combinators)
    (hkeys : fields.OnlyKeys (key :: notes)) (hoptions : fields.get? key = some (.list options))
    (hall : key = "allOf" → options.length = 1) {option v : Value} (hoption : option ∈ options)
    (hv : Conforms defs option v) : Conforms defs (.object fields) v := by
  have hsame : ∀ other ∈ combinators, ∀ others, fields.get? other = some (.list others) →
      others = options := by
    intro other hother others hothers
    by_cases heq : other = key
    · rw [heq, hoptions] at hothers
      cases hothers
      rfl
    · cases (get?_of_options_ne hkeys hother heq).symm.trans hothers
  refine .intro (fun _ => option) ?_ ?_ ?_ ?_ ?_ ?_ ?_ ?_
  · intro type h
    cases (get?_of_options hkey hkeys (by decide)).symm.trans h
  · intro item items h
    cases (get?_of_options hkey hkeys (by decide)).symm.trans h
  · intro names name h
    cases (get?_of_options hkey hkeys (by decide)).symm.trans h
  · intro properties name node w h
    cases (get?_of_options hkey hkeys (by decide)).symm.trans h
  · intro other hother others hothers
    rw [hsame other (List.mem_append_left _ hother) others hothers]
    exact hoption
  · intro other hother others hothers
    exact hv
  · intro others hothers other hother
    rw [hsame "allOf" (by decide) others hothers] at hother
    have hkeyAll := (List.mem_cons.mp (hkeys.mem hothers)).resolve_right (by decide)
    obtain ⟨only, honly⟩ := List.length_eq_one_iff.mp (hall hkeyAll.symm)
    rw [honly, List.mem_singleton] at hoption hother
    rw [hother, ← hoption]
    exact hv
  · intro name target h
    cases h with
    | intro href => cases (get?_of_options hkey hkeys (by decide)).symm.trans href

theorem exists_options {key : String} {options : List Value} (hkey : key ∈ combinators)
    (hkeys : fields.OnlyKeys (key :: notes)) (hoptions : fields.get? key = some (.list options))
    (hne : options ≠ []) (hnodes : ∀ option ∈ options, IsNode defs option)
    (hall : key = "allOf" → options.length = 1) (hgiven : Given defs fields)
    (hmake : ∀ option ∈ options, Exemplifies defs option (make option)) :
    Exemplifies defs (.object fields) (ofFields make fields) := by
  refine ofFields_of_given hgiven fun hexamples hdefault => ?_
  obtain ⟨kept, hkept, hmem, hnull⟩ := exists_alternatives hnodes
  have hfirst : firstAlternative? fields ["anyOf", "oneOf", "allOf"] = .ok kept.head? := by
    refine firstAlternative?_of_only (by decide) hkey (fun other hother hne => ?_) hoptions hkept
    exact get?_of_options_ne hkeys hother hne
  rw [ofFields, hexamples, hdefault, hfirst]
  cases kept with
  | nil =>
    obtain ⟨option, hoption⟩ := List.exists_mem_of_ne_nil _ hne
    obtain ⟨others, rfl, htype⟩ := hnull rfl option hoption
    have habsent : fields.get? "type" = none := get?_of_options hkey hkeys (by decide)
    have hnull := conforms_null (hnodes _ hoption) htype
    refine ⟨.null, ?_, conforms_of_option hkey hkeys hoptions hall hoption hnull⟩
    simp [ofType, habsent, Value.isFalsy]
  | cons option more =>
    have hoption := hmem option List.mem_cons_self
    obtain ⟨v, hv, hconforms⟩ := hmake option hoption
    refine ⟨v, ?_, conforms_of_option hkey hkeys hoptions hall hoption hconforms⟩
    simpa [Value.isFalsy] using hv

end

/-! ## Steps -/

theorem size_pos (v : Value) : 0 < size v := by
  cases v <;> simp [size]

theorem size_le_sizeFields {fields : List (String × Value)} {key : String} {v : Value}
    (h : (key, v) ∈ fields) : size v ≤ sizeFields fields := by
  induction fields with
  | nil => cases h
  | cons first rest ih =>
    rw [sizeFields]
    rcases List.mem_cons.mp h with rfl | h
    · exact Nat.le_add_right _ _
    · exact Nat.le_add_left_of_le (ih h)

theorem size_le_sizeItems {items : List Value} {v : Value} (h : v ∈ items) :
    size v ≤ sizeItems items := by
  induction items with
  | nil => cases h
  | cons first rest ih =>
    rw [sizeItems]
    rcases List.mem_cons.mp h with rfl | h
    · exact Nat.le_add_right _ _
    · exact Nat.le_add_left_of_le (ih h)

theorem size_lt_of_part {part : Value} (h : Part part node) : size part < size node := by
  cases h with
  | item h =>
    have hfield := size_le_sizeFields (Entries.mem_of_get? h)
    rw [size]
    omega
  | property h hmem =>
    have hproperty := size_le_sizeFields hmem
    have hfield := size_le_sizeFields (Entries.mem_of_get? h)
    simp only [size] at hfield ⊢
    omega
  | option _ h hmem =>
    have hoption := size_le_sizeItems hmem
    have hfield := size_le_sizeFields (Entries.mem_of_get? h)
    simp only [size] at hfield ⊢
    omega

theorem ofNode_fields {fuel : Nat} {fields : Entries Value} (h : fields.get? refKey = none) :
    ofNode (.object defs) (fuel + 1) (.object fields) =
      ofFields (fun node => ofNode (.object defs) fuel node) fields := by
  rw [ofNode, h]

theorem ofNode_reference {fuel : Nat} {name : String} {target : Value} (hname : RefersTo node name)
    (htarget : defs.get? name = some target) :
    ofNode (.object defs) (fuel + 1) node = ofNode (.object defs) fuel target := by
  cases hname with
  | intro href hpath hlast =>
    have hfound : (Value.object defs).atKey name = .ok target := by
      simp [Value.atKey, Value.partAt, Value.foundAt, Value.asKey, Value.unkeyed?, Value.text?,
        htarget]
    rw [ofNode, href]
    simp only [refName_append hpath hlast, hfound]

theorem conforms_of_target {fields : Entries Value} {name : String} {target v : Value}
    (hname : RefersTo (.object fields) name) (hkeys : fields.OnlyKeys (refKey :: notes))
    (htarget : defs.get? name = some target) (hv : Conforms defs target v) :
    Conforms defs (.object fields) v := by
  have habsent : ∀ key ∈ choices, key ∉ refKey :: notes := by decide
  refine .intro (fun _ => .null) ?_ ?_ ?_ ?_ ?_ ?_ ?_ ?_
  · intro type h
    exact absurd (hkeys.mem h) (by decide)
  · intro item items h
    exact absurd (hkeys.mem h) (by decide)
  · intro names name h
    exact absurd (hkeys.mem h) (by decide)
  · intro properties name node w h
    exact absurd (hkeys.mem h) (by decide)
  · intro key hkey options h
    exact absurd (hkeys.mem h) (habsent key hkey)
  · intro key hkey options h
    exact absurd (hkeys.mem h) (habsent key hkey)
  · intro options h
    exact absurd (hkeys.mem h) (by decide)
  · intro other others hother hothers
    obtain rfl := hname.unique hother
    obtain rfl : target = others := Option.some.inj (htarget.symm.trans hothers)
    exact hv

/-- The steps suffice for a node if they do for as many definitions as there are names left to refer
to, and for the node itself: a reference uses up its name, as it never comes back to it. -/
theorem exists_ofNode {left : List String} {fuel : Nat} (h : Sound defs node)
    (hleft : ∀ name, Reaches defs node name → name ∈ left)
    (hfuel : left.length * (sizeFields defs + 1) + size node ≤ fuel) :
    Exemplifies defs node (ofNode (.object defs) fuel node) := by
  induction fuel generalizing node left with
  | zero =>
    have hpos := size_pos node
    omega
  | succ fuel ih =>
    have hpart : ∀ part, Part part node → IsNode defs part →
        Exemplifies defs part (ofNode (.object defs) fuel part) := by
      intro part hpart hnode
      have hsize := size_lt_of_part hpart
      exact ih (h.part hpart hnode) (fun name hname => hleft name (.part hpart hname)) (by omega)
    cases h.isNode with
    | @reference _ name hname hkeys =>
      obtain ⟨target, htarget, -⟩ := h.resolves name (.here hname)
      have hrest : ∀ other, Reaches defs target other → other ∈ left.erase name := by
        intro other hother
        have hne : other ≠ name := by
          rintro rfl
          exact h.acyclic other target (.here hname) htarget hother
        exact (List.mem_erase_of_ne hne).mpr (hleft other (.through hname htarget hother))
      have hlength : left.length = (left.erase name).length + 1 := by
        have hmem := hleft name (.here hname)
        have hpos := List.length_pos_of_mem hmem
        rw [List.length_erase_of_mem hmem]
        omega
      have hsize := size_le_sizeFields (Entries.mem_of_get? htarget)
      rw [hlength, Nat.add_one_mul] at hfuel
      obtain ⟨v, hv, hconforms⟩ := ih (h.target hname htarget) hrest (by omega)
      exact ⟨v, (ofNode_reference hname htarget).trans hv,
        conforms_of_target hname hkeys htarget hconforms⟩
    | anything hkeys hgiven =>
      rw [ofNode_fields (hkeys.get?_eq_none (by decide))]
      exact exists_anything hkeys hgiven
    | scalar hkeys htype hscalar hgiven =>
      rw [ofNode_fields (hkeys.get?_eq_none (by decide))]
      exact exists_scalar hkeys htype hscalar hgiven
    | array hkeys htype hitems hgiven =>
      rw [ofNode_fields (hkeys.get?_eq_none (by decide))]
      refine exists_array hkeys htype hgiven ?_ fun item hitem => ?_
      · -- Its type alone makes the node larger than the empty one.
        have htypeSize := size_le_sizeFields (Entries.mem_of_get? htype)
        simp only [size] at hfuel htypeSize
        obtain ⟨fuel, rfl⟩ : ∃ less, fuel = less + 1 := Nat.exists_eq_add_one.mpr (by omega)
        rw [ofNode_fields rfl]
        exact ⟨.null, rfl⟩
      · exact hpart item (.item hitem) (hitems item hitem)
    | object hkeys htype hproperties hnodes hrequired hgiven =>
      rw [ofNode_fields (hkeys.get?_eq_none (by decide))]
      refine exists_object hkeys htype hgiven hproperties hrequired fun property hmem => ?_
      refine hpart property.2 ?_ (hnodes property hmem)
      cases hfound : Entries.get? _ "properties" with
      | none =>
        rw [hfound] at hproperties
        cases hproperties
        cases hmem
      | some found =>
        rw [hfound] at hproperties
        obtain rfl : found = .object _ := hproperties
        exact .property hfound hmem
    | options hkey hkeys hoptions hne hnodes hall hgiven =>
      rw [ofNode_fields (get?_of_options hkey hkeys (by decide))]
      refine exists_options hkey hkeys hoptions hne hnodes hall hgiven fun option hoption => ?_
      exact hpart option (.option hkey hoptions hoption) (hnodes option hoption)

theorem le_enoughFuel (defs : Entries Value) (node : Value) :
    defs.keys.length * (sizeFields defs + 1) + size node ≤ enoughFuel (.object defs) node := by
  have hmul : defs.length * (sizeFields defs + 1) ≤
      defs.length * (sizeFields defs + 1 + size node + 1) :=
    Nat.mul_le_mul_left _ (by omega)
  rw [Entries.keys, List.length_map, enoughFuel, size, Nat.add_one_mul]
  omega

/-- **Examples conform.**  For every node whose references lead to nodes, and never back to where
they were, an example is generated, and it conforms to the node. -/
theorem generate_conforms (h : Sound defs node) :
    ∃ v, generate node (.object defs) = .ok v ∧ Conforms defs node v := by
  have hleft : ∀ name, Reaches defs node name → name ∈ defs.keys := by
    intro name hname
    obtain ⟨target, htarget, -⟩ := h.resolves name hname
    exact List.mem_map_of_mem (Entries.mem_of_get? htarget)
  exact exists_ofNode h hleft (le_enoughFuel defs node)

/-- An array of integers, by a reference. -/
theorem generate_conforms_tallies :
    let tally := Value.object [("type", .text "integer")]
    let node := Value.object
      [("type", .text "array"), ("items", .object [("$ref", .text "#/$defs/Tally")])]
    generate node (.object [("Tally", tally)]) = .ok (.list [.int 42]) ∧
      Conforms [("Tally", tally)] node (.list [.int 42]) := by
  intro tally node
  have htally : Entries.OnlyKeys [("type", Value.text "integer")] ("type" :: notes) := by
    simp [Entries.OnlyKeys]
  have hreference : RefersTo (.object [("$ref", .text "#/$defs/Tally")]) "Tally" := by
    have href : Entries.get? [("$ref", Value.text "#/$defs/Tally")] refKey =
        some (.text ("#/$defs/" ++ "Tally")) := by decide
    exact .intro href (.inr ⟨"#/$defs", by decide⟩) (by decide)
  have hkeys : Entries.OnlyKeys [("$ref", Value.text "#/$defs/Tally")] (refKey :: notes) := by
    simp [Entries.OnlyKeys, refKey]
  have hreaches : ∀ name, Reaches [("Tally", tally)] node name → name = "Tally" := by
    intro name h
    obtain ⟨item, hitem, h⟩ := h.of_array (by simp [Entries.OnlyKeys])
    obtain rfl := Option.some.inj hitem
    rcases h.of_reference hkeys hreference with rfl | ⟨target, htarget, h⟩
    · rfl
    · obtain rfl := Option.some.inj htarget
      exact absurd h (not_reaches_of_scalar htally)
  have hnode : IsNode [("Tally", tally)] tally :=
    .scalar htally rfl (by decide) (.nothing rfl rfl)
  have hsound : Sound [("Tally", tally)] node := by
    refine ⟨.array (by simp [Entries.OnlyKeys]) rfl ?_ (.nothing rfl rfl), ?_, ?_⟩
    · intro item hitem
      obtain rfl := Option.some.inj hitem
      exact .reference hreference hkeys
    · intro name hname
      rw [hreaches name hname]
      exact ⟨tally, rfl, hnode⟩
    · intro name target hname htarget
      rw [hreaches name hname] at htarget
      obtain rfl := Option.some.inj htarget
      exact not_reaches_of_scalar htally
  have hgenerate : generate node (.object [("Tally", tally)]) = .ok (.list [.int 42]) := rfl
  obtain ⟨v, hv, hconforms⟩ := generate_conforms hsound
  obtain rfl : .list [.int 42] = v := Except.ok.inj (hgenerate.symm.trans hv)
  exact ⟨hgenerate, hconforms⟩

end JsonExample

end PromptChain
