import PromptChain.Json.Writer
/-!
# What can be written

Where JSON has no form for a value its literal stands in, so that nothing is left that cannot be
written but integers with too many digits: a value has a text exactly if it holds none of them
(`lenient_told`).
-/

namespace PromptChain

namespace Value

mutual

/-- Whether no integer in a value has more digits than a text may hold. -/
def isWritable : Value → Bool
  | .int n => !isLongInt n
  | .tuple items => areWritable items
  | .list items => areWritable items
  | .brokenObject _ items => areWritable items
  | .object fields => haveWritable fields
  | .record _ fields => haveWritable fields
  | _ => true

def areWritable : List Value → Bool
  | [] => true
  | item :: rest => item.isWritable && areWritable rest

def haveWritable : List (String × Value) → Bool
  | [] => true
  | (_, item) :: rest => item.isWritable && haveWritable rest

end

end Value

/-- A result that is there if something can be written, and is missing for the digits of an integer
if not. -/
inductive Told {α : Type} : (writable : Bool) → Except Fault α → Prop
  | ok (told : α) : Told true (.ok told)
  | error : Told false (.error .longInteger)

namespace Told

variable {α β γ : Type} {writable other : Bool} {result : Except Fault α}

theorem map (h : Told writable result) (f : α → β) : Told writable (result.map f) := by
  cases h with
  | ok told => exact ok (f told)
  | error => exact error

theorem both (h : Told writable result) {next : Except Fault β} (hnext : Told other next)
    (f : α → β → γ) :
    Told (writable && other) (result.bind fun told => next.map fun more => f told more) := by
  cases h with
  | ok told => exact hnext.map (f told)
  | error => exact error

theorem exists_iff (h : Told writable result) : (∃ told, result = .ok told) ↔ writable = true := by
  cases h with
  | ok told => exact iff_of_true ⟨told, rfl⟩ rfl
  | error => exact iff_of_false (fun ⟨_, htold⟩ => nomatch htold) Bool.false_ne_true

theorem eq_false (h : Told writable result) {e : Fault} (he : result = .error e) :
    writable = false := by
  cases h with
  | ok told => nomatch he
  | error => rfl

end Told

theorem intText_told (n : Int) : Told (!isLongInt n) (intText n) := by
  rw [intText]
  cases isLongInt n with
  | true => exact .error
  | false => exact .ok _

namespace Value

theorem literalItems_cons (item : Value) (rest : List Value) :
    literalItems (item :: rest) =
      item.literal.bind fun shown => (literalItems rest).map fun more => shown :: more := by
  rw [literalItems]
  cases item.literal with
  | error e => rfl
  | ok shown => cases literalItems rest <;> rfl

theorem literalFields_cons (label : String → List Char) (key : String) (item : Value)
    (rest : List (String × Value)) :
    literalFields label ((key, item) :: rest) =
      item.literal.bind fun shown =>
        (literalFields label rest).map fun more => (label key ++ shown) :: more := by
  rw [literalFields]
  cases item.literal with
  | error e => rfl
  | ok shown => cases literalFields label rest <;> rfl

mutual

theorem literal_told (v : Value) : Told v.isWritable v.literal := by
  cases v with
  | bool b => cases b <;> exact .ok _
  | int n => exact intText_told n
  | tuple items =>
    rw [literal, isWritable]
    refine (literalItems_told items).casesOn (fun shown => ?_) .error
    rcases shown with _ | ⟨one, _ | ⟨two, more⟩⟩ <;> exact .ok _
  | list items =>
    rw [literal, isWritable]
    exact (literalItems_told items).casesOn (fun shown => .ok _) .error
  | brokenObject keys items =>
    rw [literal, isWritable]
    exact (literalItems_told items).casesOn (fun shown => .ok _) .error
  | object fields =>
    rw [literal, isWritable]
    exact (literalFields_told _ fields).casesOn (fun shown => .ok _) .error
  | record model fields =>
    rw [literal, isWritable]
    exact (literalFields_told _ fields).casesOn (fun shown => .ok _) .error
  | _ => exact .ok _

theorem literalItems_told (items : List Value) :
    Told (areWritable items) (literalItems items) := by
  match items with
  | [] => exact .ok _
  | item :: rest =>
    rw [areWritable, literalItems_cons]
    exact (literal_told item).both (literalItems_told rest) _

theorem literalFields_told (label : String → List Char) (fields : List (String × Value)) :
    Told (haveWritable fields) (literalFields label fields) := by
  match fields with
  | [] => exact .ok _
  | (key, item) :: rest =>
    rw [haveWritable, literalFields_cons]
    exact (literal_told item).both (literalFields_told label rest) _

end

end Value

namespace Json

open Value

section

variable (layout : Layout) (foreign : Substitute) (depth : Nat)

theorem encodeItems_cons (item : Value) (rest : List Value) :
    encodeItems layout foreign depth (item :: rest) =
      (encode layout foreign depth item).bind fun written =>
        (encodeItems layout foreign depth rest).map fun more => written :: more := by
  rw [encodeItems]
  cases encode layout foreign depth item with
  | error e => rfl
  | ok written => cases encodeItems layout foreign depth rest <;> rfl

theorem encodeFields_cons (key : String) (item : Value) (rest : List (String × Value)) :
    encodeFields layout foreign depth ((key, item) :: rest) =
      (encode layout foreign depth item).bind fun written =>
        (encodeFields layout foreign depth rest).map fun more =>
          field (string key.toList) written :: more := by
  rw [encodeFields]
  cases encode layout foreign depth item with
  | error e => rfl
  | ok written => cases encodeFields layout foreign depth rest <;> rfl

end

mutual

theorem encode_told (layout : Layout) (depth : Nat) (v : Value) :
    Told v.isWritable (encode layout quoteLiteral depth v) := by
  cases v with
  | bool b => cases b <;> exact .ok _
  | int n => exact intText_told n
  | tuple items =>
    rw [encode, isWritable]
    exact (encodeItems_told layout (depth + 1) items).map _
  | list items =>
    rw [encode, isWritable]
    exact (encodeItems_told layout (depth + 1) items).map _
  | brokenObject keys items =>
    rw [encode, isWritable]
    exact (encodeItems_told layout (depth + 1) items).map _
  | object fields =>
    rw [encode, isWritable]
    exact (encodeFields_told layout (depth + 1) fields).map _
  | bytes content => exact (literal_told (.bytes content)).map string
  | record model fields => exact (literal_told (.record model fields)).map string
  | _ => exact .ok _

theorem encodeItems_told (layout : Layout) (depth : Nat) (items : List Value) :
    Told (areWritable items) (encodeItems layout quoteLiteral depth items) := by
  match items with
  | [] => exact .ok _
  | item :: rest =>
    rw [areWritable, encodeItems_cons]
    exact (encode_told layout depth item).both (encodeItems_told layout depth rest) _

theorem encodeFields_told (layout : Layout) (depth : Nat) (fields : List (String × Value)) :
    Told (haveWritable fields) (encodeFields layout quoteLiteral depth fields) := by
  match fields with
  | [] => exact .ok _
  | (key, item) :: rest =>
    rw [haveWritable, encodeFields_cons]
    exact (encode_told layout depth item).both (encodeFields_told layout depth rest) _

end

/-- **A value is written exactly if it holds no long integer.** -/
theorem lenient_told (v : Value) : Told v.isWritable (lenient v) :=
  (encode_told .line 0 v).map String.ofList

end Json

end PromptChain
