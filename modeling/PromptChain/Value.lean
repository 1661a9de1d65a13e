import PromptChain.Entries
import PromptChain.Number.Binary64
import PromptChain.Text.CodePoint
/-!
# Values

The data that prompts, hooks and providers exchange: JSON data, and three kinds that JSON has no
form for, namely strings of bytes, tuples, and records of a named model.  Texts in which a surrogate
stands alone, and objects with such a key, are JSON data too, but no strings hold them, so that they
have forms of their own.

The keys of objects are texts.  Objects with other keys have no form here: neither those that are
written all the same, with numbers, truth values or null for keys, nor those that cannot be written
because of their keys, such as tuples or bytes.
-/

namespace PromptChain

open Text (CodePoint)

inductive Value where
  | null
  | bool (b : Bool)
  | int (n : Int)
  | real (x : Binary64)
  | text (s : String)
  /-- A text in which some surrogate stands alone. -/
  | brokenText (points : List CodePoint)
  | bytes (content : List UInt8)
  | tuple (items : List Value)
  | list (items : List Value)
  | object (fields : List (String × Value))
  /-- An object with a broken text among its keys: the keys, and the items in their order. -/
  | brokenObject (keys : List (List CodePoint)) (items : List Value)
  | record (model : String) (fields : List (String × Value))
  deriving Inhabited

namespace Value

mutual

def beq : Value → Value → Bool
  | .null, .null => true
  | .bool a, .bool b => a = b
  | .int a, .int b => a = b
  | .real a, .real b => a = b
  | .text a, .text b => a = b
  | .brokenText a, .brokenText b => a = b
  | .bytes a, .bytes b => a = b
  | .tuple a, .tuple b => beqItems a b
  | .list a, .list b => beqItems a b
  | .object a, .object b => beqFields a b
  | .brokenObject k a, .brokenObject l b => k = l && beqItems a b
  | .record m a, .record n b => m = n && beqFields a b
  | _, _ => false

def beqItems : List Value → List Value → Bool
  | [], [] => true
  | a :: as, b :: bs => beq a b && beqItems as bs
  | _, _ => false

def beqFields : List (String × Value) → List (String × Value) → Bool
  | [], [] => true
  | (k, a) :: as, (l, b) :: bs => k = l && beq a b && beqFields as bs
  | _, _ => false

end

mutual

private theorem eq_of_beq (a b : Value) (h : beq a b = true) : a = b := by
  cases a <;> cases b <;> simp only [beq, Bool.false_eq_true, decide_eq_true_eq,
    Bool.and_eq_true] at h <;> try (first | rfl | (subst h; rfl))
  · rw [eq_of_beqItems _ _ h]
  · rw [eq_of_beqItems _ _ h]
  · rw [eq_of_beqFields _ _ h]
  · rw [h.1, eq_of_beqItems _ _ h.2]
  · rw [h.1, eq_of_beqFields _ _ h.2]

private theorem eq_of_beqItems (as bs : List Value) (h : beqItems as bs = true) : as = bs := by
  match as, bs with
  | [], [] => rfl
  | [], _ :: _ => simp [beqItems] at h
  | _ :: _, [] => simp [beqItems] at h
  | a :: as, b :: bs =>
    simp only [beqItems, Bool.and_eq_true] at h
    rw [eq_of_beq a b h.1, eq_of_beqItems as bs h.2]

private theorem eq_of_beqFields (as bs : List (String × Value)) (h : beqFields as bs = true) :
    as = bs := by
  match as, bs with
  | [], [] => rfl
  | [], _ :: _ => simp [beqFields] at h
  | _ :: _, [] => simp [beqFields] at h
  | (k, a) :: as, (l, b) :: bs =>
    simp only [beqFields, Bool.and_eq_true, decide_eq_true_eq] at h
    rw [h.1.1, eq_of_beq a b h.1.2, eq_of_beqFields as bs h.2]

end

mutual

private theorem beq_refl (a : Value) : beq a a = true := by
  cases a <;> simp [beq]
  · exact beqItems_refl _
  · exact beqItems_refl _
  · exact beqFields_refl _
  · exact beqItems_refl _
  · exact beqFields_refl _

private theorem beqItems_refl (as : List Value) : beqItems as as = true := by
  match as with
  | [] => rfl
  | a :: as => simp [beqItems, beq_refl a, beqItems_refl as]

private theorem beqFields_refl (as : List (String × Value)) : beqFields as as = true := by
  match as with
  | [] => rfl
  | (_, a) :: as => simp [beqFields, beq_refl a, beqFields_refl as]

end

instance : DecidableEq Value := fun a b =>
  if h : beq a b = true then isTrue (eq_of_beq a b h)
  else isFalse fun heq => h (heq ▸ beq_refl a)

def kind : Value → String
  | .null => "NoneType"
  | .bool _ => "bool"
  | .int _ => "int"
  | .real _ => "float"
  | .text _ => "str"
  | .brokenText _ => "str"
  | .bytes _ => "bytes"
  | .tuple _ => "tuple"
  | .list _ => "list"
  | .object _ => "dict"
  | .brokenObject .. => "dict"
  | .record model _ => model

def ofPoints (points : List CodePoint) : Value :=
  match CodePoint.chars? points with
  | some cs => .text (String.ofList cs)
  | none => .brokenText points

theorem ofPoints_ofChars (cs : List Char) :
    ofPoints (CodePoint.ofChars cs) = .text (String.ofList cs) := by
  rw [ofPoints, CodePoint.chars?_ofChars]

theorem ofPoints_ofText (s : String) : ofPoints (CodePoint.ofText s) = .text s := by
  rw [CodePoint.ofText, ofPoints_ofChars, String.ofList_toList]

def text? : Value → Option String
  | .text s => some s
  | _ => none

def points? : Value → Option (List CodePoint)
  | .text s => some (CodePoint.ofText s)
  | .brokenText points => some points
  | _ => none

/-- The fields of an object, except for those under broken keys. -/
def entries? : Value → Option (Entries Value)
  | .object fields => some fields
  | .brokenObject keys items =>
    some ((keys.zip items).filterMap fun (key, item) => (ofPoints key).text?.map fun s => (s, item))
  | _ => none

/-- The integer that a value is; truth values count as 0 and 1. -/
def int? : Value → Option Int
  | .int n => some n
  | .bool b => some (if b then 1 else 0)
  | _ => none

/-- A value that counts as nothing: null, false, zero, and what is empty. -/
def isFalsy : Value → Bool
  | .null => true
  | .bool b => !b
  | .int n => n = 0
  | .real x => x.sameInt 0
  | .text s => s.isEmpty
  | .brokenText points => points.isEmpty
  | .bytes content => content.isEmpty
  | .tuple items => items.isEmpty
  | .list items => items.isEmpty
  | .object fields => fields.isEmpty
  | .brokenObject keys _ => keys.isEmpty
  | .record _ _ => false

def sameAsInt (n : Int) : Value → Bool
  | .bool b => n = (if b then 1 else 0)
  | .int k => n = k
  | .real x => x.sameInt n
  | _ => false

mutual

/-- Equality of meaning: numbers of all kinds compare by value, and the order of an object's fields
does not count. -/
def same : Value → Value → Bool
  | .null, .null => true
  | .bool a, other => sameAsInt (if a then 1 else 0) other
  | .int a, other => sameAsInt a other
  | .real a, .bool b => a.sameInt (if b then 1 else 0)
  | .real a, .int b => a.sameInt b
  | .real a, .real b => a.same b
  | .text a, .text b => a = b
  | .brokenText a, .brokenText b => a = b
  | .bytes a, .bytes b => a = b
  | .tuple a, .tuple b => sameItems a b
  | .list a, .list b => sameItems a b
  | .object a, .object b => a.length = b.length && sameFields a b
  | .brokenObject k a, .brokenObject l b => k.length = l.length && sameKeyed k (l.zip b) a
  | .record m a, .record n b => m = n && a.length = b.length && sameFields a b
  | _, _ => false

def sameItems : List Value → List Value → Bool
  | [], [] => true
  | a :: as, b :: bs => same a b && sameItems as bs
  | _, _ => false

def sameFields : List (String × Value) → List (String × Value) → Bool
  | [], _ => true
  | (k, a) :: as, bs =>
    (match Entries.get? bs k with
      | some b => same a b
      | none => false)
    && sameFields as bs

/-- Equality of meaning of items under keys and other items. -/
def sameKeyed (keys : List (List CodePoint)) (others : List (List CodePoint × Value)) :
    List Value → Bool
  | [] => true
  | a :: as =>
    (match keys.head?.bind fun key => List.lookup key others with
      | some b => same a b
      | none => false)
    && sameKeyed keys.tail others as

end

/-- What a record consists of, one after the other: its fields, each with its name. -/
def pairItems (fields : List (String × Value)) : List Value :=
  fields.map fun (name, item) => .tuple [.text name, item]

def ofText? (s : Option String) : Value := (s.map .text).getD .null

end Value

end PromptChain
