import PromptChain.Json.Writer
import PromptChain.Schema.Basic
/-!
# Parsing with schemas

Values that a model answered with are close to what was asked for at best.  Texts are trimmed,
numbers and truth values are read from texts, arrays and objects from JSON texts, and what an object
has besides its declared fields is left out.
-/

namespace PromptChain.Schema

/-- The JSON value of a text; every other value as it is. -/
def decode (expected : String) : Value → Except Fault Value
  | .text s => decoded (Json.read s)
  | .brokenText points => decoded (Json.readText points)
  | v => .ok v
where
  decoded : Except ReadFault Value → Except Fault Value
    | .ok v => .ok v
    | .error cause => .error (.mismatch (.notJson expected cause))

def parseString : Value → Except Fault Value
  | .text s => .ok (.text (Text.trim s))
  | .brokenText points => .ok (.ofPoints (Text.CodePoint.trim points))
  | .null => .error (.mismatch .absent)
  | .bool b => (Json.compact (.bool b)).map .text
  | .list items => (Json.compact (.list items)).map .text
  | .object fields => (Json.compact (.object fields)).map .text
  | .brokenObject keys items => (Json.compact (.brokenObject keys items)).map .text
  | v => v.plain.map fun cs => .text (String.ofList (Text.trimChars cs))

def notNumber (v : Value) : Except Fault Value :=
  match v.shown with
  | .error e => .error e
  | .ok shown => .error (.mismatch (.notNumber shown))

/-- Parses the text of a number: a numeral, up to blanks around it. -/
def parseNumberText (s : String) : Except Fault Value :=
  match Numeral.read? (Text.trimChars s.toList) with
  | none => notNumber (.text s)
  | some n =>
    if n.isInteger then
      if maxIntDigits < n.whole.length then .error (.longNumeral n.whole.length)
      else .ok (.int n.toInt)
    else if n.toBinary64.isFinite then .ok (.real n.toBinary64)
    else notNumber (.text s)

/-- Parses a number; truth values are none. -/
def parseNumber : Value → Except Fault Value
  | .int n => if (Binary64.ofInt n).isFinite then .ok (.int n) else .error .intTooLarge
  | .real x => if x.isFinite then .ok (.real x) else notNumber (.real x)
  | .text s => parseNumberText s
  | v => notNumber v

def notBoolean (v : Value) : Except Fault Value :=
  match v.shown with
  | .error e => .error e
  | .ok shown => .error (.mismatch (.notBoolean shown))

/-- Parses a truth value; numbers are true unless they are zero. -/
def parseBoolean : Value → Except Fault Value
  | .bool b => .ok (.bool b)
  | .text s =>
    let word := Text.lower (Text.trimChars s.toList)
    if word = ['t', 'r', 'u', 'e'] then .ok (.bool true)
    else if word = ['f', 'a', 'l', 's', 'e'] then .ok (.bool false)
    else notBoolean (.text s)
  | .int n => .ok (.bool (n ≠ 0))
  | .real x => .ok (.bool (!x.sameInt 0))
  | v => notBoolean v

/-- Parses every item of a list; the first failure is the outcome. -/
def parseItems (parse : Value → Except Fault Value) : List Value → Except Fault (List Value)
  | [] => .ok []
  | v :: rest =>
    match parse v with
    | .error e => .error e
    | .ok parsed =>
      match parseItems parse rest with
      | .error e => .error e
      | .ok more => .ok (parsed :: more)

def parseRecord (type : RecordType) (v : Value) : Except Fault Value :=
  match Record.read type.model v with
  | .ok parsed => .ok parsed
  | .error issues => .error (.mismatch (.invalidRecord issues))

def isObject : Value → Bool
  | .object _ => true
  | .brokenObject .. => true
  | _ => false

/-- The item of an object under the name of a field; only texts can be keys of an object. -/
def item? (v name : Value) : Option Value :=
  match v with
  | .object fields => name.text?.bind (Entries.get? fields)
  | .brokenObject keys items => List.lookup name ((keys.map Value.ofPoints).zip items)
  | _ => none

def objectOf (fields : List (Value × Value)) : Value :=
  match fields.mapM fun (name, v) => name.text?.map fun key => (key, v) with
  | some entries => .object entries
  | none => .brokenObject (fields.filterMap fun (name, _) => name.points?) (fields.map Prod.snd)

def missing {α : Type} (name : Value) : Except Fault α :=
  match name.plain with
  | .error e => .error e
  | .ok shown => .error (.mismatch (.missingKey (String.ofList shown)))

mutual

def parse : Schema → Value → Except Fault Value
  | .string _, v => parseString v
  | .number _, v => parseNumber v
  | .boolean _, v => parseBoolean v
  | .array item _, v =>
    match decode "array" v with
    | .error e => .error e
    | .ok (.list items) => (parseItems (fun x => parse item x) items).map .list
    | .ok _ => .error (.mismatch (.notA "array"))
  | .object fields _, v =>
    match decode "object" v with
    | .error e => .error e
    | .ok v =>
      if isObject v then (parseFields fields v).map objectOf
      else .error (.mismatch (.notA "object"))
  | .record type _, v => parseRecord type v
  | .validation external, v => external.parse v
  | .made _ _ own _ _, v => own v

/-- The declared fields of an object, parsed in the order of their declaration. -/
def parseFields : List (Value × Schema) → (v : Value) → Except Fault (List (Value × Value))
  | [], _ => .ok []
  | (name, schema) :: rest, v =>
    match item? v name with
    | none => missing name
    | some item =>
      match parse schema item with
      | .error e => .error e
      | .ok parsed =>
        match parseFields rest v with
        | .error e => .error e
        | .ok more => .ok ((name, parsed) :: more)

end

end PromptChain.Schema
