import PromptChain.Record
import PromptChain.Value.Table
/-!
# Schemas

A schema says what a value should look like: to a program, which parses values with it, and to a
model, which is shown its description and an example.  Texts, numbers, truth values, arrays and
objects build the schemas of JSON data; records, and validations that a caller brings along, can
stand anywhere among them.  Descriptions and field names are texts as a rule, but kept as the data
that they were given as.
-/

namespace PromptChain

/-- A record model with what is shown of it: its name, its documentation, if it has some, and its
JSON schema. -/
structure RecordType where
  name : String
  documentation : Value := .null
  jsonSchema : Value
  model : RecordModel

structure Validation where
  kind : Value
  desc : Value := .null
  parse : Value → Except Fault Value
  example? : Value := .null

mutual

inductive Schema where
  | string (description : Value)
  | number (description : Value)
  | boolean (description : Value)
  | array (item : Schema) (described : Option Value)
  | object (fields : List (Value × Schema)) (described : Option Value)
  | record (type : RecordType) (description : Value)
  | validation (v : Validation)
  /-- A schema with a parser of its own; its example is made from its description. -/
  | made (kind description : Value) (parse : Value → Except Fault Value)
      (exampleOf : Value → Except Fault Value) (content : Content)

inductive Content where
  | none
  | schema (inner : Schema)
  | fields (fields : List (Value × Schema))

end

namespace Schema

def ofFields (fields : List (Value × Schema)) : Schema := .object (Table.ofPairs fields) none

def kind : Schema → Value
  | .string _ => .text "string"
  | .number _ => .text "number"
  | .boolean _ => .text "boolean"
  | .array .. => .text "array"
  | .object .. => .text "object"
  | .record .. => .text "object"
  | .validation v => v.kind
  | .made kind .. => kind

/-- A schema with another description.  Those of records and validations cannot be changed. -/
def describe (d : Value) : Schema → Except Fault Schema
  | .string _ => .ok (.string d)
  | .number _ => .ok (.number d)
  | .boolean _ => .ok (.boolean d)
  | .array item _ => .ok (.array item (some d))
  | .object fields _ => .ok (.object fields (some d))
  | .made kind _ parse exampleOf content => .ok (.made kind d parse exampleOf content)
  | .record .. => .error (.noMember "ModelSchema" "describe")
  | .validation _ => .error (.noMember "Custom" "describe")

mutual

/-- Whether a schema is built from texts, numbers, truth values, arrays and objects alone, with
texts for field names. -/
def isData : Schema → Bool
  | .string _ => true
  | .number _ => true
  | .boolean _ => true
  | .array item _ => isData item
  | .object fields _ => areData fields
  | _ => false

def areData : List (Value × Schema) → Bool
  | [] => true
  | (name, schema) :: rest => name.text?.isSome && isData schema && areData rest

end

end Schema

end PromptChain
