import PromptChain.Json.Writer
import PromptChain.Schema.Basic
import PromptChain.Schema.JsonExample
/-!
# Examples of schemas

A value that a schema accepts, to be shown beside its description.  Arrays and objects give theirs
as indented JSON text; inside another one such a text is embedded as the JSON that it is.
-/

namespace PromptChain.Schema

/-- A text that is JSON as the value it denotes; every other value as it is. -/
def embedded (v : Value) : Value :=
  match v.points?.map Json.readText with
  | some (.ok read) => read
  | _ => v

def recordExample (type : RecordType) : Except Fault Value :=
  let definitions : Except Fault Value :=
    match type.jsonSchema with
    | .object fields => .ok ((Entries.get? fields "$defs").getD (.object []))
    | v => .error (.noMember v.kind "get")
  match definitions with
  | .error e => .error e
  | .ok definitions =>
    match JsonExample.generate type.jsonSchema definitions with
    | .error e => .error e
    | .ok v => (Json.pretty v).map .text

mutual

def exampleOf : Schema → Except Fault Value
  | .string _ => .ok (.text JsonExample.exampleText)
  | .number _ => .ok (.int JsonExample.exampleNumber)
  | .boolean _ => .ok (.bool JsonExample.exampleBoolean)
  | .array item _ =>
    match exampleOf item with
    | .error e => .error e
    | .ok v => (Json.pretty (.list [embedded v])).map .text
  | .object fields _ =>
    match exampleFields fields with
    | .error e => .error e
    | .ok shown => (Json.prettyKeyed shown).map .text
  | .record type _ => recordExample type
  | .validation v => .ok v.example?
  | .made _ description _ exampleOf _ => exampleOf description

def exampleFields : List (Value × Schema) → Except Fault (List (Value × Value))
  | [] => .ok []
  | (key, schema) :: rest =>
    match exampleOf schema with
    | .error e => .error e
    | .ok v =>
      match exampleFields rest with
      | .error e => .error e
      | .ok more => .ok ((key, embedded v) :: more)

end

def partOf (key : Value) : Except ReadFault Value → Except Fault Value
  | .ok v => v.partAt key
  | .error (.longInteger digits) => .error (.longNumeral digits)
  | .error cause => .error (.notJson cause)

/-- A validation that reads a JSON text, or bytes that encode one, and takes the part at a key. -/
def jsonPart (key : Value) : Value → Except Fault Value
  | .text s => partOf key (Json.read s)
  | .brokenText points => partOf key (Json.readText points)
  | .bytes content =>
    match Text.decode content with
    | .ok points => partOf key (Json.readPoints points)
    | .error why => .error (.undecodable why)
  | v => .error (.notEncodedText v.kind)

end PromptChain.Schema
