import PromptChain.Json.Writer
import PromptChain.Schema.Basic
import PromptChain.Value.Access
/-!
# Descriptions of schemas

The text by which a model is told what to answer.  Objects list their fields with the field names in
quotes, each level two spaces deeper; arrays enclose the description of their items in brackets.
-/

namespace PromptChain.Schema

def labelled (kind description : Value) : Except Fault (List Char) :=
  match kind.plain with
  | .error e => .error e
  | .ok kind => description.plain.map fun d => kind ++ ':' :: ' ' :: d

def arrayOf (item : List Char) : List Char := "array of [".toList ++ item ++ [']']

/-- The fields of an object in braces; `indent` is the indentation of the closing one. -/
def braced (indent : List Char) (fields : List (List Char)) : List Char :=
  '\x7b' :: '\n' :: joinChars [',', '\n'] fields ++ '\n' :: indent ++ ['\x7d']

def titled (indent : List Char) (description : Value) (fields : List Char) :
    Except Fault (List Char) :=
  description.plain.map fun d =>
    Text.trimChars (indent ++ ' ' :: d ++ '\n' :: indent ++ fields)

def objectText : Value := .text "Object"

def firstOf (a b other : Value) : Value :=
  if !a.isFalsy then a else if !b.isFalsy then b else other

/-- The description of a record type: its own text, else its documentation, else its name. -/
def recordText (type : RecordType) (description : Value) : Value :=
  firstOf description type.documentation (.text type.name)

/-- The description of a record type with its JSON schema.  There is none if it is no text. -/
def recordDesc? (type : RecordType) (description : Value) : Except Fault (Option (List Char)) :=
  match (recordText type description).trimmed with
  | .error _ => .ok none
  | .ok text =>
    match text.plain with
    | .error e => .error e
    | .ok shown =>
      (Json.encode .indented Json.refuse 0 type.jsonSchema).map fun written =>
        some (shown ++ '\n' :: written)

def recordDesc (type : RecordType) (description : Value) : Except Fault (List Char) :=
  (recordDesc? type description).map fun desc => desc.getD "object".toList

def validationDesc (v : Validation) : Except Fault Value :=
  if v.desc = .null then v.kind.plain.map fun kind => .text (String.ofList kind) else .ok v.desc

def madeLiteral (kind description : Value) : Except Fault (List Char) :=
  match kind.literal with
  | .error e => .error e
  | .ok kind =>
    description.literal.map fun d =>
      "Schema(type=".toList ++ kind ++ ", description=".toList ++ d ++ [')']

def fieldLine (indent name : List Char) (shown : List Char) : List Char :=
  indent ++ '"' :: name ++ '"' :: ':' :: ' ' :: shown

mutual

def nested (indent : List Char) : Schema → Except Fault (List Char)
  | .string d => labelled (.text "string") d
  | .number d => labelled (.text "number") d
  | .boolean d => labelled (.text "boolean") d
  | .array item _ => (nested (indent ++ [' ', ' ']) item).map arrayOf
  | .object fields described =>
    match nestedFields (indent ++ [' ', ' ']) fields with
    | .error e => .error e
    | .ok shown => titled indent (described.getD objectText) (braced indent shown)
  | .record type d => recordDesc type d
  | .validation v => (validationDesc v).bind Value.plain
  | .made kind d _ _ content =>
    if kind = .text "object" then
      match nestedContent indent content with
      | .error e => .error e
      | .ok shown => titled indent d shown
    else if kind = .text "array" then
      (nestedContent (indent ++ [' ', ' ']) content).map arrayOf
    else labelled kind d

def nestedContent (indent : List Char) : Content → Except Fault (List Char)
  | .none => .ok "None".toList
  | .schema inner => nested indent inner
  | .fields fields =>
    (nestedFields (indent ++ [' ', ' ']) fields).map (braced indent)

def nestedFields (indent : List Char) :
    List (Value × Schema) → Except Fault (List (List Char))
  | [] => .ok []
  | (key, schema) :: rest =>
    match key.plain with
    | .error e => .error e
    | .ok name =>
      match nested indent schema with
      | .error e => .error e
      | .ok shown =>
        match nestedFields indent rest with
        | .error e => .error e
        | .ok more => .ok (fieldLine indent name shown :: more)

end

def ofChars (cs : Except Fault (List Char)) : Except Fault Value :=
  cs.map fun cs => .text (String.ofList cs)

mutual

/-- The description of a schema on its own; a schema that has none is described by its kind. -/
def descOrKind : Schema → Except Fault Value
  | .string d => ofChars (labelled (.text "string") d)
  | .number d => ofChars (labelled (.text "number") d)
  | .boolean d => ofChars (labelled (.text "boolean") d)
  | .array item _ => ofChars ((descChars item).map arrayOf)
  | .object fields _ =>
    ofChars ((nestedFields [' ', ' '] fields).map (braced []))
  | .record type d => ofChars (recordDesc type d)
  | .validation v => validationDesc v
  | .made kind d _ _ content =>
    match content with
    | .none => ofChars (labelled kind d)
    | .schema inner =>
      if kind = .text "array" then ofChars ((descChars inner).map arrayOf)
      else
        match inner with
        | .validation v => validationDesc v
        | inner => ofChars (nested [] inner)
    | .fields fields =>
      if kind = .text "array" then
        ofChars ((literals fields).map fun shown =>
          arrayOf ('\x7b' :: joinChars Value.literalSeparator shown ++ ['\x7d']))
      else ofChars (nestedContent [] (.fields fields))

def descChars : Schema → Except Fault (List Char)
  | schema => (descOrKind schema).bind Value.plain

def description : Schema → Except Fault Value
  | .string d => .ok d
  | .number d => .ok d
  | .boolean d => .ok d
  | .array item described =>
    match described with
    | some d => .ok d
    | none => ofChars ((descChars item).map fun desc => '[' :: desc ++ [']'])
  | .object _ described => .ok (described.getD objectText)
  | .record type d => .ok (recordText type d)
  | .validation v => .ok (if v.desc = .null then v.kind else v.desc)
  | .made _ d _ _ _ => .ok d

def literals : List (Value × Schema) → Except Fault (List (List Char))
  | [] => .ok []
  | (key, schema) :: rest =>
    match key.literal with
    | .error e => .error e
    | .ok name =>
      match (description schema).bind fun d => madeLiteral schema.kind d with
      | .error e => .error e
      | .ok shown =>
        match literals rest with
        | .error e => .error e
        | .ok more => .ok ((name ++ ':' :: ' ' :: shown) :: more)

end

def desc (schema : Schema) : Except Fault Value :=
  match schema with
  | .validation v => .ok v.desc
  | .record type d =>
    (recordDesc? type d).map fun desc => Value.ofText? (desc.map String.ofList)
  | schema => descOrKind schema

def literal (schema : Schema) : Except Fault String :=
  ((description schema).bind fun d => madeLiteral schema.kind d).map String.ofList

end PromptChain.Schema
