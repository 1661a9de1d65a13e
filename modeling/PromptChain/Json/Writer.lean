import PromptChain.Value.Literal
/-!
# Writing JSON

Values as JSON text in two layouts: on one line, or with every item on a line of its own, two spaces
deeper than what contains it.  All text is ASCII; tuples are written as arrays; what JSON has no
form for is handed to the caller.
-/

namespace PromptChain.Json

inductive Layout where
  | line
  | indented
  deriving DecidableEq, Repr

def newLine (depth : Nat) : List Char := '\n' :: List.replicate (2 * depth) ' '

def Layout.edge : Layout → (depth : Nat) → List Char
  | .line, _ => []
  | .indented, depth => newLine depth

def Layout.separator : Layout → (depth : Nat) → List Char
  | .line, _ => [',', ' ']
  | .indented, depth => ',' :: newLine depth

def unitEscape (unit : Nat) : List Char := '\\' :: 'u' :: Text.hexDigits 4 unit

def stringChar (c : Char) : List Char :=
  if c = '"' then ['\\', '"']
  else if c = '\\' then ['\\', '\\']
  else if c = '\n' then ['\\', 'n']
  else if c = '\r' then ['\\', 'r']
  else if c = '\t' then ['\\', 't']
  else if c = '\x08' then ['\\', 'b']
  else if c = '\x0c' then ['\\', 'f']
  else if 32 ≤ c.toNat && c.toNat < 127 then [c]
  else if c.toNat < 0x10000 then unitEscape c.toNat
  else
    let offset := c.toNat - 0x10000
    unitEscape (0xd800 + offset / 0x400) ++ unitEscape (0xdc00 + offset % 0x400)

def string (cs : List Char) : List Char := '"' :: cs.flatMap stringChar ++ ['"']

def stringPoint : Text.CodePoint → List Char
  | .char c => stringChar c
  | .surrogate offset => unitEscape (Text.CodePoint.unitOf offset)

def pointString (points : List Text.CodePoint) : List Char :=
  '"' :: points.flatMap stringPoint ++ ['"']

def field (name written : List Char) : List Char := name ++ ':' :: ' ' :: written

def number : Binary64 → List Char
  | .nan => ['N', 'a', 'N']
  | .infinite false => ['I', 'n', 'f', 'i', 'n', 'i', 't', 'y']
  | .infinite true => ['-', 'I', 'n', 'f', 'i', 'n', 'i', 't', 'y']
  | .finite negative m q _ => Binary64.finiteChars negative m q

/-- Items between brackets; nothing stands between the brackets of an empty list. -/
def enclose (layout : Layout) (depth : Nat) (left right : Char) (items : List (List Char)) :
    List Char :=
  match items with
  | [] => [left, right]
  | _ =>
    left :: layout.edge (depth + 1) ++ joinChars (layout.separator (depth + 1)) items
      ++ layout.edge depth ++ [right]

/-- What stands in for a value that JSON has no form for. -/
abbrev Substitute := Value → Except Fault (List Char)

def refuse : Substitute := fun v => .error (.notEncodable v.kind)

def quoteLiteral : Substitute := fun v => v.literal.map string

mutual

def encode (layout : Layout) (foreign : Substitute) (depth : Nat) : Value → Except Fault (List Char)
  | .null => .ok ['n', 'u', 'l', 'l']
  | .bool true => .ok ['t', 'r', 'u', 'e']
  | .bool false => .ok ['f', 'a', 'l', 's', 'e']
  | .int n => intText n
  | .real x => .ok (number x)
  | .text s => .ok (string s.toList)
  | .brokenText points => .ok (pointString points)
  | .tuple items =>
    (encodeItems layout foreign (depth + 1) items).map (enclose layout depth '[' ']')
  | .list items =>
    (encodeItems layout foreign (depth + 1) items).map (enclose layout depth '[' ']')
  | .object fields =>
    (encodeFields layout foreign (depth + 1) fields).map (enclose layout depth '\x7b' '\x7d')
  | .brokenObject keys items =>
    (encodeItems layout foreign (depth + 1) items).map fun written =>
      enclose layout depth '\x7b' '\x7d' ((keys.map pointString).zipWith field written)
  | .bytes content => foreign (.bytes content)
  | .record model fields => foreign (.record model fields)

def encodeItems (layout : Layout) (foreign : Substitute) (depth : Nat) :
    List Value → Except Fault (List (List Char))
  | [] => .ok []
  | item :: rest =>
    match encode layout foreign depth item with
    | .error e => .error e
    | .ok written =>
      match encodeItems layout foreign depth rest with
      | .error e => .error e
      | .ok more => .ok (written :: more)

def encodeFields (layout : Layout) (foreign : Substitute) (depth : Nat) :
    List (String × Value) → Except Fault (List (List Char))
  | [] => .ok []
  | (key, item) :: rest =>
    match encode layout foreign depth item with
    | .error e => .error e
    | .ok written =>
      match encodeFields layout foreign depth rest with
      | .error e => .error e
      | .ok more => .ok (field (string key.toList) written :: more)

end

/-- The JSON string for the name of a field under which a value stands as a key: a text is itself,
and null, truth values and numbers are their JSON text. -/
def fieldName : Value → Except Fault (List Char)
  | .text s => .ok (string s.toList)
  | .brokenText points => .ok (pointString points)
  | .null => .ok (string ['n', 'u', 'l', 'l'])
  | .bool true => .ok (string ['t', 'r', 'u', 'e'])
  | .bool false => .ok (string ['f', 'a', 'l', 's', 'e'])
  | .int n => (intText n).map string
  | .real x => .ok (string (number x))
  | v => .error (.notFieldName v.kind)

def encodeKeyed (layout : Layout) (foreign : Substitute) (depth : Nat) :
    List (Value × Value) → Except Fault (List (List Char))
  | [] => .ok []
  | (key, item) :: rest =>
    match fieldName key with
    | .error e => .error e
    | .ok name =>
      match encode layout foreign depth item with
      | .error e => .error e
      | .ok written =>
        match encodeKeyed layout foreign depth rest with
        | .error e => .error e
        | .ok more => .ok (field name written :: more)

def compact (v : Value) : Except Fault String :=
  (encode .line refuse 0 v).map String.ofList

def pretty (v : Value) : Except Fault String :=
  (encode .indented refuse 0 v).map String.ofList

def prettyKeyed (entries : List (Value × Value)) : Except Fault String :=
  (encodeKeyed .indented refuse 1 entries).map fun written =>
    String.ofList (enclose .indented 0 '\x7b' '\x7d' written)

/-- A value as JSON on one line, with literals for what JSON has no form for. -/
def lenient (v : Value) : Except Fault String :=
  (encode .line quoteLiteral 0 v).map String.ofList

end PromptChain.Json
