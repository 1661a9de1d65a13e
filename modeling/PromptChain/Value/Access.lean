import PromptChain.Fault
import PromptChain.Text.Blank
import PromptChain.Text.Slug
import PromptChain.Value.Literal
import PromptChain.Value.Table
/-!
# Parts of values

Looking into a value whose shape is not known.
-/

namespace PromptChain.Value

open Text (CodePoint)

def field? (v : Value) (key : String) : Option Value :=
  v.entries?.bind fun fields => Entries.get? fields key

def items : Value → List Value
  | .list items => items
  | .tuple items => items
  | _ => []

def fields (v : Value) : Entries Value := v.entries?.getD []

/-- The place in a sequence of a length that an index stands for.  Indices below zero count from the
end. -/
def place (container : String) (out : String) (length : Nat) (index : Value) : Except Fault Nat :=
  match index.int? with
  | none => .error (.notIndex container index.kind)
  | some n =>
    let position := if n < 0 then n + length else n
    if 0 ≤ position && position < length then .ok position.toNat
    else if -Nat.pow 2 63 ≤ n && n < Nat.pow 2 63 then .error (.indexOutOfRange out)
    else .error .hugeIndex

def itemAt (container out : String) (items : List Value) (index : Value) : Except Fault Value :=
  (place container out items.length index).map fun i => items.getD i .null

def foundAt (find : Value → Option Value) (key : Value) : Except Fault Value :=
  match key.asKey with
  | .error e => .error e
  | .ok key =>
    match find key with
    | some item => .ok item
    | none => key.shown.bind fun shown => .error (.noKey shown)

def partAt (v key : Value) : Except Fault Value :=
  match v with
  | .object fields => foundAt (fun key => key.text?.bind (Entries.get? fields)) key
  | .brokenObject keys items =>
    foundAt (fun key => key.points?.bind fun key => List.lookup key (keys.zip items)) key
  | .list items => itemAt "list" "list index" items key
  | .tuple items => itemAt "tuple" "tuple index" items key
  | .text s =>
    itemAt "string" "string index" (s.toList.map fun c => .text (String.ofList [c])) key
  | .brokenText points =>
    itemAt "string" "string index" (points.map fun p => .ofPoints [p]) key
  | .bytes content => itemAt "byte" "index" (content.map fun byte => .int byte.toNat) key
  | v => .error (.notSubscriptable v.kind)

def atKey (v : Value) (key : String) : Except Fault Value := v.partAt (.text key)

def first (v : Value) : Except Fault Value := v.partAt (.int 0)

def isBlankByte (byte : UInt8) : Bool := byte = 32 || (9 ≤ byte && byte ≤ 13)

def trimmed (v : Value) : Except Fault Value :=
  match v with
  | .text s => .ok (.text (Text.trim s))
  | .brokenText points => .ok (.ofPoints (CodePoint.trim points))
  | .bytes content =>
    .ok (.bytes ((content.dropWhile isBlankByte).reverse.dropWhile isBlankByte).reverse)
  | v => .error (.noMember v.kind "strip")

def slugged (v : Value) : Except Fault String :=
  match v with
  | .text s => .ok (Text.slug s)
  | .brokenText points => .ok (Text.slug (CodePoint.shownText points))
  | .bytes _ => .error .textPatternOnBytes
  | v => .error (.noMember v.kind "strip")

/-- What a value consists of, one after the other: the items of a sequence, the characters of a
text, the keys of an object. -/
def parts? : Value → Option (List Value)
  | .list items => some items
  | .tuple items => some items
  | .object fields => some (fields.map fun field => .text field.1)
  | .brokenObject keys _ => some (keys.map .ofPoints)
  | .text s => some (s.toList.map fun c => .text (String.ofList [c]))
  | .brokenText points => some (points.map fun p => .ofPoints [p])
  | .bytes content => some (content.map fun byte => .int byte.toNat)
  | .record _ fields => some (pairItems fields)
  | _ => none

def parts (v : Value) : Except Fault (List Value) :=
  match v.parts? with
  | some parts => .ok parts
  | none => .error (.notIterable v.kind)

/-- The code points of texts; `index` is the number of the texts before them. -/
def linePoints (index : Nat) : List Value → Except Fault (List (List CodePoint))
  | [] => .ok []
  | v :: rest =>
    match v.points? with
    | some points => (linePoints (index + 1) rest).map (points :: ·)
    | none => .error (.notJoinableItem index v.kind)

def joinLines (lines : List Value) : Except Fault (List CodePoint) :=
  (linePoints 0 lines).map [.char '\n'].intercalate

/-- The text that a user's input stands for: a text itself, or lines, which are the parts of any
other value. -/
def joinInput (v : Value) : Except Fault String :=
  match v with
  | .text s => .ok s
  | .brokenText points => .ok (CodePoint.shownText points)
  | v =>
    match v.parts? with
    | none => .error .notJoinable
    | some parts => (joinLines parts).map CodePoint.shownText

end PromptChain.Value
