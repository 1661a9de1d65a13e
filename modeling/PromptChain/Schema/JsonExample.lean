import PromptChain.Value.Access
import PromptChain.Value.Membership
/-!
# Examples of JSON schemas

An example of a node of a JSON schema: the first one that the node gives, its default, an example of
its first alternative that is not null, or one made up from its type.  References lead into a table
of definitions; a chain of references that comes back to where it was has no example.
-/

namespace PromptChain.JsonExample

def exampleText : String := "example string"

def exampleNumber : Int := 42

def exampleBoolean : Bool := true

def refKey : String := "$ref"

def refName : Value → Except Fault String
  | .text s => .ok (String.ofList (s.toList.reverse.takeWhile (· ≠ '/')).reverse)
  | .bytes _ => .error (.notBytes (Value.text refKey).kind)
  | v => .error (.noMember v.kind "rsplit")

def isAlternative : Value → Except Fault Bool
  | .object fields => .ok (Entries.get? fields "type" ≠ some (.text "null"))
  | v => .error (.noMember v.kind "get")

def alternatives : List Value → Except Fault (List Value)
  | [] => .ok []
  | v :: rest =>
    match isAlternative v with
    | .error e => .error e
    | .ok keep =>
      match alternatives rest with
      | .error e => .error e
      | .ok more => .ok (if keep then v :: more else more)

def firstAlternative? (fields : Entries Value) : List String → Except Fault (Option Value)
  | [] => .ok none
  | key :: keys =>
    match ((fields.get? key).getD (.list [])).parts with
    | .error e => .error e
    | .ok items =>
      match alternatives items with
      | .error e => .error e
      | .ok (v :: _) => .ok (some v)
      | .ok [] => firstAlternative? fields keys

/-- The refusal of a node that is no object.  It may hold the key of a reference all the same. -/
def notNode (v : Value) : Fault :=
  match (Value.text refKey).isIn v, v.atKey refKey with
  | .error e, _ => e
  | .ok true, .error e => e
  | _, _ => .noMember v.kind "get"

def ofProperties (make : Value → Except Fault Value) :
    List (String × Value) → Except Fault (List (String × Value))
  | [] => .ok []
  | (key, node) :: rest =>
    match make node with
    | .error e => .error e
    | .ok v =>
      match ofProperties make rest with
      | .error e => .error e
      | .ok more => .ok ((key, v) :: more)

def ofType (make : Value → Except Fault Value) (fields : Entries Value) : Except Fault Value :=
  match fields.get? "type" with
  | some (.text "string") => .ok (.text exampleText)
  | some (.text "integer") => .ok (.int exampleNumber)
  | some (.text "number") => .ok (.int exampleNumber)
  | some (.text "boolean") => .ok (.bool exampleBoolean)
  | some (.text "array") =>
    (make ((fields.get? "items").getD (.object []))).map fun v => .list [v]
  | some (.text "object") =>
    match (fields.get? "properties").getD (.object []) with
    | .object properties => (ofProperties make properties).map .object
    | v => .error (.noMember v.kind "items")
  | _ => .ok .null

def ofFields (make : Value → Except Fault Value) (fields : Entries Value) : Except Fault Value :=
  let given := (fields.get? "examples").getD .null
  if !given.isFalsy then given.first
  else
    match fields.get? "default" with
    | some v => .ok v
    | none =>
      match firstAlternative? fields ["anyOf", "oneOf", "allOf"] with
      | .error e => .error e
      | .ok (some node) => make node
      | .ok none => ofType make fields

/-- An example of a node, up to a number of steps into parts and along references. -/
def ofNode (definitions : Value) : (fuel : Nat) → Value → Except Fault Value
  | 0, _ => .error .endlessReference
  | fuel + 1, .object fields =>
    match Entries.get? fields refKey with
    | some reference =>
      match refName reference with
      | .error e => .error e
      | .ok name =>
        match definitions.atKey name with
        | .error e => .error e
        | .ok node => ofNode definitions fuel node
    | none => ofFields (fun node => ofNode definitions fuel node) fields
  | _ + 1, v => .error (notNode v)

mutual

def size : Value → Nat
  | .tuple items => sizeItems items + 1
  | .list items => sizeItems items + 1
  | .object fields => sizeFields fields + 1
  | .record _ fields => sizeFields fields + 1
  | _ => 1

def sizeItems : List Value → Nat
  | [] => 0
  | v :: rest => size v + sizeItems rest

def sizeFields : List (String × Value) → Nat
  | [] => 0
  | (_, v) :: rest => size v + sizeFields rest

end

/-- More steps than a walk can take that follows no reference twice. -/
def enoughFuel (definitions node : Value) : Nat :=
  let count :=
    match definitions with
    | .object fields => fields.length
    | _ => 0
  (count + 1) * (size definitions + size node + 1)

def generate (node definitions : Value) : Except Fault Value :=
  ofNode definitions (enoughFuel definitions node) node

end PromptChain.JsonExample
