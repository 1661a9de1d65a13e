import PromptChain.Value.Table
/-!
# What is in a value

Lists and tuples hold items, texts and bytes hold their parts, objects hold keys.  Looking for
something that could never be there is an error where it betrays a mistake.
-/

namespace PromptChain

def hasPart {α : Type} [BEq α] (part : List α) : List α → Bool
  | [] => part.isEmpty
  | x :: rest => part.isPrefixOf (x :: rest) || hasPart part rest

namespace Value

def isInBytes (content : List UInt8) : Value → Except Fault Bool
  | .bytes part => .ok (hasPart part content)
  | .int n =>
    if 0 ≤ n && n < 256 then .ok (content.any fun byte => n = byte.toNat) else .error .notByte
  | .bool b => .ok (content.contains (if b then 1 else 0))
  | v => .error (.notBytes v.kind)

def isIn (v : Value) : Value → Except Fault Bool
  | .list items => .ok (items.any fun item => v.same item)
  | .tuple items => .ok (items.any fun item => v.same item)
  | .record _ fields => .ok ((pairItems fields).any fun item => v.same item)
  | .text whole =>
    match v with
    | .text part => .ok (hasPart part.toList whole.toList)
    | .brokenText _ => .ok false
    | v => .error (.notPartOfText v.kind)
  | .brokenText whole =>
    match v.points? with
    | some part => .ok (hasPart part whole)
    | none => .error (.notPartOfText v.kind)
  | .bytes content => isInBytes content v
  | .object fields =>
    v.asKey.map fun key =>
      match key with
      | .text key => Entries.has fields key
      | _ => false
  | .brokenObject keys _ => v.asKey.map fun key => (key.points?.map keys.contains).getD false
  | container => .error (.notContainer container.kind)

end Value

end PromptChain
