import PromptChain.Value.Access
/-!
# Numbers among values

Integers, binary64 numbers and truth values, which count as 0 and 1, can be compared and added.
Anything else that is used as a number is an error.
-/

namespace PromptChain

inductive Quantity where
  | whole (n : Int)
  | real (x : Binary64)
  deriving DecidableEq

namespace Quantity

def exceeds (n : Int) : Quantity → Bool
  | .whole k => n < k
  | .real x => Binary64.intLess n x

def isBelow (n : Int) : Quantity → Bool
  | .whole k => k < n
  | .real x => x.lessInt n

def equals (n : Int) : Quantity → Bool
  | .whole k => k = n
  | .real x => x.sameInt n

def isAtLeast (n : Int) (q : Quantity) : Bool := q.exceeds n || q.equals n

def isAtMost (n : Int) (q : Quantity) : Bool := q.isBelow n || q.equals n

def isBefore (now : Binary64) : Quantity → Bool
  | .whole n => Binary64.intLess n now
  | .real x => x.less now

def after (now : Binary64) : Quantity → Except Fault Binary64
  | .whole n =>
    let x := Binary64.ofInt n
    if x.isFinite then .ok (now + x) else .error .intTooLarge
  | .real x => .ok (now + x)

end Quantity

namespace Value

def quantity? : Value → Option Quantity
  | .real x => some (.real x)
  | v => v.int?.map .whole

/-- The number that a value is, where an integer is compared with it. -/
def compared (operator : String) (v : Value) : Except Fault Quantity :=
  match v.quantity? with
  | some q => .ok q
  | none => .error (.notOrdered operator (Value.int 0).kind v.kind)

/-- The position among some number of entries that an index stands for, if there is such a position.
Where one is looked for, `why` is wrong with a number that is no integer. -/
def position? (length : Nat) (why : Fault) (index : Value) : Except Fault (Option Nat) :=
  match index.compared "<=" with
  | .error e => .error e
  | .ok q =>
    if q.isAtLeast 0 && q.isBelow length then
      match q with
      | .whole n => .ok (some n.toNat)
      | .real _ => .error why
    else .ok none

def successor (v : Value) : Except Fault Int :=
  match v with
  | .int n => .ok (n + 1)
  | .bool b => .ok (if b then 2 else 1)
  | .real _ => .error (.notInteger v.kind)
  | .null => .error (.notAddable v.kind (Value.int 1).kind)
  | .object _ => .error (.notAddable v.kind (Value.int 1).kind)
  | .brokenObject .. => .error (.notAddable v.kind (Value.int 1).kind)
  | .record .. => .error (.notAddable v.kind (Value.int 1).kind)
  | v => .error (.notConcatenable v.kind (Value.int 1).kind)

end Value

end PromptChain
