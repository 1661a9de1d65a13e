/-!
# Binary64 numbers

Exact arithmetic of the 64-bit binary interchange format.  A finite number is `± m * 2 ^ q` with a
unique significand and exponent; every operation computes the exact rational result and rounds it
once, to nearest and to even on ties.
-/

namespace PromptChain

namespace Binary64

/-- The pairs `(m, q)` that represent a finite magnitude `m * 2 ^ q`: full width significands, and
smaller ones at the least exponent. -/
def Canonical (m : Nat) (q : Int) : Prop :=
  m < Nat.pow 2 53 ∧ -1074 ≤ q ∧ q ≤ 971 ∧ (Nat.pow 2 52 ≤ m ∨ q = -1074)

instance (m : Nat) (q : Int) : Decidable (Canonical m q) := by
  unfold Canonical; infer_instance

end Binary64

/-- A binary64 number; all values that are not numbers count as one. -/
inductive Binary64 where
  | nan
  | infinite (negative : Bool)
  | finite (negative : Bool) (m : Nat) (q : Int) (canonical : Binary64.Canonical m q)
  deriving DecidableEq

namespace Binary64

def zero (negative : Bool) : Binary64 :=
  .finite negative 0 (-1074) (by decide)

instance : Inhabited Binary64 := ⟨zero false⟩

def isFinite : Binary64 → Bool
  | .finite .. => true
  | _ => false

/-- The quotient of two numbers rounded to the nearest integer, to the even one on a tie. -/
def roundQuotient (num den : Nat) : Nat :=
  let quotient := num / den
  let rest := num % den
  if 2 * rest < den then quotient
  else if den < 2 * rest then quotient + 1
  else if quotient % 2 = 0 then quotient
  else quotient + 1

/-- The exponent `e` with `2 ^ e ≤ num / den < 2 ^ (e + 1)`, for positive operands. -/
def binade (num den : Nat) : Int :=
  let estimate : Int := (Nat.log2 num : Int) - (Nat.log2 den : Int)
  if num * Nat.pow 2 (-estimate).toNat < den * Nat.pow 2 estimate.toNat then estimate - 1
  else estimate

/-- The number `± m * 2 ^ q` for a significand that rounding may have carried to full width, or
infinity if the exponent is out of range. -/
def assemble (negative : Bool) (m : Nat) (q : Int) : Binary64 :=
  let (m, q) := if m = Nat.pow 2 53 then (Nat.pow 2 52, q + 1) else (m, q)
  if h : Canonical m q then .finite negative m q h else .infinite negative

/-- The binary64 number nearest to `± num / den`. -/
def ofRatio (negative : Bool) (num den : Nat) : Binary64 :=
  if num = 0 then zero negative
  else
    let q := max (binade num den - 52) (-1074)
    assemble negative (roundQuotient (num * Nat.pow 2 (-q).toNat) (den * Nat.pow 2 q.toNat)) q

def ofInt (n : Int) : Binary64 := ofRatio (n < 0) n.natAbs 1

def ratio (m : Nat) (q : Int) : Nat × Nat := (m * Nat.pow 2 q.toNat, Nat.pow 2 (-q).toNat)

/-- A finite number as a multiple of the least positive one, `2 ^ -1074`. -/
def units (negative : Bool) (m : Nat) (q : Int) : Int :=
  let magnitude : Int := (m * Nat.pow 2 (q + 1074).toNat : Nat)
  if negative then -magnitude else magnitude

def unitsOfInt (n : Int) : Int := n * Nat.pow 2 1074

/-- The number nearest to a count of `2 ^ -scale`; `negativeZero` is the sign of an exact zero. -/
def ofUnits (negativeZero : Bool) (count : Int) (scale : Nat) : Binary64 :=
  if count = 0 then zero negativeZero
  else ofRatio (count < 0) count.natAbs (Nat.pow 2 scale)

def add : Binary64 → Binary64 → Binary64
  | .nan, _ => .nan
  | _, .nan => .nan
  | .infinite s, .infinite t => if s = t then .infinite s else .nan
  | .infinite s, .finite .. => .infinite s
  | .finite .., .infinite t => .infinite t
  | .finite s m q _, .finite t n r _ => ofUnits (s && t) (units s m q + units t n r) 1074

def mul : Binary64 → Binary64 → Binary64
  | .nan, _ => .nan
  | _, .nan => .nan
  | .infinite s, .infinite t => .infinite (s ^^ t)
  | .infinite s, .finite t n _ _ => if n = 0 then .nan else .infinite (s ^^ t)
  | .finite s m _ _, .infinite t => if m = 0 then .nan else .infinite (s ^^ t)
  | .finite s m q _, .finite t n r _ => ofUnits (s ^^ t) (units s m q * units t n r) 2148

instance : Add Binary64 := ⟨add⟩
instance : Mul Binary64 := ⟨mul⟩

/-- The order of numbers with an infinity at each end; nothing compares with a value that is not a
number. -/
def less : Binary64 → Binary64 → Bool
  | .nan, _ => false
  | _, .nan => false
  | .infinite s, .infinite t => s && !t
  | .infinite s, .finite .. => s
  | .finite .., .infinite t => !t
  | .finite s m q _, .finite t n r _ => units s m q < units t n r

/-- Equality of numbers: the zeros are equal, and a value that is not a number equals nothing. -/
def same : Binary64 → Binary64 → Bool
  | .nan, _ => false
  | _, .nan => false
  | .infinite s, .infinite t => s = t
  | .finite s m q _, .finite t n r _ => units s m q = units t n r
  | _, _ => false

def intLess (n : Int) : Binary64 → Bool
  | .nan => false
  | .infinite s => !s
  | .finite s m q _ => unitsOfInt n < units s m q

def lessInt : Binary64 → Int → Bool
  | .nan, _ => false
  | .infinite s, _ => s
  | .finite s m q _, n => units s m q < unitsOfInt n

def sameInt : Binary64 → Int → Bool
  | .finite s m q _, n => units s m q = unitsOfInt n
  | _, _ => false

def ceiling? : Binary64 → Option Int
  | .finite s m q _ => some (-(-units s m q / Nat.pow 2 1074))
  | _ => none

def toInt? : Binary64 → Option Int
  | .finite s m q _ =>
    let count := units s m q
    if count % Nat.pow 2 1074 = 0 then some (count / Nat.pow 2 1074) else none
  | _ => none

end Binary64

end PromptChain
