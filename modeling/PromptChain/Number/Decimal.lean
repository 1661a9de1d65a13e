import PromptChain.Number.Binary64
/-!
# Decimal numerals

The decimal text of integers and of binary64 numbers.  Reading rounds the exact value of a numeral
to nearest.  Writing takes the fewest digits that read back as the number, and of those the nearest.
-/

namespace PromptChain

def digitValue (c : Char) : Nat := c.toNat - 48

def isDigit (c : Char) : Bool := 48 ≤ c.toNat && c.toNat ≤ 57

/-- The number that a list of digits denotes, with the digits gathered into blocks: `low` is the
number of the last block, `weight` the power of ten for its length, and `high` the number of all
blocks before it. -/
def natOfBlocks (high low weight : Nat) : List Char → Nat
  | [] => high * weight + low
  | c :: rest =>
    if weight < 10000000000000000 then natOfBlocks high (10 * low + digitValue c) (10 * weight) rest
    else natOfBlocks (high * weight + low) (digitValue c) 10 rest

theorem natOfBlocks_eq (high low weight : Nat) (digits : List Char) :
    natOfBlocks high low weight digits
      = digits.foldl (fun n c => 10 * n + digitValue c) (high * weight + low) := by
  induction digits generalizing high low weight with
  | nil => rfl
  | cons c rest ih =>
    have shift : high * (10 * weight) = 10 * (high * weight) := Nat.mul_left_comm ..
    rw [natOfBlocks, List.foldl_cons]
    split
    · rw [ih, shift, Nat.mul_add, Nat.add_assoc]
    · rw [ih, Nat.mul_comm _ 10]

def natOfDigits (digits : List Char) : Nat := natOfBlocks 0 0 1 digits

theorem natOfDigits_eq (digits : List Char) :
    natOfDigits digits = digits.foldl (fun n c => 10 * n + digitValue c) 0 := by
  rw [natOfDigits, natOfBlocks_eq]

def natDigits (n : Nat) : List Char := Nat.toDigits 10 n

def intDigits (n : Int) : List Char :=
  if n < 0 then '-' :: natDigits n.natAbs else natDigits n.natAbs

def maxIntDigits : Nat := 4300

def isLongInt (n : Int) : Bool := Nat.pow 10 maxIntDigits ≤ n.natAbs

namespace Binary64

/-- The number nearest to `± digits * 10 ^ exponent`.  As ten is more than `2 ^ 3`, exponents far
out of range are decided without the power of ten. -/
def ofDecimal (negative : Bool) (digits : Nat) (exponent : Int) : Binary64 :=
  let size : Int := Nat.log2 digits
  if digits = 0 then zero negative
  else if 0 ≤ exponent && 1024 ≤ size + 3 * exponent then .infinite negative
  else if exponent < 0 && size + 3 * exponent < -1076 then zero negative
  else ofRatio negative (digits * Nat.pow 10 exponent.toNat) (Nat.pow 10 (-exponent).toNat)

/-- The `k` with `10 ^ (k - 1) ≤ num / den < 10 ^ k`, for positive operands. -/
def decade (num den : Nat) : Int :=
  let estimate : Int := ((natDigits num).length : Int) - ((natDigits den).length : Int)
  if den * Nat.pow 10 estimate.toNat ≤ num * Nat.pow 10 (-estimate).toNat then estimate + 1
  else estimate

/-- Of the two multiples of `10 ^ exponent` around `num / den`, the nearest one that satisfies
`reads`, the even one on a tie. -/
def neighbour? (reads : Nat → Bool) (num den : Nat) (exponent : Int) : Option Nat :=
  let top := num * Nat.pow 10 (-exponent).toNat
  let bottom := den * Nat.pow 10 exponent.toNat
  let low := top / bottom
  let rest := top % bottom
  match reads low, reads (low + 1) with
  | true, true =>
    if 2 * rest < bottom then some low
    else if bottom < 2 * rest then some (low + 1)
    else if low % 2 = 0 then some low
    else some (low + 1)
  | true, false => some low
  | false, true => some (low + 1)
  | false, false => none

/-- Digits and exponent of the shortest decimal that reads back as `m * 2 ^ q`, and the nearest one
of its length; the exact decimal if none of at most seventeen digits does. -/
def shortest (m : Nat) (q : Int) : Nat × Int :=
  let (num, den) := ratio m q
  let top := decade num den
  let found := (List.range 17).findSome? fun count =>
    let exponent := top - (count + 1 : Nat)
    let reads (digits : Nat) : Bool :=
      match ofDecimal false digits exponent with
      | .finite _ m' q' _ => m' = m && q' = q
      | _ => false
    (neighbour? reads num den exponent).map fun digits => (digits, exponent)
  found.getD (num * Nat.pow 5 (-q).toNat, -((-q).toNat : Int))

def trimZeros (digits : List Char) : List Char :=
  (digits.reverse.dropWhile (· = '0')).reverse

def exponentChars (e : Int) : List Char :=
  let digits := natDigits e.natAbs
  'e' :: (if e < 0 then '-' else '+') :: if digits.length < 2 then '0' :: digits else digits

/-- The decimal with the given digits and the point after the first `point` of them.  Magnitudes
from `10 ^ -4` to below `10 ^ 16` are written positionally, with at least one digit on each side of
the point. -/
def layOut (digits : List Char) (point : Int) : List Char :=
  if -4 < point ∧ point ≤ 16 then
    if point ≤ 0 then '0' :: '.' :: List.replicate (-point).toNat '0' ++ digits
    else
      let whole := point.toNat
      if digits.length ≤ whole then
        digits ++ List.replicate (whole - digits.length) '0' ++ ['.', '0']
      else digits.take whole ++ '.' :: digits.drop whole
  else
    match digits with
    | [] => []
    | [d] => d :: exponentChars (point - 1)
    | d :: rest => d :: '.' :: rest ++ exponentChars (point - 1)

def finiteChars (negative : Bool) (m : Nat) (q : Int) : List Char :=
  let magnitude :=
    if m = 0 then ['0', '.', '0']
    else
      let (digits, exponent) := shortest m q
      let shown := natDigits digits
      layOut (trimZeros shown) (shown.length + exponent)
  if negative then '-' :: magnitude else magnitude

end Binary64

structure Numeral where
  negative : Bool := false
  whole : List Char
  fraction : Option (List Char) := none
  /-- Sign and digits of the exponent, if there is one. -/
  exponent : Option (Bool × List Char) := none
  deriving DecidableEq, Repr

namespace Numeral

def isInteger (n : Numeral) : Bool := n.fraction.isNone && n.exponent.isNone

def toInt (n : Numeral) : Int :=
  if n.negative then -(natOfDigits n.whole : Int) else natOfDigits n.whole

def power (n : Numeral) : Int :=
  match n.exponent with
  | none => 0
  | some (negative, digits) => if negative then -(natOfDigits digits : Int) else natOfDigits digits

def toBinary64 (n : Numeral) : Binary64 :=
  let fraction := n.fraction.getD []
  Binary64.ofDecimal n.negative (natOfDigits (n.whole ++ fraction))
    (n.power - (fraction.length : Int))

def takeSign : List Char → Bool × List Char
  | '-' :: rest => (true, rest)
  | '+' :: rest => (false, rest)
  | rest => (false, rest)

/-- Reads the exponent that a text consists of; the empty text is no exponent. -/
def readExponent? : List Char → Option (Option (Bool × List Char))
  | [] => some none
  | c :: rest =>
    if c = 'e' || c = 'E' then
      let (negative, digits) := takeSign rest
      if !digits.isEmpty && digits.all isDigit then some (some (negative, digits)) else none
    else none

/-- Reads a numeral: an optional sign, digits with at most one point and at least one digit, and an
optional exponent. -/
def read? (cs : List Char) : Option Numeral :=
  let (negative, unsigned) := takeSign cs
  let whole := unsigned.takeWhile isDigit
  match unsigned.dropWhile isDigit with
  | '.' :: rest =>
    let fraction := rest.takeWhile isDigit
    if whole.isEmpty && fraction.isEmpty then none
    else
      (readExponent? (rest.dropWhile isDigit)).map fun exponent =>
        { negative, whole, fraction := some fraction, exponent }
  | rest =>
    if whole.isEmpty then none
    else (readExponent? rest).map fun exponent => { negative, whole, exponent }

end Numeral

end PromptChain
