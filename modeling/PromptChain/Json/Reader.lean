import PromptChain.Fault
import PromptChain.Number.Decimal
import PromptChain.Text.Encoding
import PromptChain.Value.Table
/-!
# Reading JSON

JSON text as values.  Besides the standard's grammar the names `NaN`, `Infinity` and `-Infinity` are
numbers.  A numeral with neither fraction nor exponent is an integer of any size up to the limit of
digits.  Of the values of a repeated key the last one counts, in the place of the first.  Surrogates
may stand alone in strings, escaped or not; two that stand side by side are a pair only if both are
escaped.  Records read a stricter dialect.
-/

namespace PromptChain.Json

open Text (CodePoint isHighSurrogate isLowSurrogate charOfPair)

/-- Where and why reading stops: the number of code points that are left there. -/
inductive Stop where
  | malformed (problem : JsonProblem) (left : Nat)
  | longInteger (digits : Nat)
  deriving DecidableEq, Repr

/-- What readers of the format disagree on. -/
structure Dialect where
  /-- Which numerals are too long. -/
  isLong : Numeral → Bool
  /-- Whether one half of a surrogate pair may be escaped without the other. -/
  loneHalves : Bool
  /-- Whether all values of a repeated key are kept. -/
  repeats : Bool

def Dialect.plain : Dialect where
  isLong n := n.isInteger && maxIntDigits < n.whole.length
  loneHalves := true
  repeats := false

/-- The dialect of records: the whole part is limited in all numerals. -/
def Dialect.strict : Dialect where
  isLong n := maxIntDigits < n.whole.length
  loneHalves := false
  repeats := true

def isSpace : CodePoint → Bool
  | .char c => c = ' ' || c = '\t' || c = '\n' || c = '\r'
  | .surrogate _ => false

def isControl : CodePoint → Bool
  | .char c => c.toNat < 32
  | .surrogate _ => false

def skipSpace (points : List CodePoint) : List CodePoint := points.dropWhile isSpace

/-- The UTF-16 unit of the four hexadecimal digits that a text starts with.  Something has to stand
behind them. -/
def unitAt? : List CodePoint → Option Nat
  | .char a :: .char b :: .char c :: .char d :: _ :: _ => do
    let a ← Text.hexValue? a
    let b ← Text.hexValue? b
    let c ← Text.hexValue? c
    let d ← Text.hexValue? d
    some (((a * 16 + b) * 16 + c) * 16 + d)
  | _ => none

/-- The code point that an escape stands for, given the text behind its backslash, and how much of
that text the escape takes. -/
def escapeAt (dialect : Dialect) : List CodePoint → Except Stop (CodePoint × Nat)
  | .char '"' :: _ => .ok (.char '"', 1)
  | .char '\\' :: _ => .ok (.char '\\', 1)
  | .char '/' :: _ => .ok (.char '/', 1)
  | .char 'b' :: _ => .ok (.char '\x08', 1)
  | .char 'f' :: _ => .ok (.char '\x0c', 1)
  | .char 'n' :: _ => .ok (.char '\n', 1)
  | .char 'r' :: _ => .ok (.char '\r', 1)
  | .char 't' :: _ => .ok (.char '\t', 1)
  | .char 'u' :: rest =>
    match unitAt? rest with
    | none => .error (.malformed .codePoint (rest.length + 1))
    | some unit =>
      let lone : Except Stop (CodePoint × Nat) :=
        if dialect.loneHalves || !(isHighSurrogate unit || isLowSurrogate unit) then
          .ok (.ofNat unit, 5)
        else .error (.malformed .codePoint (rest.length + 1))
      match isHighSurrogate unit, rest.drop 4 with
      | true, .char '\\' :: .char 'u' :: more =>
        match unitAt? more with
        | none => .error (.malformed .codePoint (more.length + 1))
        | some low => if isLowSurrogate low then .ok (.char (charOfPair unit low), 11) else lone
      | _, _ => lone
  | rest => .error (.malformed .escape (rest.length + 1))

/-- The content of a string up to its closing quote, and the text behind it.  `start` is the text
from the opening quote on, and `skip` tells how much of the text is already accounted for. -/
def readString (dialect : Dialect) (start : List CodePoint) (skip : Nat) :
    List CodePoint → Except Stop (List CodePoint × List CodePoint)
  | [] => .error (.malformed .endOfString start.length)
  | p :: rest =>
    match skip with
    | skip + 1 => readString dialect start skip rest
    | 0 =>
      if p.is '"' then .ok ([], rest)
      else if p.is '\\' then
        if rest.isEmpty then .error (.malformed .endOfString start.length)
        else
          match escapeAt dialect rest with
          | .error e => .error e
          | .ok (escaped, taken) =>
            match readString dialect start taken rest with
            | .error e => .error e
            | .ok (more, behind) => .ok (escaped :: more, behind)
      else if isControl p then .error (.malformed .controlCharacter (rest.length + 1))
      else
        match readString dialect start 0 rest with
        | .error e => .error e
        | .ok (more, behind) => .ok (p :: more, behind)

def takeExponent (cs : List Char) : Option (Bool × List Char) × List Char :=
  match cs with
  | c :: rest =>
    if c = 'e' || c = 'E' then
      let (negative, unsigned) := Numeral.takeSign rest
      let digits := unsigned.takeWhile isDigit
      if digits.isEmpty then (none, cs)
      else (some (negative, digits), unsigned.dropWhile isDigit)
    else (none, cs)
  | [] => (none, cs)

def takeFraction (cs : List Char) : Option (List Char) × List Char :=
  match cs with
  | '.' :: rest =>
    let digits := rest.takeWhile isDigit
    if digits.isEmpty then (none, cs) else (some digits, rest.dropWhile isDigit)
  | _ => (none, cs)

/-- The whole part of a numeral: a single zero, or digits that do not start with one. -/
def takeWhole (cs : List Char) : List Char × List Char :=
  match cs with
  | '0' :: rest => (['0'], rest)
  | _ => (cs.takeWhile isDigit, cs.dropWhile isDigit)

/-- The longest numeral that a text starts with. -/
def takeNumeral? (cs : List Char) : Option (Numeral × List Char) :=
  let (negative, unsigned) :=
    match cs with
    | '-' :: rest => (true, rest)
    | _ => (false, cs)
  let (whole, rest) := takeWhole unsigned
  if whole.isEmpty then none
  else
    let (fraction, rest) := takeFraction rest
    let (exponent, rest) := takeExponent rest
    some ({ negative, whole, fraction, exponent }, rest)

def numeralValue (dialect : Dialect) (n : Numeral) : Except Stop Value :=
  if dialect.isLong n then .error (.longInteger n.whole.length)
  else if n.isInteger then .ok (.int n.toInt)
  else .ok (.real n.toBinary64)

def isNumeric : CodePoint → Bool
  | .char c => isDigit c || c = '-' || c = '+' || c = '.' || c = 'e' || c = 'E'
  | .surrogate _ => false

def readNumber (dialect : Dialect) (points : List CodePoint) :
    Except Stop (Value × List CodePoint) :=
  let run := (points.takeWhile isNumeric).filterMap CodePoint.char?
  match takeNumeral? run with
  | none => .error (.malformed .value points.length)
  | some (n, rest) =>
    match numeralValue dialect n with
    | .error e => .error e
    | .ok v => .ok (v, points.drop (run.length - rest.length))

def behind? : (name : List Char) → List CodePoint → Option (List CodePoint)
  | [], rest => some rest
  | c :: name, p :: rest => if p.is c then behind? name rest else none
  | _ :: _, [] => none

def readScalar (dialect : Dialect) (points : List CodePoint) :
    Except Stop (Value × List CodePoint) :=
  let named (v : Value) (rest : List CodePoint) (name : List Char) :=
    match behind? name rest with
    | some rest => .ok (v, rest)
    | none => readNumber dialect points
  match points with
  | .char 'n' :: rest => named .null rest ['u', 'l', 'l']
  | .char 't' :: rest => named (.bool true) rest ['r', 'u', 'e']
  | .char 'f' :: rest => named (.bool false) rest ['a', 'l', 's', 'e']
  | .char 'N' :: rest => named (.real .nan) rest ['a', 'N']
  | .char 'I' :: rest => named (.real (.infinite false)) rest ['n', 'f', 'i', 'n', 'i', 't', 'y']
  | .char '-' :: .char 'I' :: rest =>
    named (.real (.infinite true)) rest ['n', 'f', 'i', 'n', 'i', 't', 'y']
  | _ => readNumber dialect points

def wholeFields? (fields : List (List CodePoint × Value)) : Option (List (String × Value)) :=
  fields.mapM fun (key, item) => (CodePoint.chars? key).map fun cs => (String.ofList cs, item)

def objectOf (dialect : Dialect) (fields : List (List CodePoint × Value)) : Value :=
  match wholeFields? fields with
  | some fields => .object (if dialect.repeats then fields else Entries.ofPairs fields)
  | none =>
    let table := Table.ofPairs (fields.map fun (key, item) => (Value.ofPoints key, item))
    .brokenObject (table.keys.filterMap Value.points?) (table.map Prod.snd)

mutual

def readValue (dialect : Dialect) :
    (fuel : Nat) → List CodePoint → Except Stop (Value × List CodePoint)
  | 0, points => .error (.malformed .value points.length)
  | fuel + 1, points =>
    match points with
    | .char '"' :: rest =>
      match readString dialect points 0 rest with
      | .error e => .error e
      | .ok (content, rest) => .ok (.ofPoints content, rest)
    | .char '[' :: rest =>
      match skipSpace rest with
      | .char ']' :: rest => .ok (.list [], rest)
      | rest =>
        match readItems dialect fuel rest with
        | .error e => .error e
        | .ok (items, rest) => .ok (.list items, rest)
    | .char '\x7b' :: rest =>
      match skipSpace rest with
      | .char '\x7d' :: rest => .ok (.object [], rest)
      | rest =>
        match readFields dialect fuel rest with
        | .error e => .error e
        | .ok (fields, rest) => .ok (objectOf dialect fields, rest)
    | _ => readScalar dialect points

/-- Reads the items of an array behind its opening bracket, at least one, and the closing one. -/
def readItems (dialect : Dialect) :
    (fuel : Nat) → List CodePoint → Except Stop (List Value × List CodePoint)
  | 0, points => .error (.malformed .value points.length)
  | fuel + 1, points =>
    match readValue dialect fuel points with
    | .error e => .error e
    | .ok (item, rest) =>
      match skipSpace rest with
      | .char ']' :: rest => .ok ([item], rest)
      | .char ',' :: rest =>
        match readItems dialect fuel (skipSpace rest) with
        | .error e => .error e
        | .ok (items, rest) => .ok (item :: items, rest)
      | rest => .error (.malformed .comma rest.length)

/-- Reads the fields of an object behind its opening brace, at least one, and the closing brace. -/
def readFields (dialect : Dialect) :
    (fuel : Nat) → List CodePoint → Except Stop (List (List CodePoint × Value) × List CodePoint)
  | 0, points => .error (.malformed .propertyName points.length)
  | fuel + 1, points =>
    match points with
    | .char '"' :: rest =>
      match readString dialect points 0 rest with
      | .error e => .error e
      | .ok (key, rest) =>
        match skipSpace rest with
        | .char ':' :: rest =>
          match readValue dialect fuel (skipSpace rest) with
          | .error e => .error e
          | .ok (item, rest) =>
            match skipSpace rest with
            | .char '\x7d' :: rest => .ok ([(key, item)], rest)
            | .char ',' :: rest =>
              match readFields dialect fuel (skipSpace rest) with
              | .error e => .error e
              | .ok (fields, rest) => .ok ((key, item) :: fields, rest)
            | rest => .error (.malformed .comma rest.length)
        | rest => .error (.malformed .colon rest.length)
    | _ => .error (.malformed .propertyName points.length)

end

def readDocument (dialect : Dialect) (points : List CodePoint) : Except Stop Value :=
  match readValue dialect (2 * points.length + 1) (skipSpace points) with
  | .error e => .error e
  | .ok (v, rest) =>
    match skipSpace rest with
    | [] => .ok v
    | rest => .error (.malformed .trailingData rest.length)

def Stop.fault (points : List CodePoint) : Stop → ReadFault
  | .malformed problem left =>
    let before := points.take (points.length - left)
    let column := (before.reverse.takeWhile fun p => !p.is '\n').length + 1
    .malformed problem (before.countP (·.is '\n') + 1) column before.length
  | .longInteger digits => .longInteger digits

def readPoints (points : List CodePoint) : Except ReadFault Value :=
  match readDocument .plain points with
  | .error e => .error (e.fault points)
  | .ok v => .ok v

/-- The value that a text denotes.  A text has no use for a byte order mark. -/
def readText (points : List CodePoint) : Except ReadFault Value :=
  if points.head? = some (.char Text.byteOrderMark) then .error (.malformed .byteOrderMark 1 1 0)
  else readPoints points

def read (s : String) : Except ReadFault Value := readText (CodePoint.ofText s)

end PromptChain.Json
