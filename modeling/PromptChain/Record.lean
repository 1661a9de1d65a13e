import PromptChain.FilePath
import PromptChain.Json.Reader
import PromptChain.Text.Blank
import PromptChain.Text.Casing
/-!
# Records

A record model lists fields with their kinds and defaults.  Reading is lenient: texts that hold a
number count as the number, whole numbers count as integers, truth values as 0 and 1, and fields
that the model does not know are left out.  All issues of an input are collected.  Of the values of
a repeated field of a record only the last one is read, but in a table every one is.
-/

namespace PromptChain

inductive Bound where
  | none
  | above (n : Int)
  | atLeast (n : Int)
  deriving DecidableEq, Repr

mutual

inductive FieldKind where
  | text
  | path
  | integer
  | real (bound : Bound)
  | boolean
  | list (item : FieldKind)
  | table (item : FieldKind)
  | optional (inner : FieldKind)
  | record (model : RecordModel)

/-- A model: its name, and its fields with kinds and, for those that may be left out, defaults. -/
inductive RecordModel where
  | mk (name : String) (fields : List (String × FieldKind × Option Value))

end

namespace Record

abbrev Outcome (α : Type) := Except (List Issue) α

def issue (kind : IssueKind) : List Issue := [⟨[], kind⟩]

def Outcome.at {α : Type} (step : PathStep) (outcome : Outcome α) : Outcome α :=
  outcome.mapError fun issues => issues.map fun i => { i with path := step :: i.path }

def Outcome.and {α β : Type} (first : Outcome α) (second : Outcome β) : Outcome (α × β) :=
  match first, second with
  | .ok a, .ok b => .ok (a, b)
  | .error i, .ok _ => .error i
  | .ok _, .error j => .error j
  | .error i, .error j => .error (i ++ j)

/-- White space in the narrow sense, without the information separators. -/
def isWhiteSpace (c : Char) : Bool := Text.isBlank c && !(28 ≤ c.toNat && c.toNat ≤ 31)

/-- A text without its underscores, if it has some and each stands between two other characters. -/
def dropUnderscores? (cs : List Char) : Option (List Char) :=
  let lone := fun (pair : Char × Char) => !(pair.1 = '_' && pair.2 = '_')
  if cs.contains '_' && cs.head? ≠ some '_' && cs.getLast? ≠ some '_'
      && (cs.zip (cs.drop 1)).all lone then some (cs.filter (· ≠ '_'))
  else none

/-- An integer in plain digits: no plus sign, no zero before another digit. -/
def plainInteger (cs : List Char) : Except IssueKind Int :=
  let (negative, unsigned) :=
    match cs with
    | '-' :: rest => (true, rest)
    | _ => (false, cs)
  let (whole, rest) := Json.takeWhole unsigned
  if whole.isEmpty then .error .intParsing
  else if maxIntDigits < whole.length then .error .intParsingSize
  else if !rest.isEmpty then .error .intParsing
  else .ok (Numeral.toInt { negative, whole })

/-- The digits from the first one on that is not zero.  Zeros and underscores before it go, except
for the last of them if nothing or a point follows. -/
def skipZeros? (cs : List Char) : Option (List Char) :=
  let isFiller := fun c => c = '0' || c = '_'
  let fillers := cs.takeWhile isFiller
  let rest := cs.dropWhile isFiller
  match fillers, rest with
  | [], c :: _ => if isDigit c then some rest else none
  | '0' :: _, [] => some [fillers.getLastD '0']
  | '0' :: _, '.' :: _ => some (fillers.getLastD '0' :: rest)
  | '0' :: _, c :: _ => if isDigit c || c = '-' then some rest else none
  | _, _ => none

def dropZeroFraction (cs : List Char) : List Char :=
  match cs.dropWhile (· ≠ '.') with
  | _ :: '0' :: fraction => if fraction.all (· = '0') then cs.takeWhile (· ≠ '.') else cs
  | _ => cs

/-- The plain digits that a lenient spelling of an integer stands for.  White space around it, a
sign, zeros before it, a fraction of zeros and underscores between digits are allowed. -/
def plainDigits? (cs : List Char) : Option (List Char) :=
  let cs := Text.strip isWhiteSpace cs
  let digits? :=
    match cs with
    | '-' :: rest => (skipZeros? rest).map ('-' :: ·)
    | '+' :: rest => skipZeros? rest
    | _ => skipZeros? cs
  digits?.map fun digits =>
    let digits := dropZeroFraction digits
    (dropUnderscores? digits).getD digits

/-- The integer that a text spells.  That it is too long is seen in plain digits only. -/
def integerOfChars (cs : List Char) : Except IssueKind Int :=
  match plainInteger cs with
  | .error .intParsing =>
    match plainDigits? cs with
    | some digits => (plainInteger digits).mapError fun _ => .intParsing
    | none => .error .intParsing
  | outcome => outcome

def integerOfText (s : String) : Outcome Value :=
  match integerOfChars s.toList with
  | .ok n => .ok (.int n)
  | .error kind => .error (issue kind)

def realOfName? (cs : List Char) : Option Binary64 :=
  let (negative, name) := Numeral.takeSign cs
  let name := String.ofList (Text.lower name)
  if name = "nan" then some .nan
  else if name = "inf" || name = "infinity" then some (.infinite negative)
  else none

def realOfChars? (cs : List Char) : Option Binary64 :=
  (realOfName? cs).orElse fun _ => (Numeral.read? cs).map Numeral.toBinary64

/-- Reads the text of a number.  White space may stand around it or underscores in it, not both. -/
def realOfText (s : String) : Outcome Binary64 :=
  match realOfChars? (Text.strip isWhiteSpace s.toList) with
  | some x => .ok x
  | none =>
    match (dropUnderscores? s.toList).bind realOfChars? with
    | some x => .ok x
    | none => .error (issue .floatParsing)

def textOfBytes (content : List UInt8) (kind : IssueKind) : Outcome String :=
  match String.fromUTF8? (ByteArray.mk content.toArray) with
  | some s => .ok s
  | none => .error (issue kind)

def isInt64 (n : Int) : Bool := -Nat.pow 2 63 ≤ n && n < Nat.pow 2 63

/-- The integer that a finite number is, if it lies strictly between the ends of 64 bits; if not,
what is wrong with it. -/
def wholeNumber (x : Binary64) : Except IssueKind Int :=
  if !x.isFinite then .error .finiteNumber
  else
    match x.toInt? with
    | some n => if isInt64 n && n ≠ -Nat.pow 2 63 then .ok n else .error .intParsingSize
    | none => .error .intFromFloat

def readInteger : Value → Outcome Value
  | .int n => .ok (.int n)
  | .bool b => .ok (.int (if b then 1 else 0))
  | .real x =>
    match wholeNumber x with
    | .ok n => .ok (.int n)
    | .error kind => .error (issue kind)
  | .text s => integerOfText s
  | .brokenText _ => .error (issue .stringUnicode)
  | .bytes content => (textOfBytes content .intParsing).bind integerOfText
  | _ => .error (issue .intType)

def Bound.check (bound : Bound) (x : Binary64) : Outcome Value :=
  match bound with
  | .none => .ok (.real x)
  | .above n => if Binary64.intLess n x then .ok (.real x) else .error (issue .notGreater)
  | .atLeast n =>
    if Binary64.intLess n x || x.sameInt n then .ok (.real x) else .error (issue .notAtLeast)

inductive Source where
  | data
  | json
  deriving DecidableEq, Repr

/-- Reads a number.  An integer of data must not be out of range. -/
def readReal (source : Source) : Value → Outcome Binary64
  | .real x => .ok x
  | .int n =>
    let x := Binary64.ofInt n
    if x.isFinite || source = .json then .ok x else .error (issue .floatType)
  | .bool b => .ok (Binary64.ofInt (if b then 1 else 0))
  | .text s => realOfText s
  | .brokenText _ => .error (issue .stringUnicode)
  | .bytes content => (textOfBytes content .floatParsing).bind realOfText
  | _ => .error (issue .floatType)

def booleanOfText (s : String) : Outcome Value :=
  let word := String.ofList (Text.lower s.toList)
  if ["0", "off", "f", "false", "n", "no"].contains word then .ok (.bool false)
  else if ["1", "on", "t", "true", "y", "yes"].contains word then .ok (.bool true)
  else .error (issue .boolParsing)

def booleanOfInt (n : Int) : Outcome Value :=
  if n = 0 then .ok (.bool false) else if n = 1 then .ok (.bool true)
  else .error (issue .boolParsing)

def readBoolean : Value → Outcome Value
  | .bool b => .ok (.bool b)
  | .text s => booleanOfText s
  | .brokenText _ => .error (issue .stringUnicode)
  | .bytes content => (textOfBytes content .boolParsing).bind booleanOfText
  | .int n => if isInt64 n then booleanOfInt n else .error (issue .boolType)
  | .real x =>
    match wholeNumber x with
    | .ok n => booleanOfInt n
    | .error _ => .error (issue .boolType)
  | _ => .error (issue .boolType)

def readText : Value → Outcome Value
  | .text s => .ok (.text s)
  | .brokenText points => .ok (.brokenText points)
  | .bytes content => (textOfBytes content .stringUnicode).map .text
  | _ => .error (issue .stringType)

/-- Reads a path, whose text is kept in its normal form. -/
def readPath : Value → Outcome Value
  | .text s => .ok (.text (FilePath.ofText s).toText)
  | _ => .error (issue .pathType)

def readItems (item : Value → Outcome Value) : Nat → List Value → Outcome (List Value)
  | _, [] => .ok []
  | index, v :: rest =>
    (((item v).at (.index index)).and (readItems item (index + 1) rest)).map fun (v, rest) =>
      v :: rest

def readTable (item : Value → Outcome Value) : List (String × Value) →
    Outcome (List (String × Value))
  | [] => .ok []
  | (key, v) :: rest =>
    (((item v).at (.field key)).and (readTable item rest)).map fun (v, rest) => (key, v) :: rest

def addField (name : String) (value : Outcome Value) (rest : Outcome (List (String × Value))) :
    Outcome (List (String × Value)) :=
  ((value.at (.field name)).and rest).map fun (v, rest) => (name, v) :: rest

mutual

def readKind (source : Source) : FieldKind → Value → Outcome Value
  | .text, v => readText v
  | .path, v => readPath v
  | .integer, v => readInteger v
  | .real bound, v => (readReal source v).bind (Bound.check bound)
  | .boolean, v => readBoolean v
  | .list item, v =>
    match v with
    | .list items => (readItems (fun x => readKind source item x) 0 items).map .list
    | .tuple items => (readItems (fun x => readKind source item x) 0 items).map .list
    | .record _ fields =>
      (readItems (fun x => readKind source item x) 0 (Value.pairItems fields)).map .list
    | _ => .error (issue .listType)
  | .table item, v =>
    match v with
    | .object fields =>
      (readTable (fun x => readKind source item x) fields).map fun pairs =>
        .object (Entries.ofPairs pairs)
    | .brokenObject keys items =>
      let names := keys.map Text.CodePoint.shownText
      (readTable (fun x => readKind source item x) (names.zip items)).map fun pairs =>
        .brokenObject keys (pairs.map Prod.snd)
    | _ => .error (issue .tableType)
  | .optional inner, v =>
    match v with
    | .null => .ok .null
    | v => readKind source inner v
  | .record model, v => readModel source model v

def readModel (source : Source) : RecordModel → Value → Outcome Value
  | .mk name fields, v =>
    match v with
    | .record model content =>
      if model = name then .ok (.record model content) else .error (issue .recordType)
    | v =>
      match v.entries? with
      | some pairs => (readFields source fields (Entries.ofPairs pairs)).map (.record name)
      | none => .error (issue .recordType)

def readFields (source : Source) : List (String × FieldKind × Option Value) → Entries Value →
    Outcome (List (String × Value))
  | [], _ => .ok []
  | (name, kind, default?) :: rest, entries =>
    let value :=
      match entries.get? name, default? with
      | some v, _ => readKind source kind v
      | none, some v => .ok v
      | none, none => .error (issue .missing)
    addField name value (readFields source rest entries)

end

def readJson (model : RecordModel) (s : String) : Outcome Value :=
  match Json.readDocument .strict (Text.CodePoint.ofText s) with
  | .error _ => .error (issue .invalidJson)
  | .ok v => readModel .json model v

/-- Reads anything as a record of a model: texts and bytes as JSON, all else as it is. -/
def read (model : RecordModel) : Value → Outcome Value
  | .text s => readJson model s
  | .brokenText _ => .error (issue .stringUnicode)
  | .bytes content => (textOfBytes content .invalidJson).bind (readJson model)
  | v => readModel .data model v

end Record

def RecordModel.name : RecordModel → String
  | .mk name _ => name

end PromptChain
