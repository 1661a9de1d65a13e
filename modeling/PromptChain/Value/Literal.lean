import PromptChain.Fault
import PromptChain.Number.Decimal
import PromptChain.Value
/-!
# The literal text of values

How a value is shown in a message: texts and bytes in quotes, numbers in decimals, brackets that
tell lists, tuples and objects apart, records by model and fields.  An integer with too many digits
has no text, and then neither has what contains it.
-/

namespace PromptChain

/-- The decimal text of an integer, unless it has too many digits. -/
def intText (n : Int) : Except Fault (List Char) :=
  if isLongInt n then .error .longInteger else .ok (intDigits n)

def realText : Binary64 → List Char
  | .nan => ['n', 'a', 'n']
  | .infinite false => ['i', 'n', 'f']
  | .infinite true => ['-', 'i', 'n', 'f']
  | .finite negative m q _ => Binary64.finiteChars negative m q

def joinChars (separator : List Char) : List (List Char) → List Char
  | [] => []
  | [cs] => cs
  | cs :: rest => cs ++ separator ++ joinChars separator rest

namespace Value

def literalSeparator : List Char := [',', ' ']

mutual

def literal : Value → Except Fault (List Char)
  | .null => .ok ['N', 'o', 'n', 'e']
  | .bool true => .ok ['T', 'r', 'u', 'e']
  | .bool false => .ok ['F', 'a', 'l', 's', 'e']
  | .int n => intText n
  | .real x => .ok (realText x)
  | .text s => .ok (Text.quote s.toList)
  | .brokenText points => .ok (Text.quotePoints points)
  | .bytes content => .ok (Text.quoteBytes content)
  | .tuple items =>
    match literalItems items with
    | .error e => .error e
    | .ok [one] => .ok ('(' :: one ++ [',', ')'])
    | .ok shown => .ok ('(' :: joinChars literalSeparator shown ++ [')'])
  | .list items =>
    match literalItems items with
    | .error e => .error e
    | .ok shown => .ok ('[' :: joinChars literalSeparator shown ++ [']'])
  | .object fields =>
    match literalFields (fun key => Text.quote key.toList ++ [':', ' ']) fields with
    | .error e => .error e
    | .ok shown => .ok ('\x7b' :: joinChars literalSeparator shown ++ ['\x7d'])
  | .brokenObject keys items =>
    match literalItems items with
    | .error e => .error e
    | .ok shown =>
      let fields := keys.zipWith (fun key item => Text.quotePoints key ++ ':' :: ' ' :: item) shown
      .ok ('\x7b' :: joinChars literalSeparator fields ++ ['\x7d'])
  | .record model fields =>
    match literalFields (fun key => key.toList ++ ['=']) fields with
    | .error e => .error e
    | .ok shown => .ok (model.toList ++ '(' :: joinChars literalSeparator shown ++ [')'])

def literalItems : List Value → Except Fault (List (List Char))
  | [] => .ok []
  | item :: rest =>
    match literal item with
    | .error e => .error e
    | .ok shown =>
      match literalItems rest with
      | .error e => .error e
      | .ok more => .ok (shown :: more)

/-- The literals of fields, each behind its key as `label` writes it. -/
def literalFields (label : String → List Char) :
    List (String × Value) → Except Fault (List (List Char))
  | [] => .ok []
  | (key, item) :: rest =>
    match literal item with
    | .error e => .error e
    | .ok shown =>
      match literalFields label rest with
      | .error e => .error e
      | .ok more => .ok ((label key ++ shown) :: more)

end

def shown (v : Value) : Except Fault String := v.literal.map String.ofList

/-- A value as plain text: a text is itself, a record is its fields, all else is its literal. -/
def plain : Value → Except Fault (List Char)
  | .text s => .ok s.toList
  | .brokenText points => .ok (points.map Text.CodePoint.shown)
  | .record _ fields =>
    (literalFields (fun key => key.toList ++ ['=']) fields).map (joinChars [' '])
  | v => v.literal

end Value

end PromptChain
