import PromptChain.Text.CodePoint
import PromptChain.Text.Hex
import PromptChain.Text.Printable
/-!
# Quoted literals

A text or a string of bytes between quotes, so that it reads unambiguously in a message.  Double
quotes are used only for a content with a single quote and without a double one.
-/

namespace PromptChain.Text

def quoteFor (hasSingle hasDouble : Bool) : Char :=
  if hasSingle && !hasDouble then '"' else '\x27'

def commonEscape? (mark c : Char) : Option (List Char) :=
  if c = mark || c = '\\' then some ['\\', c]
  else if c = '\t' then some ['\\', 't']
  else if c = '\n' then some ['\\', 'n']
  else if c = '\r' then some ['\\', 'r']
  else none

/-- A character inside quotes: as it is if it is printable, otherwise its code point. -/
def quoteChar (mark c : Char) : List Char :=
  match commonEscape? mark c with
  | some escaped => escaped
  | none =>
    if isPrintable c then [c]
    else if c.toNat < 0x100 then '\\' :: 'x' :: hexDigits 2 c.toNat
    else if c.toNat < 0x10000 then '\\' :: 'u' :: hexDigits 4 c.toNat
    else '\\' :: 'U' :: hexDigits 8 c.toNat

def quote (cs : List Char) : List Char :=
  let mark := quoteFor (cs.contains '\x27') (cs.contains '"')
  mark :: cs.flatMap (quoteChar mark) ++ [mark]

/-- A code point inside quotes.  Like whatever is not printable, a surrogate is its number. -/
def quotePoint (mark : Char) : CodePoint → List Char
  | .char c => quoteChar mark c
  | .surrogate offset => '\\' :: 'u' :: hexDigits 4 (CodePoint.unitOf offset)

def quotePoints (points : List CodePoint) : List Char :=
  let mark := quoteFor (points.any (·.is '\x27')) (points.any (·.is '"'))
  mark :: points.flatMap (quotePoint mark) ++ [mark]

/-- A byte inside quotes: its ASCII character if that is printable, otherwise its value. -/
def quoteByte (mark : Char) (byte : UInt8) : List Char :=
  match commonEscape? mark (Char.ofNat byte.toNat) with
  | some escaped => escaped
  | none =>
    if 32 ≤ byte.toNat && byte.toNat < 127 then [Char.ofNat byte.toNat]
    else '\\' :: 'x' :: hexDigits 2 byte.toNat

def quoteBytes (bytes : List UInt8) : List Char :=
  let mark := quoteFor (bytes.contains 39) (bytes.contains 34)
  'b' :: mark :: bytes.flatMap (quoteByte mark) ++ [mark]

end PromptChain.Text
