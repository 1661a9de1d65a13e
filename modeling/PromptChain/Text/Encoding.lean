import PromptChain.Text.CodePoint
import PromptChain.Text.Hex
/-!
# Encodings of text

The encodings in which a text may come as bytes, how they are told apart, and what makes bytes
undecodable.  Surrogates that stand alone are let through when bytes are decoded; a text that holds
one cannot be encoded.
-/

namespace PromptChain.Text

def byteOrderMark : Char := '\ufeff'

inductive Encoding where
  | utf8
  | utf16 (bigEndian : Bool)
  | utf32 (bigEndian : Bool)
  deriving DecidableEq, Repr

def Encoding.name : Encoding → String
  | .utf8 => "utf-8"
  | .utf16 true => "utf-16-be"
  | .utf16 false => "utf-16-le"
  | .utf32 true => "utf-32-be"
  | .utf32 false => "utf-32-le"

inductive Damage where
  | startByte
  | continuationByte
  | endOfData
  | truncated
  | codePoint
  deriving DecidableEq, Repr

def Damage.message : Damage → String
  | .startByte => "invalid start byte"
  | .continuationByte => "invalid continuation byte"
  | .endOfData => "unexpected end of data"
  | .truncated => "truncated data"
  | .codePoint => "code point not in range(0x110000)"

structure Undecodable where
  encoding : Encoding
  damage : Damage
  offset : Nat
  bytes : List UInt8
  deriving DecidableEq, Repr

def Undecodable.message (u : Undecodable) : String :=
  let place :=
    match u.bytes with
    | [byte] =>
      "byte 0x" ++ String.ofList (hexBytes [byte]) ++ " in position " ++ toString u.offset
    | bytes =>
      "bytes in position " ++ toString u.offset ++ "-" ++ toString (u.offset + bytes.length - 1)
  "'" ++ u.encoding.name ++ "' codec can't decode " ++ place ++ ": " ++ u.damage.message

/-- Surrogates that no encoding has bytes for: the first ones of a text that stand one after the
other. -/
structure Unencodable where
  offset : Nat
  surrogates : List (Fin 0x800)
  deriving DecidableEq, Repr

def Unencodable.message (u : Unencodable) : String :=
  let place :=
    match u.surrogates with
    | [surrogate] =>
      "character '\\u" ++ String.ofList (hexDigits 4 (CodePoint.unitOf surrogate))
        ++ "' in position " ++ toString u.offset
    | surrogates =>
      "characters in position " ++ toString u.offset ++ "-"
        ++ toString (u.offset + surrogates.length - 1)
  "'utf-8' codec can't encode " ++ place ++ ": surrogates not allowed"

def leadingSurrogates : List CodePoint → List (Fin 0x800)
  | .surrogate offset :: rest => offset :: leadingSurrogates rest
  | _ => []

/-- The characters of a text that is to be encoded, from an offset on. -/
def encodable (offset : Nat) : List CodePoint → Except Unencodable (List Char)
  | [] => .ok []
  | .char c :: rest => (encodable (offset + 1) rest).map (c :: ·)
  | .surrogate s :: rest => .error { offset, surrogates := s :: leadingSurrogates rest }

theorem encodable_ofChars (offset : Nat) (cs : List Char) :
    encodable offset (CodePoint.ofChars cs) = .ok cs := by
  induction cs generalizing offset with
  | nil => rfl
  | cons c rest ih =>
    rw [CodePoint.ofChars_cons, encodable, ih]
    rfl

/-- The number of bytes of the character that a byte begins, zero if it begins none. -/
def utf8Length (first : UInt8) : Nat :=
  if first < 0x80 then 1 else if first < 0xc2 then 0 else if first < 0xe0 then 2
  else if first < 0xf0 then 3 else if first < 0xf5 then 4 else 0

def leadingChar? (bytes : List UInt8) : Option (Char × Nat) :=
  let length := utf8Length (bytes.headD 0)
  match (String.fromUTF8? (ByteArray.mk (bytes.take length).toArray)).map String.toList with
  | some [c] => some (c, length)
  | _ => none

/-- Whether a byte may stand second in a character that begins with `first`. -/
def isSecond (first byte : UInt8) : Bool :=
  (if first = 0xe0 then 0xa0 else if first = 0xf0 then 0x90 else 0x80) ≤ byte
    && byte ≤ (if first = 0xed then 0x9f else if first = 0xf4 then 0x8f else 0xbf)

def damageAt (offset : Nat) (first : UInt8) (rest : List UInt8) : Undecodable :=
  let length := utf8Length first
  if length = 0 then { encoding := .utf8, damage := .startByte, offset, bytes := [first] }
  else
    let begun :=
      match rest with
      | [] => []
      | second :: more =>
        if isSecond first second then
          second :: (more.take (length - 2)).takeWhile fun byte => 0x80 ≤ byte && byte ≤ 0xbf
        else []
    let damage := if begun.length = rest.length then Damage.endOfData else .continuationByte
    { encoding := .utf8, damage, offset, bytes := first :: begun }

/-- The code point that bytes start with, and its number of bytes.  A surrogate of three bytes
counts as one, though it is no UTF-8. -/
def pointAt? : List UInt8 → Option (CodePoint × Nat)
  | 0xed :: second :: third :: rest =>
    if 0xa0 ≤ second && second ≤ 0xbf && 0x80 ≤ third && third ≤ 0xbf then
      some (.ofNat (0xd000 + (second.toNat - 0x80) * 0x40 + (third.toNat - 0x80)), 3)
    else leadingPoint? (0xed :: second :: third :: rest)
  | bytes => leadingPoint? bytes
where
  leadingPoint? (bytes : List UInt8) : Option (CodePoint × Nat) :=
    (leadingChar? bytes).map fun (c, length) => (.char c, length)

/-- Decodes UTF-8 from an offset on, where `skip` more bytes are already accounted for. -/
def decodeUtf8 (offset skip : Nat) : List UInt8 → Except Undecodable (List CodePoint)
  | [] => .ok []
  | byte :: rest =>
    match skip with
    | skip + 1 => decodeUtf8 (offset + 1) skip rest
    | 0 =>
      match pointAt? (byte :: rest) with
      | some (p, length) => (decodeUtf8 (offset + 1) (length - 1) rest).map (p :: ·)
      | none => .error (damageAt offset byte rest)

def numberOfBytes (bigEndian : Bool) (bytes : List UInt8) : Nat :=
  (if bigEndian then bytes else bytes.reverse).foldl (fun n byte => 256 * n + byte.toNat) 0

def utf16Units (bigEndian : Bool) (offset : Nat) : List UInt8 → Except Undecodable (List Nat)
  | a :: b :: rest =>
    (utf16Units bigEndian (offset + 2) rest).map (numberOfBytes bigEndian [a, b] :: ·)
  | [] => .ok []
  | bytes => .error { encoding := .utf16 bigEndian, damage := .truncated, offset, bytes }

def decodeUtf16 (bigEndian : Bool) (offset : Nat) (bytes : List UInt8) :
    Except Undecodable (List CodePoint) :=
  (utf16Units bigEndian offset bytes).map CodePoint.ofUnits

def decodeUtf32 (bigEndian : Bool) (offset : Nat) :
    List UInt8 → Except Undecodable (List CodePoint)
  | a :: b :: c :: d :: rest =>
    let bytes := [a, b, c, d]
    let point := numberOfBytes bigEndian bytes
    if 0x110000 ≤ point then
      .error { encoding := .utf32 bigEndian, damage := .codePoint, offset, bytes }
    else (decodeUtf32 bigEndian (offset + 4) rest).map (.ofNat point :: ·)
  | [] => .ok []
  | bytes => .error { encoding := .utf32 bigEndian, damage := .truncated, offset, bytes }

/-- The encoding of a text that starts with an ASCII character or with a mark, and the number of
bytes of the mark. -/
def Encoding.detect (bytes : List UInt8) : Encoding × Nat :=
  if [0x00, 0x00, 0xfe, 0xff].isPrefixOf bytes then (.utf32 true, 4)
  else if [0xff, 0xfe, 0x00, 0x00].isPrefixOf bytes then (.utf32 false, 4)
  else if [0xfe, 0xff].isPrefixOf bytes then (.utf16 true, 2)
  else if [0xff, 0xfe].isPrefixOf bytes then (.utf16 false, 2)
  else if [0xef, 0xbb, 0xbf].isPrefixOf bytes then (.utf8, 3)
  else
    match bytes with
    | a :: b :: c :: d :: _ =>
      if a = 0 then (if b = 0 then .utf32 true else .utf16 true, 0)
      else if b = 0 then (if c = 0 && d = 0 then .utf32 false else .utf16 false, 0)
      else (.utf8, 0)
    | [a, b] => (if a = 0 then .utf16 true else if b = 0 then .utf16 false else .utf8, 0)
    | _ => (.utf8, 0)

/-- Decodes bytes in the encoding that they are in; a mark is no part of the text. -/
def decode (bytes : List UInt8) : Except Undecodable (List CodePoint) :=
  let (encoding, mark) := Encoding.detect bytes
  let rest := bytes.drop mark
  match encoding with
  | .utf8 => decodeUtf8 0 0 rest
  | .utf16 bigEndian => decodeUtf16 bigEndian mark rest
  | .utf32 bigEndian => decodeUtf32 bigEndian mark rest

end PromptChain.Text
