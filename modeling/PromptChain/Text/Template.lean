import PromptChain.Text.Word
/-!
# Templates

A template is a text with tokens: two opening braces, a key of word characters and hyphens, two
closing braces.  A template is cut into pieces once, from the left; what replaces a token is never
looked at again.
-/

namespace PromptChain.Text

def isKeyChar (c : Char) : Bool := isWord c || c = '-'

def leadingToken? : List Char → Option (List Char)
  | '{' :: '{' :: rest =>
    let key := rest.takeWhile isKeyChar
    match key, rest.dropWhile isKeyChar with
    | _ :: _, '}' :: '}' :: _ => some key
    | _, _ => none
  | _ => none

inductive Piece where
  | literal (c : Char)
  | token (key : List Char)
  deriving DecidableEq, Repr

/-- The pieces of a template, of whose characters the first `skip` are already accounted for. -/
def piecesFrom (skip : Nat) : List Char → List Piece
  | [] => []
  | c :: rest =>
    match skip with
    | skip + 1 => piecesFrom skip rest
    | 0 =>
      match leadingToken? (c :: rest) with
      | some key => .token key :: piecesFrom (key.length + 3) rest
      | none => .literal c :: piecesFrom 0 rest

def pieces (cs : List Char) : List Piece := piecesFrom 0 cs

def tokenChars (key : List Char) : List Char := '{' :: '{' :: key ++ ['}', '}']

/-- The text that pieces stand for, where `resolve` gives the text for a key, if it has one, and a
token without one stands for itself.  The first key that cannot be resolved is the outcome. -/
def fill {ε : Type} (resolve : String → Except ε (Option String)) :
    List Piece → Except ε (List Char)
  | [] => .ok []
  | .literal c :: rest =>
    match fill resolve rest with
    | .error e => .error e
    | .ok cs => .ok (c :: cs)
  | .token key :: rest =>
    match resolve (String.ofList key) with
    | .error e => .error e
    | .ok found =>
      match fill resolve rest with
      | .error e => .error e
      | .ok cs => .ok ((found.map String.toList).getD (tokenChars key) ++ cs)

def substitute {ε : Type} (resolve : String → Except ε (Option String)) (s : String) :
    Except ε String :=
  (fill resolve (pieces s.toList)).map String.ofList

end PromptChain.Text
