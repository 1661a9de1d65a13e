import PromptChain.Text.Ranges
/-!
# Blank characters

The characters that trimming removes: white space, the separators, and the four information
separators U+001C to U+001F.
-/

namespace PromptChain.Text

def blankRanges : List (Nat × Nat) :=
  [(9, 13), (28, 32), (133, 133), (160, 160), (5760, 5760), (8192, 8202), (8232, 8233),
    (8239, 8239), (8287, 8287), (12288, 12288)]

def isBlank (c : Char) : Bool := inRanges blankRanges c.toNat

/-- A text without its leading and trailing characters of a class. -/
def strip {α : Type} (drop : α → Bool) (cs : List α) : List α :=
  ((cs.dropWhile drop).reverse.dropWhile drop).reverse

def trimChars (cs : List Char) : List Char := strip isBlank cs

def trim (s : String) : String := String.ofList (trimChars s.toList)

end PromptChain.Text
