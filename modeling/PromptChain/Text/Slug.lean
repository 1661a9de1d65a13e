import PromptChain.Text.Blank
import PromptChain.Text.Casing
import PromptChain.Text.Word
/-!
# Slugs

A slug is the form of a name that may stand in a tag: lower case, word characters only, and no
underscore at either end.
-/

namespace PromptChain.Text

/-- Replaces every run of other characters between word characters by one underscore.  `gap` says
that the run before the text has been replaced already. -/
def bridgeGaps (gap : Bool) : List Char → List Char
  | [] => []
  | c :: rest =>
    if isWord c then c :: bridgeGaps false rest
    else if gap then bridgeGaps true rest
    else '_' :: bridgeGaps true rest

def slugChars (name : List Char) : List Char :=
  strip (· = '_') (bridgeGaps false (lower (trimChars name)))

def slug (name : String) : String := String.ofList (slugChars name.toList)

end PromptChain.Text
