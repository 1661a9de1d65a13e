import PromptChain.Value
/-!
# Messages

A conversation is a list of messages, each of which has a role and a content.  Both are texts as a
rule, but they are passed on as whatever data they are.
-/

namespace PromptChain

structure Message where
  role : Value
  content : Value
  deriving DecidableEq, Inhabited

namespace Message

def userRole : Value := .text "user"

def assistantRole : Value := .text "assistant"

def systemRole : Value := .text "system"

def user (content : String) : Message := ⟨userRole, .text content⟩

def assistant (content : Value) : Message := ⟨assistantRole, content⟩

def system (content : Value) : Message := ⟨systemRole, content⟩

def toValue (m : Message) : Value := .object [("role", m.role), ("content", m.content)]

end Message

end PromptChain
