import PromptChain.Json.Writer
import PromptChain.Message
import PromptChain.Text.Slug
import PromptChain.Text.Template
import PromptChain.Value.Access
/-!
# Prompts

A prompt is built up by edits, and sent as one message of the user.  Its text is a template, whose
tokens are replaced by the artifacts of the moment when it is sent.  What came back is kept with the
prompt.  Keys and labels are kept as the data that they were given as.

The texts of prompts are strings.  Where a text with surrogates that stand alone goes into one, as
an input of the user, the name of a section, an artifact, or a value that is to be reshaped, every
such surrogate is shown as the replacement character U+FFFD (`CodePoint.shown`).
-/

namespace PromptChain

structure Prompt where
  content : String := ""
  /-- The key under which the response is kept as an artifact; an empty key keeps nothing. -/
  key : Value := .text ""
  label : Value := .text "Prompt"
  executed : Bool := false
  /-- An incognito prompt leaves no trace in the history. -/
  incognito : Bool := false
  /-- The response, null if there is none. -/
  response : Value := .null
  deriving DecidableEq, Inhabited

/-- The text for a token: a text stands for itself and any other artifact for its JSON; a missing or
null artifact has none. -/
def artifactText (artifacts : Table Value) (key : String) : Except Fault (Option String) :=
  match artifacts.get? (.text key) with
  | none => .ok none
  | some .null => .ok none
  | some (.text s) => .ok (some s)
  | some (.brokenText points) => .ok (some (Text.CodePoint.shownText points))
  | some v => (Json.compact v).map some

def resolve (artifacts : Table Value) (s : String) : Except Fault String :=
  Text.substitute (artifactText artifacts) s

namespace Prompt

inductive Edit where
  | text (lines : Value)
  | section (name lines : Value)
  | saveAs (key : Value)
  | setLabel (label : Value)
  | incognito
  | reset
  /-- Resolves the message, and changes nothing. -/
  | preview

def sectionText (tag body : String) : String :=
  "\n\n<" ++ tag ++ ">\n" ++ body ++ "\n</" ++ tag ++ ">\n\n"

def message (artifacts : Table Value) (p : Prompt) : Except Fault Message :=
  (resolve artifacts p.content).map Message.user

def addSection (p : Prompt) (name lines : Value) : Except Fault Prompt :=
  match name.slugged with
  | .error e => .error e
  | .ok tag =>
    match lines.joinInput with
    | .error e => .error e
    | .ok body => .ok { p with content := p.content ++ sectionText tag body }

def reset (p : Prompt) : Prompt := { p with executed := false }

def edit (artifacts : Table Value) (p : Prompt) : Edit → Except Fault Prompt
  | .text lines => lines.joinInput.map fun s => { p with content := s }
  | .section name lines => p.addSection name lines
  | .saveAs key => .ok { p with key := key }
  | .setLabel label => .ok { p with label := label }
  | .incognito => .ok { p with incognito := true }
  | .reset => .ok p.reset
  | .preview => (p.message artifacts).map fun _ => p

def editAll (artifacts : Table Value) (p : Prompt) : List Edit → Except Fault Prompt
  | [] => .ok p
  | e :: rest =>
    match p.edit artifacts e with
    | .error e => .error e
    | .ok p => editAll artifacts p rest

def saveKey? (p : Prompt) : Option Value := if p.key.isFalsy then none else some p.key

def answered (p : Prompt) (response : Value) : Prompt :=
  { p with response := response, executed := true }

structure Delivery where
  message : Message
  prompt : Prompt
  kept : Option (Value × Value)
  deriving DecidableEq

def delivery (p : Prompt) (m : Message) (response : Value) : Delivery where
  message := m
  prompt := p.answered response
  kept := p.saveKey?.map fun key => (key, response)

/-- Sends the message of a prompt through `chat`.  A message that cannot be resolved is not sent. -/
def send {ε : Type} (artifacts : Table Value)
    (chat : Message → ε → Except Fault Value × ε) (p : Prompt) (env : ε) :
    Except Fault Delivery × ε :=
  match p.message artifacts with
  | .error e => (.error e, env)
  | .ok m =>
    match chat m env with
    | (.error e, env) => (.error e, env)
    | (.ok response, env) => (.ok (p.delivery m response), env)

/-- A prompt as data, with its text unresolved. -/
def toValue (p : Prompt) : Value :=
  .object [("key", p.key), ("label", p.label), ("is_incognito", .bool p.incognito),
    ("executed", .bool p.executed), ("message", (Message.user p.content).toValue),
    ("response", p.response)]

end Prompt

end PromptChain
