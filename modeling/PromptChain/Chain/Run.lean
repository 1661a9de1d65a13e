import PromptChain.Chain.Walk
import PromptChain.Schema.Describe
import PromptChain.Schema.Example
/-!
# Running chains

To run a chain is to walk its queue and to settle on a result.  If the chain has a formatter, the
result is reshaped: a model is shown a schema and an example, and asked to transform the result.  An
answer that does not parse earns one correction.  Reshaping happens on a chain of its own, which
shares the providers and the channel.
-/

namespace PromptChain.Session

variable {ε : Type}

/-- The outcome of a run, or nothing if the steps allowed were too few to tell. -/
abbrev Answer := Option (Except Fault Value)

inductive Limit where
  /-- Up to a number of steps; the run is settled then all the same. -/
  | steps (count : Int)
  /-- Until no step is pending; a run that takes more steps than the fuel has no answer. -/
  | all (fuel : Nat)
  /-- Up to the first pending step, at which it shows that no number of steps was given. -/
  | invalid (why : Fault)
  deriving DecidableEq

/-- The limit that a number stands for; null, and what no count of steps ever reaches, is none. -/
def Limit.ofValue (fuel : Nat) (v : Value) : Limit :=
  if v = .null then .all fuel
  else
    match v.compared ">=" with
    | .error e => .invalid e
    | .ok (.whole n) => .steps n
    | .ok (.real (.infinite true)) => .steps 0
    | .ok (.real x) => (x.ceiling?.map .steps).getD (.all fuel)

def Limit.budget : Limit → Nat
  | .steps count => count.toNat
  | .all fuel => fuel
  | .invalid _ => 0

/-- Settles on the last result, or answers with an artifact. -/
def settle (s : Session ε) (returnKey : Value) : Except Fault Value × Session ε :=
  if !returnKey.isFalsy then (s.chain.artifact returnKey, s)
  else if s.chain.last = .null then (.error .emptyResult, s)
  else (.ok s.chain.last, { s with chain := { s.chain with result := s.chain.last } })

/-- Walks the queue, and goes on with `next` from there, given the number of steps executed. -/
def walkThen (b : Backend ε) (limit : Limit) (s : Session ε)
    (next : Nat → Session ε → Answer × Session ε) : Answer × Session ε :=
  match walk b limit.budget 0 s with
  | (.failed e, _, s) => (some (.error e), s)
  | (.finished, count, s) => next count s
  | (.paused, count, s) =>
    match limit with
    | .steps _ => next count s
    | .all _ => (none, s)
    | .invalid why => (some (.error why), s)

def processPlain (b : Backend ε) (limit : Limit) (returnKey : Value) (s : Session ε) :
    Answer × Session ε :=
  walkThen b limit s fun _ s =>
    let (outcome, s) := s.settle returnKey
    (some outcome, s)

/-! ## Reshaping -/

def linesValue (lines : List String) : Value := .list (lines.map .text)

def reshapeSystem : List String :=
  ["You are a formatter that takes in data and a JSON like schema describing the desired output.",
    "Your task is to transform the data to match the schema.",
    "Your response is ONLY VALID JSON with no additional text."]

def correctionLines : List String :=
  ["There was an error parsing the JSON. Please fix the error and return the correct JSON.",
    "Your response is ONLY VALID JSON with no additional text.", "Please try again:"]

def unknownSchema : Value := .text "unknown schema"

def schemaText (schema : Schema) : Except Fault Value :=
  schema.desc.map fun desc => if desc.isFalsy then unknownSchema else desc

def valueText (v : Value) : Except Fault String :=
  match v with
  | .text s => .ok s
  | .brokenText points => .ok (Text.CodePoint.shownText points)
  | v => Json.compact v

def token (key : String) : Value := .text (String.ofList (Text.tokenChars key.toList))

def sectionEdit (name : String) (lines : Value) : Prompt.Edit := .section (.text name) lines

def transformName : String := "Transform to match schema"

def requestEdits : List Prompt.Edit :=
  [.setLabel (.text "Format"), sectionEdit "Schema:" (token "schema"),
    sectionEdit "Example" (token "example"), sectionEdit transformName (token "value")]

def correctionEdits (error : String) (response description : Value) : List Prompt.Edit :=
  [.setLabel (.text "Format retry"), .text (linesValue correctionLines),
    sectionEdit "error" (.text error), sectionEdit "response" response,
    sectionEdit "Schema" description, sectionEdit transformName (token "value")]

def performAll (b : Backend ε) (s : Session ε) : List Command → Except Fault Unit × Session ε
  | [] => (.ok (), s)
  | command :: rest =>
    match s.perform b command with
    | (.error e, s) => (.error e, s)
    | (.ok _, s) => s.performAll b rest

/-- Gives commands as soon as their text is known; without a text the session stays as it is. -/
def performWith {α : Type} (b : Backend ε) (s : Session ε) (given : Except Fault α)
    (commands : α → List Command) : Except Fault Unit × Session ε :=
  match given with
  | .error e => (.error e, s)
  | .ok x => s.performAll b (commands x)

def request (b : Backend ε) (s : Session ε) (v : Value) (schema : Schema) :
    Except Fault Unit × Session ε :=
  match valueText v with
  | .error e => (.error e, s)
  | .ok text =>
    match s.performAll b [.system (linesValue reshapeSystem)] with
    | (.error e, s) => (.error e, s)
    | (.ok _, s) =>
      match s.performWith b (schemaText schema) fun d => [.insert (.text "schema") d] with
      | (.error e, s) => (.error e, s)
      | (.ok _, s) =>
        s.performWith b schema.exampleOf fun shown =>
          [.insert (.text "example") shown, .insert (.text "value") (.text text),
            .build requestEdits]

/-- Parses a response, or corrects it once. -/
def correct (b : Backend ε) (run : Session ε → Answer × Session ε) (schema : Schema)
    (response : Value) (s : Session ε) : Answer × Session ε :=
  match schema.parse response with
  | .ok v => (some (.ok v), s)
  | .error e =>
    match s.performWith b (schemaText schema) fun d =>
        [.build (correctionEdits e.message response d)] with
    | (.error e, s) => (some (.error e), s)
    | (.ok _, s) =>
      match run s with
      | (some (.ok response), s) => (some (schema.parse response), s)
      | (answer, s) => (answer, s)

/-- Has a value transformed to match a schema, on the session's own chain, which `run` runs. -/
def reshapeWith (b : Backend ε) (run : Session ε → Answer × Session ε) (v : Value)
    (schema : Schema) (s : Session ε) : Answer × Session ε :=
  match s.request b v schema with
  | (.error e, s) => (some (.error e), s)
  | (.ok _, s) =>
    match run s with
    | (some (.ok response), s) => correct b run schema response s
    | (answer, s) => (answer, s)

/-- The limit of a chain that only reshapes: it executes a system prompt and a request at first, and
a correction later. -/
def reshapeLimit : Limit := .all 2

def reshapeApart (b : Backend ε) (v : Value) (schema : Schema) (s : Session ε) :
    Answer × Session ε :=
  match Chain.start s.chain.providers s.chain.formatKey with
  | .error e => (some (.error e), s)
  | .ok fresh =>
    let (answer, apart) :=
      reshapeWith b (processPlain b reshapeLimit .null) v schema { s with chain := fresh }
    (answer, { apart with chain := s.chain })

/-! ## Processing -/

/-- Formats the last result, unless that has been done and no step was executed since. -/
def formatLast (b : Backend ε) (schema : Schema) (count : Nat) (s : Session ε) :
    Answer × Session ε :=
  if 0 < count ∨ s.chain.formatted = false then
    if s.chain.last = .null then (some (.error .emptyResult), s)
    else
      match reshapeApart b s.chain.last schema s with
      | (some (.ok v), s) =>
        (some (.ok v), { s with chain := { s.chain with result := v, formatted := true } })
      | (answer, s) => (answer, s)
  else (some (.ok s.chain.result), s)

def process (b : Backend ε) (limit : Limit) (returnKey : Value) (s : Session ε) :
    Answer × Session ε :=
  walkThen b limit s fun count s =>
    match s.chain.formatter with
    | some schema => formatLast b schema count s
    | none =>
      let (outcome, s) := s.settle returnKey
      (some outcome, s)

def missingArtifact (key : Value) : Except Fault Value :=
  match key.plain with
  | .error e => .error e
  | .ok shown => .error (.missingArtifact (String.ofList shown))

def formattedArtifact (b : Backend ε) (key : Value) (schema : Schema) (s : Session ε) :
    Answer × Session ε :=
  match s.chain.artifact key with
  | .error e => (some (.error e), s)
  | .ok .null => (some (missingArtifact key), s)
  | .ok v => reshapeApart b v schema s

def reshape (b : Backend ε) (fuel : Nat) (v : Value) (schema : Schema) (s : Session ε) :
    Answer × Session ε :=
  reshapeWith b (process b (.all fuel) .null) v schema s

end PromptChain.Session
