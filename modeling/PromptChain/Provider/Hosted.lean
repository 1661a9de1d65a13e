import PromptChain.Message
import PromptChain.Provider.Catalog
/-!
# Hosted models

Providers whose clients take a conversation and return a completion.  They differ in where the
system prompt goes, in front of the messages or beside them, and in how a completion is laid out.
-/

namespace PromptChain

/-- The two ways to pass a system prompt, each with the layout of its completions. -/
inductive HostedStyle where
  | inBand
  | outOfBand
  deriving DecidableEq, Repr

def HostedStyle.word : HostedStyle → String
  | .inBand => "openai"
  | .outOfBand => "anthropic"

/-- Where the client of a provider comes from: it is given, or opened with a key and an address. -/
inductive ClientSource where
  | given
  | opened (apiKey baseUrl : Value)
  deriving DecidableEq

structure Hosted where
  style : HostedStyle
  catalog : Catalog
  maxTokens : Value
  source : ClientSource := .given

structure CompletionRequest where
  model : Value
  maxTokens : Value
  /-- The system prompt, if it does not stand in front of the messages. -/
  system : Option Value
  messages : List Message
  deriving DecidableEq

inductive Completion where
  | choices (contents : List Value)
  /-- Blocks, each with the name of its kind and its text. -/
  | blocks (content : List (Value × Value))

namespace Hosted

def defaultMaxTokens : Value := .int 4096

def inBandModels : Table Value := .ofTexts ["gpt-4o", "gpt-4o-mini", "gpt-4-turbo", "gpt-4"]

def outOfBandModels : Table Value :=
  [(.text "claude-3-5-sonnet", .text "claude-3-5-sonnet-20241022"),
    (.text "claude-3-5-haiku", .text "claude-3-5-haiku-20241022"),
    (.text "claude-3-opus", .text "claude-3-opus-20240229"),
    (.text "claude-3-sonnet", .text "claude-3-sonnet-20240229"),
    (.text "claude-3-haiku", .text "claude-3-haiku-20240307")]

def catalogOf (style : HostedStyle) (label : Value) : Except Fault Catalog :=
  match style with
  | .inBand => Catalog.start style.word "OpenAIAdapter" inBandModels "gpt-4o-mini" label
  | .outOfBand => Catalog.start style.word "AnthropicAdapter" outOfBandModels "claude-3-haiku" label

/-- A new provider.  To open a client takes the package of the provider. -/
def start (style : HostedStyle) (label : Value) (source : ClientSource)
    (installed : Bool := true) (maxTokens : Value := defaultMaxTokens) :
    Except Fault Hosted :=
  match catalogOf style label with
  | .error e => .error e
  | .ok catalog =>
    if source = .given || installed then .ok { style, catalog, maxTokens, source }
    else .error (.missingPackage style.word)

def request (h : Hosted) (messages : List Message) (system : Value) : CompletionRequest :=
  match h.style with
  | .inBand =>
    { model := h.catalog.model, maxTokens := h.maxTokens, system := none,
      messages := Message.system system :: messages }
  | .outOfBand =>
    { model := h.catalog.model, maxTokens := h.maxTokens, system := some system,
      messages := messages.filter fun m => m.role ≠ Message.systemRole }

/-- The text of a completion: the first choice, or the first block that is a text.  A choice without
content and a completion without a text are empty. -/
def text : Completion → Except Fault Value
  | .choices [] => .error (.indexOutOfRange "list index")
  | .choices (content :: _) => if content.isFalsy then .ok (.text "") else content.trimmed
  | .blocks content =>
    match content.find? fun block => block.1 = .text "text" with
    | some block => block.2.trimmed
    | none => .ok (.text "")

def chat {ε : Type} (client : Hosted → CompletionRequest → ε → Except Fault Completion × ε)
    (h : Hosted) (messages : List Message) (system : Value) (env : ε) : Except Fault Value × ε :=
  let (completion, env) := client h (h.request messages system) env
  (completion.bind text, env)

end Hosted

end PromptChain
