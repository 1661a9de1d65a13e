import PromptChain.Chain.Basic
import PromptChain.FilePath
import PromptChain.Provider.Relay
import PromptChain.Record
/-!
# Settings

The settings of providers, cache and server.  They are read like any record, from given values or
from the variables of an environment.
-/

namespace PromptChain

structure Settings where
  openaiKey : Option String := none
  anthropicKey : Option String := none
  endpoint : Option String := none
  token : Option String := none
  feature : String := "nchain"
  cacheDirectory : Option FilePath := none
  /-- How many seconds cached replies are good. -/
  cacheTtl : Value := .int secondsPerDay
  /-- The seconds before a failed request is repeated. -/
  retryDelay : Value := .real (Binary64.ofInt 5)
  host : String := "localhost"
  portNumber : Int := 1414
  systemPrompt : String := Chain.defaultSystem

namespace Settings

def toFields (s : Settings) : Entries Value :=
  [("openai_api_key", Value.ofText? s.openaiKey),
    ("anthropic_api_key", Value.ofText? s.anthropicKey),
    ("proxy_endpoint", Value.ofText? s.endpoint), ("proxy_token", Value.ofText? s.token),
    ("proxy_feature", .text s.feature),
    ("cache_dir", Value.ofText? (s.cacheDirectory.map FilePath.toText)),
    ("cache_ttl", s.cacheTtl), ("retry_delay", s.retryDelay),
    ("debug_host", .text s.host), ("debug_port", .int s.portNumber),
    ("system_prompt", .text s.systemPrompt)]

def kinds : List FieldKind :=
  [.optional .text, .optional .text, .optional .text, .optional .text, .text, .optional .path,
    .real (.above 0), .real (.atLeast 0), .text, .integer, .text]

def model : RecordModel :=
  .mk "Settings" (((toFields {}).zip kinds).map fun ((name, default), kind) =>
    (name, kind, some default))

def ofFields (fields : Entries Value) : Settings :=
  let text? (name : String) : Option String := (fields.get? name).bind Value.text?
  let plain : Settings := {}
  { openaiKey := text? "openai_api_key"
    anthropicKey := text? "anthropic_api_key"
    endpoint := text? "proxy_endpoint"
    token := text? "proxy_token"
    feature := (text? "proxy_feature").getD plain.feature
    cacheDirectory := (text? "cache_dir").map FilePath.ofText
    cacheTtl := (fields.get? "cache_ttl").getD plain.cacheTtl
    retryDelay := (fields.get? "retry_delay").getD plain.retryDelay
    host := (text? "debug_host").getD plain.host
    portNumber := ((fields.get? "debug_port").bind Value.int?).getD plain.portNumber
    systemPrompt := (text? "system_prompt").getD plain.systemPrompt }

def ofValues (values : Entries Value) : Except Fault Settings :=
  match Record.readModel .data model (.object values) with
  | .error issues => .error (.invalidRecord issues)
  | .ok v =>
    match v with
    | .record _ fields => .ok (ofFields fields)
    | _ => .ok {}

def sources : List (String × String) :=
  [("openai_api_key", "OPENAI_API_KEY"), ("anthropic_api_key", "ANTHROPIC_API_KEY"),
    ("proxy_endpoint", "NCHAIN_PROXY_ENDPOINT"), ("proxy_token", "NCHAIN_PROXY_TOKEN"),
    ("proxy_feature", "NCHAIN_PROXY_FEATURE"), ("cache_dir", "NCHAIN_CACHE_DIR"),
    ("cache_ttl", "NCHAIN_CACHE_TTL"), ("retry_delay", "NCHAIN_RETRY_DELAY"),
    ("debug_host", "NCHAIN_DEBUG_HOST"), ("debug_port", "NCHAIN_DEBUG_PORT"),
    ("system_prompt", "NCHAIN_SYSTEM_PROMPT")]

/-- An environment of variables that are set to data, which have to be texts.  There is no NUL in a
variable, and its name is not empty and has no equals sign. -/
def environmentOf : Entries Value → Except Fault (Entries String)
  | [] => .ok []
  | (name, .text s) :: rest =>
    if name.toList.contains '\x00' || s.toList.contains '\x00' then .error .embeddedNul
    else if name.toList.contains '=' then .error .illegalVariable
    else if name = "" then .error .unnamedVariable
    else (environmentOf rest).map ((name, s) :: ·)
  | (_, v) :: _ => .error (.notText v.kind)

/-- Settings from an environment; an empty variable is as good as none. -/
def ofEnvironment (environment : Entries String) : Except Fault Settings :=
  ofValues (sources.filterMap fun (name, source) =>
    match environment.get? source with
    | some s => if s = "" then none else some (name, .text s)
    | none => none)

end Settings

end PromptChain
