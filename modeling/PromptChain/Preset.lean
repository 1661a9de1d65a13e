import PromptChain.Chain.Basic
import PromptChain.Provider.Basic
import PromptChain.Settings
/-!
# Presets

Chains that are ready to use: each has a smart and a fast provider of one kind, made from settings.
-/

namespace PromptChain

inductive Preset where
  | hosted (style : HostedStyle)
  | relay
  deriving DecidableEq, Repr

namespace Preset

structure Outcome where
  chain : Chain
  providers : Entries Provider
  files : FileTree

def labels : Preset → Entries String
  | .hosted .inBand => [("smart", "gpt-4o"), ("fast", "gpt-4o-mini")]
  | .hosted .outOfBand => [("smart", "claude-3-5-sonnet"), ("fast", "claude-3-haiku")]
  | .relay => [("smart", "llama3-70b"), ("fast", "llama3-8b")]

def defaultKey : Value := Chain.fastKey

def apiKey (settings : Settings) : HostedStyle → Value
  | .inBand => .ofText? settings.openaiKey
  | .outOfBand => .ofText? settings.anthropicKey

def makeAll (make : String → Except Fault Provider) :
    Entries String → Except Fault (Entries Provider)
  | [] => .ok []
  | (key, label) :: rest =>
    match make label with
    | .error e => .error e
    | .ok provider => (makeAll make rest).map ((key, provider) :: ·)

def makeHosted (style : HostedStyle) (settings : Settings) (installed : Bool) (label : String) :
    Except Fault Provider :=
  (Hosted.start style (.text label) (.opened (apiKey settings style) .null) installed).map .hosted

def makeRelay (endpoint : String) (cache : ReplyCache) (settings : Settings) (label : String) :
    Except Fault Provider :=
  (Relay.catalogOf (.text label)).map fun catalog => .relay {
    catalog
    endpoint := .text endpoint
    token := .ofText? settings.token
    feature := .text settings.feature
    cache := some cache
    ttl := settings.cacheTtl
    retry := { count := .int 1, delay := settings.retryDelay }
    ownSessions := true }

def endpoint (settings : Settings) : Except Fault String :=
  match settings.endpoint with
  | some url => if url = "" then .error (.missingSetting "proxy_endpoint") else .ok url
  | none => .error (.missingSetting "proxy_endpoint")

def make (preset : Preset) (settings : Settings) (installed : Bool) (home : FilePath)
    (files : FileTree) : Except Fault (Entries Provider × FileTree) :=
  match preset with
  | .hosted style =>
    (makeAll (makeHosted style settings installed) preset.labels).map fun made => (made, files)
  | .relay =>
    match endpoint settings with
    | .error e => .error e
    | .ok url =>
      match ReplyCache.start files
          (settings.cacheDirectory.getD (ReplyCache.defaultDirectory home)) with
      | .error e => .error e
      | .ok (cache, files) =>
        (makeAll (makeRelay url cache settings) preset.labels).map fun made => (made, files)

def start (preset : Preset) (settings : Settings) (key : Value) (installed : Bool)
    (home : FilePath) (files : FileTree) : Except Fault Outcome :=
  match preset.make settings installed home files with
  | .error e => .error e
  | .ok (providers, files) =>
    (Chain.start (providers.keys.map .text) key (.text settings.systemPrompt)).map fun chain =>
      { chain, providers, files }

end Preset

end PromptChain
