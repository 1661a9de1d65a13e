import PromptChain.Message
import PromptChain.Provider.Catalog
import PromptChain.ReplyCache
import PromptChain.Text.Digest
import PromptChain.Value.Quantity
/-!
# Relays

A relay reaches its models through an endpoint.  A failed request is repeated after a delay, a
number of times; replies may be cached under the model and the words of the user.  A chat moves in
steps, between which others may use the relay and the cache: it asks, it waits, and it ends.
-/

namespace PromptChain

def secondsPerDay : Int := 60 * 60 * 24

structure RetryRule where
  count : Value := .int 1
  /-- The delay in seconds. -/
  delay : Value := .real (Binary64.ofInt 5)

structure Relay where
  catalog : Catalog
  endpoint : Value
  /-- The token by which the relay is known to the endpoint; an empty one is as good as none. -/
  token : Value := .null
  feature : Value := .text "nchain"
  cache : Option ReplyCache := none
  /-- How many seconds cached replies are good. -/
  ttl : Value := .int secondsPerDay
  retry : RetryRule := {}
  /-- The timeout of requests in seconds. -/
  timeout : Value := .real (Binary64.ofInt 120)
  /-- Whether every request has a session of its own, which it opens and closes. -/
  ownSessions : Bool := false

structure RelayRequest where
  url : Value
  headers : Entries String
  body : Entries Value
  /-- The timeout of the session that is opened for the request, if one is opened. -/
  session : Option Value

structure RelayResponse where
  status : Value
  reason : Value
  text : Value
  json : Except Fault Value

structure Network (ε : Type) where
  post : RelayRequest → ε → Except Fault RelayResponse × ε
  closeSession : ε → ε
  sleep : Value → ε → ε

namespace Relay

def models : Table Value :=
  .ofTexts ["llama3-8b", "llama3-70b", "gpt-3.5-turbo", "gpt-4-turbo", "gpt-4o", "gpt-4o-mini"]

def catalogOf (label : Value) : Except Fault Catalog :=
  Catalog.start "proxy" "ProxyAdapter" models "llama3-8b" label

/-! ## Requests -/

def payload (messages : List Message) (system : Value) : List Value :=
  (Message.system system :: messages).map Message.toValue

def userContents : List Value → Except Fault (List Value)
  | [] => .ok []
  | m :: rest =>
    match m.atKey "role" with
    | .error e => .error e
    | .ok role =>
      if role = Message.userRole then
        match (m.atKey "content").bind Value.trimmed with
        | .error e => .error e
        | .ok content => (userContents rest).map (content :: ·)
      else userContents rest

/-- The digits by which conversations with different words of the user are told apart.  They are
digits of bytes, so that words with a surrogate in them have none. -/
def contentHash (payload : List Value) : Except Fault String :=
  match (userContents payload).bind Value.joinLines with
  | .error e => .error e
  | .ok words =>
    match Text.encodable 0 words with
    | .error why => .error (.unencodable why)
    | .ok cs => .ok (String.ofList ((Text.Digest.ofText (String.ofList cs)).take 8))

def cacheKey (r : Relay) (payload : List Value) : Except Fault String :=
  match r.catalog.model.plain with
  | .error e => .error e
  | .ok model => (contentHash payload).map fun hash => String.ofList model ++ "_" ++ hash

def authorization (r : Relay) : Except Fault (Entries String) :=
  if r.token.isFalsy then .ok []
  else r.token.plain.map fun token => [("Authorization", "Bearer " ++ String.ofList token)]

def request (r : Relay) (payload : List Value) : Except Fault RelayRequest :=
  match Json.compact (.list payload) with
  | .error e => .error e
  | .ok written =>
    r.authorization.map fun more =>
      { url := r.endpoint
        headers := ("Content-Type", "application/json") :: more
        body := [("feature", r.feature), ("model", r.catalog.model), ("payload", .text written)]
        session := if r.ownSessions then some r.timeout else none }

/-- The refusal that a response stands for, which its text explains, or else its reason. -/
def refusal (r : Relay) (response : RelayResponse) : Except Fault Value :=
  match response.status.plain with
  | .error e => .error e
  | .ok shown =>
    match (if response.text.isFalsy then response.reason else response.text).plain with
    | .error e => .error e
    | .ok message =>
      .error (.refused r.catalog.name response.status (String.ofList shown) (String.ofList message))

/-- The data of a response.  A status from 400 on is a refusal. -/
def accept (r : Relay) (response : RelayResponse) : Except Fault Value :=
  match response.status.quantity? with
  | none => .error (.notOrdered ">=" response.status.kind (Value.int 400).kind)
  | some status => if status.isAtLeast 400 then r.refusal response else response.json

def text (data : Value) : Except Fault Value :=
  match data.atKey "choices" with
  | .error e => .error e
  | .ok choices =>
    match choices.first with
    | .error e => .error e
    | .ok choice =>
      match choice.atKey "message" with
      | .error e => .error e
      | .ok message => (message.atKey "content").bind Value.trimmed

/-- One request; a session that was opened for it is closed in any case. -/
def ask {ε : Type} (net : Network ε) (r : Relay) (payload : List Value) (env : ε) :
    Except Fault Value × ε :=
  match r.request payload with
  | .error e => (.error e, env)
  | .ok request =>
    let (response, env) := net.post request env
    (response.bind r.accept, if r.ownSessions then net.closeSession env else env)

/-! ## Chats -/

inductive Progress where
  /-- A request is to be made, and may be repeated this many times. -/
  | asking (retries : Nat)
  /-- A request has failed; the next one is to be made after the delay. -/
  | waiting (retries : Nat)
  | ended (outcome : Except Fault Value)

structure Chat where
  payload : List Value
  key : Option String
  progress : Progress

/-- The state before the first request; with a negative number of retries there is none. -/
def firstTry (r : Relay) : Progress :=
  match r.retry.count.successor with
  | .error e => .ended (.error e)
  | .ok tries => if 0 < tries then .asking (tries - 1).toNat else .ended (.error .nothingToRaise)

/-- The start of a chat: what the cache has for it ends it at once. -/
def begin (r : Relay) (files : FileTree) (now : Binary64) (payload : List Value) : Chat :=
  match r.cache with
  | none => { payload, key := none, progress := r.firstTry }
  | some cache =>
    match r.cacheKey payload with
    | .error e => { payload, key := none, progress := .ended (.error e) }
    | .ok key =>
      { payload, key := some key
        progress :=
          match cache.get files now key with
          | .error e => .ended (.error e)
          | .ok .null => r.firstTry
          | .ok v => .ended (.ok v) }

def finish (r : Relay) (files : FileTree) (now : Binary64) (key : Option String) (data : Value) :
    Except Fault Value × FileTree :=
  match r.cache, key with
  | some cache, some key =>
    match cache.complete files now key data r.ttl with
    | .error e => (.error e, files)
    | .ok (v, files) => (.ok v, files)
  | _, _ => (.ok data, files)

def failed (e : Fault) : (retries : Nat) → Progress
  | 0 => .ended (.error e)
  | retries + 1 => .waiting retries

def receive (r : Relay) (files : FileTree) (now : Binary64) (reply : Except Fault Value)
    (c : Chat) : Chat × FileTree :=
  match c.progress, reply with
  | .asking _, .ok data =>
    let (outcome, files) := r.finish files now c.key data
    ({ c with progress := .ended outcome }, files)
  | .asking retries, .error e => ({ c with progress := failed e retries }, files)
  | _, _ => (c, files)

def wake (c : Chat) : Chat :=
  match c.progress with
  | .waiting retries => { c with progress := .asking retries }
  | _ => c

def converse {ε : Type} (net : Network ε) (r : Relay) (payload : List Value) :
    (retries : Nat) → ε → Except Fault Value × ε
  | 0, env => r.ask net payload env
  | retries + 1, env =>
    match r.ask net payload env with
    | (.error _, env) => converse net r payload retries (net.sleep r.retry.delay env)
    | done => done

def settle {ε : Type} (r : Relay) (files : FileTree) (now : Binary64) (key : Option String)
    (answer : Except Fault Value × ε) : Except Fault Value × FileTree × ε :=
  match answer with
  | (.error e, env) => (.error e, files, env)
  | (.ok data, env) =>
    let (outcome, files) := r.finish files now key data
    (outcome, files, env)

def fetch {ε : Type} (net : Network ε) (r : Relay) (files : FileTree) (now : Binary64)
    (c : Chat) (env : ε) : Except Fault Value × FileTree × ε :=
  match c.progress with
  | .ended outcome => (outcome, files, env)
  | .asking retries => r.settle files now c.key (converse net r c.payload retries env)
  | .waiting retries =>
    r.settle files now c.key (converse net r c.payload retries (net.sleep r.retry.delay env))

def chat {ε : Type} (net : Network ε) (r : Relay) (files : FileTree) (now : Binary64)
    (messages : List Message) (system : Value) (env : ε) : Except Fault Value × FileTree × ε :=
  let (data, files, env) := r.fetch net files now (r.begin files now (payload messages system)) env
  (data.bind text, files, env)

end Relay

end PromptChain
