import PromptChain.Chain.Session
/-!
# Walking the queue

The pending steps of a queue are executed in order.  A step commits its effects when it is done, and
counts as executed from then on; one that fails leaves the queue as it was.  Steps that hooks append
are reached on the same walk.
-/

namespace PromptChain

namespace Item

def answered (p : Prompt) (i : Item) : Item := { i with step := .prompt p }

def running (i : Item) : Item :=
  match i.step with
  | .hook shown run runs result => { i with step := .hook shown run (runs + 1) result }
  | _ => i

def finished (v : Value) (i : Item) : Item :=
  match i.step with
  | .hook shown run runs _ => { i with step := .hook shown run runs v }
  | .foreign kind (.hook shown run runs _) =>
    { i with step := .foreign kind (.hook shown run runs v) }
  | _ => i

def done (i : Item) : Item := { i with executed := true }

end Item

namespace Session

variable {ε : Type}

def modifyItem (s : Session ε) (serial : Nat) (f : Item → Item) : Session ε :=
  { s with chain := s.chain.modifyItem serial f }

/-- Enters an exchange into the history, unless the prompt is incognito or nothing was answered.
The message is resolved anew, with the artifacts that there are now. -/
def record (s : Session ε) (p : Prompt) : Except Fault Unit × Session ε :=
  if p.incognito || p.response = .null then (.ok (), s)
  else
    match p.message s.chain.artifacts with
    | .error e => (.error e, s)
    | .ok m =>
      let (history, change) := s.chain.history.push [m, .assistant p.response]
      (.ok (), s.take ({ s.chain with history }, Chain.historyNotices change))

def keep (s : Session ε) (kept : Option (Value × Value)) : Except Fault Unit × Session ε :=
  match kept with
  | none => (.ok (), s)
  | some (key, v) =>
    match s.chain.insert key v with
    | .error e => (.error e, s)
    | .ok step => (.ok (), s.take step)

def executePrompt (b : Backend ε) (s : Session ε) (serial : Nat) (p : Prompt) :
    Except Fault Value × Session ε :=
  let chat (m : Message) (env : ε) :=
    b.chat s.chain.active (s.chain.history.entries ++ [m]) s.chain.systemText env
  match p.send s.chain.artifacts chat s.env with
  | (.error e, env) => (.error e, { s with env })
  | (.ok d, env) =>
    match ({ s with env }.modifyItem serial (Item.answered d.prompt)).record d.prompt with
    | (.error e, s) => (.error e, s)
    | (.ok _, s) =>
      let (kept, s) := s.keep d.kept
      (kept.map fun _ => d.prompt.response, s)

def executeHook (b : Backend ε) (s : Session ε) (serial runs : Nat) (run : Hook) :
    Except Fault Value × Session ε :=
  match runScript b (run (runs + 1)) (s.modifyItem serial Item.running) with
  | (.error e, s) => (.error e, s)
  | (.ok v, s) => (.ok v, s.modifyItem serial (Item.finished v))

def activate (s : Session ε) (provider : Value) : Except Fault Value × Session ε :=
  match Chain.isRegistered s.chain.providers provider with
  | .error e => (.error e, s)
  | .ok false => (Chain.unknownProvider provider, s)
  | .ok true => (.ok .null, { s with chain := { s.chain with active := provider } })

def setSystem (s : Session ε) (text : Value) : Except Fault Value × Session ε :=
  (.ok .null, { s with chain := { s.chain with systemText := text } })

def unknownStep (kind : Value) : Except Fault Value :=
  match kind.plain with
  | .error e => .error e
  | .ok shown => .error (.unknownStep (String.ofList shown))

/-- Executes a step as one of a kind that it is not.  Data serve as a system prompt and as the key
of a provider; nothing else can be sent or run but what it was queued as. -/
def executeForeign (s : Session ε) (kind : Value) (inner : Step) :
    Except Fault Value × Session ε :=
  if kind = Step.promptKind then (.error (.noMember inner.contentKind "send"), s)
  else if kind = Step.hookKind then (.error (.notCallable inner.contentKind), s)
  else if kind = Step.systemKind then (inner.data?.map s.setSystem).getD (.ok .null, s)
  else if kind = Step.useKind then s.activate (inner.data?.getD (.text inner.contentKind))
  else (unknownStep kind, s)

def execute (b : Backend ε) (s : Session ε) (i : Item) : Except Fault Value × Session ε :=
  match i.step with
  | .prompt p => s.executePrompt b i.serial p
  | .hook _ run runs _ => s.executeHook b i.serial runs run
  | .system text => s.setSystem (.text text)
  | .use provider => s.activate provider
  | .foreign kind inner => s.executeForeign kind inner

/-- After a step: a result that is not null is the last one, and the item counts as executed. -/
def complete (s : Session ε) (serial : Nat) (v : Value) : Session ε :=
  let last := if v = .null then s.chain.last else v
  { s with chain := { s.chain with last } }.modifyItem serial Item.done

inductive Stop where
  /-- No step is pending from the position of the walk on. -/
  | finished
  /-- A step is pending, and no further one may be executed. -/
  | paused
  | failed (e : Fault)
  deriving DecidableEq

/-- Executes the pending steps from a position on, as many as the budget allows, and returns how
many were executed. -/
def walk (b : Backend ε) : (budget index : Nat) → Session ε → Stop × Nat × Session ε
  | budget, index, s =>
    match nextPending? s.chain.queue.entries index with
    | none => (.finished, 0, s)
    | some (position, i) =>
      match budget with
      | 0 => (.paused, 0, s)
      | budget + 1 =>
        match s.execute b i with
        | (.error e, s) => (.failed e, 0, s)
        | (.ok v, s) =>
          let (stop, count, s) := walk b budget (position + 1) (s.complete i.serial v)
          (stop, count + 1, s)

end Session

end PromptChain
