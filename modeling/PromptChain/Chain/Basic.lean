import PromptChain.Chain.Step
import PromptChain.Schema.Parse
/-!
# Chains

A chain owns a queue of steps, the conversation so far, and the artifacts that prompts refer to.
The operations here build the queue and look things up; each returns what it has to tell, in order.
-/

namespace PromptChain

inductive Notice where
  | history (c : Change Message)
  | queue (c : Change Item)
  | artifact (key v : Value)

namespace Notice

def name : Notice → String
  | .history _ => "collection"
  | .queue _ => "collection"
  | .artifact .. => "set_artifact"

def toValue : Notice → Except Fault Value
  | .history c => .ok (c.toValue Message.toValue)
  | .queue c => c.toValue? Item.toValue
  | .artifact key v => .ok (.object [("key", key), ("value", v)])

end Notice

structure Chain where
  providers : List Value
  active : Value
  formatKey : Value
  /-- The system prompt, which is a text as a rule. -/
  systemText : Value
  history : Journal Message := { name := .text "history" }
  queue : Journal Item := { name := .text "queue" }
  artifacts : Table Value := []
  formatter : Option Schema := none
  /-- Whether the formatter has run on the last result. -/
  formatted : Bool := false
  /-- The last result of a step that was not null. -/
  last : Value := .null
  /-- The result of the last completed run. -/
  result : Value := .null
  created : Nat := 0

namespace Chain

def defaultSystem : String := "You are a helpful AI Assistant."

/-- The provider that formats unless another one is asked for, if it is registered. -/
def fastKey : Value := .text "fast"

def isRegistered (providers : List Value) (key : Value) : Except Fault Bool :=
  key.asKey.map fun key => providers.any fun other => other.same key

def unknownProvider {α : Type} (key : Value) : Except Fault α :=
  match key.plain with
  | .error e => .error e
  | .ok shown => .error (.unknownProvider (String.ofList shown))

def start (providers : List Value) (active : Value) (system : Value := .text defaultSystem)
    (formatKey : Value := .null) : Except Fault Chain :=
  match isRegistered providers active with
  | .error e => .error e
  | .ok false => unknownProvider active
  | .ok true =>
    .ok {
      providers, active
      formatKey :=
        if !formatKey.isFalsy then formatKey
        else if fastKey ∈ providers then fastKey
        else active
      systemText := system }

def queueNotices (change : Option (Change Item)) : List Notice := change.toList.map .queue

def historyNotices (change : Option (Change Message)) : List Notice := change.toList.map .history

def insert (c : Chain) (key v : Value) : Except Fault (Chain × List Notice) :=
  (c.artifacts.set key v).map fun artifacts => ({ c with artifacts }, [.artifact key v])

def artifact (c : Chain) (key : Value) (fallback : Value := .null) : Except Fault Value :=
  (c.artifacts.find key).map fun found => found.getD fallback

def append (c : Chain) (label : Value) (step : Step) : Chain × List Notice :=
  let (queue, change) := c.queue.push [{ serial := c.created, label, step }]
  ({ c with queue, created := c.created + 1 }, queueNotices change)

def systemLabel : String := "System Prompt"

def dropSystem (c : Chain) : Chain × List Notice :=
  let (queue, change) := c.queue.filter fun i => !i.isSystem
  ({ c with queue }, queueNotices change)

def prependSystem (c : Chain) (text : String) : Chain × List Notice :=
  let (queue, change) :=
    c.queue.unshift [{ serial := c.created, label := .text systemLabel, step := .system text }]
  ({ c with queue, created := c.created + 1 }, queueNotices change)

/-- Replaces the system prompts of the queue by one at its front.  The old ones are gone even if the
lines make no text. -/
def system (c : Chain) (lines : Value) : Except Fault Reply × Chain × List Notice :=
  let (c, dropped) := c.dropSystem
  match lines.joinInput with
  | .error e => (.error e, c, dropped)
  | .ok text =>
    let (c, added) := c.prependSystem text
    (.ok .done, c, dropped ++ added)

def build (c : Chain) (edits : List Prompt.Edit) : Except Fault Reply × Chain × List Notice :=
  match ({} : Prompt).editAll c.artifacts edits with
  | .error e => (.error e, c, [])
  | .ok p => (.ok .done, c.append p.label (.prompt p))

def useLabel (provider : Value) : Except Fault Value :=
  provider.plain.map fun shown => .text ("Use " ++ String.ofList shown)

def use (c : Chain) (provider : Value) : Except Fault Reply × Chain × List Notice :=
  match useLabel provider with
  | .error e => (.error e, c, [])
  | .ok label => (.ok .done, c.append label (.use provider))

/-- Makes the last executed prompt or hook pending again. -/
def retry (c : Chain) : Except Fault Reply × Chain :=
  match undoLast c.queue.entries with
  | .error e => (.error e, c)
  | .ok (some items) => (.ok .done, { c with queue := { c.queue with entries := items } })
  | .ok none => (.error .noPriorStep, c)

def recent? (c : Chain) (back role : Value) : Except Fault (Option Message) :=
  let found := c.history.entries.filter fun m => m.role.same role
  match back.compared "<" with
  | .error e => .error e
  | .ok q =>
    if q.exceeds 0 && q.isAtMost found.length then
      match q with
      | .whole n => .ok found[found.length - n.toNat]?
      | .real _ => .error (.notIndex "list" back.kind)
    else .ok none

/-- The result of the last completed run, else that of the last step. -/
def outcome (c : Chain) : Value := if c.result = .null then c.last else c.result

def resultAs (c : Chain) (schema : Option Schema) : Except Fault Value :=
  match schema with
  | none => .ok c.outcome
  | some schema => if c.outcome = .null then .error .emptyResult else schema.parse c.outcome

def modifyItem (c : Chain) (serial : Nat) (f : Item → Item) : Chain :=
  { c with queue := { c.queue with
    entries := c.queue.entries.map fun i => if i.serial = serial then f i else i } }

/-- Makes the item at an index count as one of another kind; indices below zero count from the
end. -/
def retype (c : Chain) (index kind : Value) : Except Fault Reply × Chain :=
  match Value.place "tuple" "tuple index" c.queue.length index with
  | .error e => (.error e, c)
  | .ok position =>
    (.ok .done, { c with queue := { c.queue with
      entries := c.queue.entries.modify position fun i =>
        { i with step := i.step.retyped kind } } })

def deleteHistory (c : Chain) (index : Value) : Except Fault Reply × Chain × List Notice :=
  match c.history.remove index with
  | .error e => (.error e, c, [])
  | .ok (history, change, removed) =>
    (.ok (.messages removed), { c with history }, historyNotices change)

def perform (c : Chain) : Command → Except Fault Reply × Chain × List Notice
  | .system lines => c.system lines
  | .prompt lines => c.build [.text lines]
  | .build edits => c.build edits
  | .insert key v =>
    match c.insert key v with
    | .error e => (.error e, c, [])
    | .ok step => (.ok .done, step)
  | .use provider => c.use provider
  | .hook label shown run => (.ok .done, c.append label (.hook shown run 0 .null))
  | .retry =>
    let (reply, c) := c.retry
    (reply, c, [])
  | .format schema => (.ok .done, { c with formatter := some schema, formatted := false }, [])
  | .incognito on => (.ok .done, { c with history := { c.history with incognito := on } }, [])
  | .recent back role => ((c.recent? back role).map .message, c, [])
  | .artifact key fallback => ((c.artifact key fallback).map .value, c, [])
  | .result schema => ((c.resultAs schema).map .value, c, [])
  | .historyLength => (.ok (.value (.int c.history.length)), c, [])
  | .clearHistory =>
    let (history, change) := c.history.clear
    (.ok .done, { c with history }, historyNotices change)
  | .deleteHistory index => c.deleteHistory index
  | .retype index kind =>
    let (reply, c) := c.retype index kind
    (reply, c, [])
  | .useModel .. => (.ok .done, c, [])
  | .tune _ => (.ok .done, c, [])

end Chain

end PromptChain
