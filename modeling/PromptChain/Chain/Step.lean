import PromptChain.Journal
import PromptChain.Prompt
import PromptChain.Schema.Basic
import PromptChain.Telemetry
/-!
# Steps

The steps of a chain, and the commands by which hooks work on the chain that runs them.  A hook is a
script for each count of its runs: it gives commands, sees their replies, and finishes with a value
or a fault.
-/

namespace PromptChain

inductive Reply where
  | done
  | value (v : Value)
  | message (m : Option Message)
  | messages (ms : List Message)

mutual

inductive Command where
  | system (lines : Value)
  | prompt (lines : Value)
  | build (edits : List Prompt.Edit)
  | insert (key v : Value)
  | use (provider : Value)
  /-- Appends a hook, given what it does when it runs for the first, second, ... time. -/
  | hook (label : Value) (shown : String) (run : Nat → Script)
  | retry
  | format (schema : Schema)
  | incognito (on : Bool)
  | recent (back role : Value)
  | artifact (key fallback : Value)
  | result (schema : Option Schema)
  | historyLength
  | clearHistory
  | deleteHistory (index : Value)
  | useModel (provider label : Value)
  /-- Changes who listens to what the chain reports. -/
  | tune (change : Telemetry.Tuning)
  /-- Makes a step of the queue count as one of another kind. -/
  | retype (index kind : Value)

inductive Script where
  | finish (outcome : Except Fault Value)
  | call (command : Command) (next : Except Fault Reply → Script)

end

instance : Inhabited Script := ⟨.finish (.ok .null)⟩

/-- A script that gives commands in order, up to the first that fails, and goes on as `rest`. -/
def Script.after (rest : Script) : List Command → Script
  | [] => rest
  | command :: more => .call command fun reply =>
    match reply with
    | .error e => .finish (.error e)
    | .ok _ => rest.after more

def Script.answer (command : Command) : Script :=
  .call command fun reply => .finish (reply.map fun r =>
    match r with
    | .value v => v
    | _ => .null)

/-- What the runs of a hook do, by their count. -/
abbrev Hook := Nat → Script

inductive Step where
  | prompt (p : Prompt)
  | system (text : String)
  | use (provider : Value)
  | hook (shown : String) (run : Hook) (runs : Nat) (result : Value)
  /-- A step that was made to count as one of a kind that it is not. -/
  | foreign (kind : Value) (inner : Step)

namespace Step

def promptKind : Value := .text "prompt"

def systemKind : Value := .text "system"

def useKind : Value := .text "switch_adapter"

def hookKind : Value := .text "hook"

def kind : Step → Value
  | .prompt _ => promptKind
  | .system _ => systemKind
  | .use _ => useKind
  | .hook .. => hookKind
  | .foreign kind _ => kind

def retyped (kind : Value) : Step → Step
  | .foreign _ inner => inner.retyped kind
  | step => if kind = step.kind then step else .foreign kind step

def content : Step → Value
  | .prompt p => p.toValue
  | .system text => .text text
  | .use provider => provider
  | .hook shown .. => .text shown
  | .foreign _ inner => inner.content

/-- The data that a step has for its content, if it is neither prompt nor hook. -/
def data? : Step → Option Value
  | .system text => some (.text text)
  | .use provider => some provider
  | .foreign _ inner => inner.data?
  | _ => none

def contentKind : Step → String
  | .prompt _ => "Prompt"
  | .system text => (Value.text text).kind
  | .use provider => provider.kind
  | .hook .. => "function"
  | .foreign _ inner => inner.contentKind

def itemKind : Step → String
  | .prompt _ => "PromptItem"
  | .system _ => "SystemItem"
  | .use _ => "SwitchAdapterItem"
  | .hook .. => "HookItem"
  | .foreign _ inner => inner.itemKind

end Step

/-- A step in the queue.  The serial number tells it apart from all other items of its chain. -/
structure Item where
  serial : Nat
  label : Value
  executed : Bool := false
  step : Step
  /-- The result of a step that is no hook but was undone as one. -/
  result : Option Value := none

namespace Item

def isSystem (i : Item) : Bool := i.step.kind = Step.systemKind

def shown (i : Item) : Entries Value :=
  [("type", i.step.kind), ("label", i.label), ("executed", .bool i.executed),
    ("content", i.step.content)]

def shownResult (i : Item) : Except Fault (Option Value) :=
  match i.step with
  | .hook _ _ _ result => .ok (some result)
  | .foreign kind inner =>
    if kind = Step.hookKind then
      match i.result with
      | some v => .ok (some v)
      | none => .error (.noMember inner.itemKind "result")
    else .ok none
  | _ => .ok none

def toValue (i : Item) : Except Fault Value :=
  i.shownResult.map fun result =>
    .object (i.shown ++ result.toList.map fun v => ("result", v))

/-- An item made pending again, if it is one that can be: an executed prompt or hook. -/
def undo (i : Item) : Except Fault (Option Item) :=
  if i.executed then
    let pending := { i with executed := false }
    match i.step with
    | .prompt p => .ok (some { pending with step := .prompt p.reset })
    | .hook shown run runs _ => .ok (some { pending with step := .hook shown run runs .null })
    | .foreign kind inner =>
      if kind = Step.hookKind then .ok (some { pending with result := some .null })
      else if kind = Step.promptKind then .error (.noMember inner.contentKind "reset")
      else .ok none
    | _ => .ok none
  else .ok none

end Item

def undoLast : List Item → Except Fault (Option (List Item))
  | [] => .ok none
  | i :: rest =>
    match undoLast rest with
    | .error e => .error e
    | .ok (some rest) => .ok (some (i :: rest))
    | .ok none => i.undo.map fun undone => undone.map fun i => i :: rest

def nextPending? : List Item → (index : Nat) → Option (Nat × Item)
  | [], _ => none
  | i :: rest, 0 =>
    if i.executed then (nextPending? rest 0).map fun found => (found.1 + 1, found.2)
    else some (0, i)
  | _ :: rest, index + 1 => (nextPending? rest index).map fun found => (found.1 + 1, found.2)

end PromptChain
