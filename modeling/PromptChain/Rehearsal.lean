import PromptChain.Chain.Session
import PromptChain.Provider.Basic
/-!
# Rehearsals

A world for chains without a network.  What providers answer is written down beforehand: every
sheet of lines gives its lines in order, and the last one over and over.  What the providers were
asked is logged.
-/

namespace PromptChain

inductive Line where
  | said (outcome : Except Fault Value)
  | completed (outcome : Except Fault Completion)
  | responded (outcome : Except Fault RelayResponse)

inductive Asked where
  | chat (provider model system : Value) (messages : List Message)
  | completion (provider : Value) (h : Hosted) (request : CompletionRequest)
  | post (request : RelayRequest)
  | closed
  | slept (span : Value)

structure Role where
  key : Value
  provider : Provider
  /-- Whether the provider answers from its lines itself, without client or network. -/
  direct : Bool := false
  /-- The number of the sheet with its lines. -/
  sheet : Nat

structure Rehearsal where
  files : FileTree := {}
  now : Binary64 := .zero false
  roles : Table Role := []
  sheets : List (List Line) := []
  log : List Asked := []

namespace Rehearsal

def add (w : Rehearsal) (key : Value) (provider : Provider) (direct : Bool) (lines : List Line) :
    Except Fault Rehearsal :=
  (w.roles.set key { key, provider, direct, sheet := w.sheets.length }).map fun roles =>
    { w with roles, sheets := w.sheets ++ [lines] }

/-- A rehearsal whose providers have lines of their own, or all take theirs from one sheet. -/
def ofProviders (files : FileTree) (providers : Entries Provider) (shared : Bool)
    (lines : Provider → List Line) : Rehearsal :=
  { files
    roles := providers.zipIdx.map fun ((key, provider), number) =>
      (.text key, { key := .text key, provider, sheet := if shared then 0 else number })
    sheets := providers.map fun (_, provider) => lines provider }

def note (w : Rehearsal) (asked : Asked) : Rehearsal := { w with log := w.log ++ [asked] }

/-- The next line of a sheet; the last one stays. -/
def next (w : Rehearsal) (sheet : Nat) : Option Line × Rehearsal :=
  match w.sheets.getD sheet [] with
  | [] => (none, w)
  | [last] => (some last, w)
  | first :: rest => (some first, { w with sheets := w.sheets.set sheet rest })

def noLine : Fault := .indexOutOfRange "list index"

def client (key : Value) (sheet : Nat) (h : Hosted) (request : CompletionRequest)
    (w : Rehearsal) : Except Fault Completion × Rehearsal :=
  match (w.note (.completion key h request)).next sheet with
  | (some (.completed outcome), w) => (outcome, w)
  | (_, w) => (.error noLine, w)

def network (sheet : Nat) : Network Rehearsal where
  post request w :=
    match (w.note (.post request)).next sheet with
    | (some (.responded outcome), w) => (outcome, w)
    | (_, w) => (.error noLine, w)
  closeSession w := w.note .closed
  sleep span w := w.note (.slept span)

def reach (key : Value) (sheet : Nat) : Provider.Reach Rehearsal :=
  { client := client key sheet, network := network sheet }

def chat (key : Value) (messages : List Message) (system : Value) (w : Rehearsal) :
    Except Fault Value × Rehearsal :=
  match w.roles.get? key with
  | none => (Chain.unknownProvider key, w)
  | some role =>
    if role.direct then
      match (w.note (.chat role.key role.provider.model system messages)).next role.sheet with
      | (some (.said outcome), w) => (outcome, w)
      | (_, w) => (.error noLine, w)
    else
      let (outcome, files, w) :=
        role.provider.chat (reach role.key role.sheet) w.files w.now messages system w
      (outcome, { w with files })

def setProvider (w : Rehearsal) (key : Value) (role : Role) (provider : Provider) : Rehearsal :=
  { w with roles := w.roles.put key { role with provider } }

def useModel (key label : Value) (w : Rehearsal) : Except Fault Unit × Rehearsal :=
  match w.roles.find key with
  | .error e => (.error e, w)
  | .ok none => (key.shown.bind fun shown => .error (.noKey shown), w)
  | .ok (some role) =>
    match role.provider.use label with
    | .error e => (.error e, w)
    | .ok provider => (.ok (), w.setProvider key role provider)

def backend : Backend Rehearsal := { chat, useModel }

end Rehearsal

end PromptChain
