import PromptChain.Value.Quantity
/-!
# Journals

An ordered list of entries that tells what happens to it.  Every operation returns the journal after
it and, if there is something to tell, a change: the entries after the operation, and those that it
added or removed.  Nothing is added to a journal in incognito mode.
-/

namespace PromptChain

inductive Action where
  | push
  | unshift
  | filter
  | delete
  | clear
  deriving DecidableEq, Repr

def Action.word : Action → String
  | .push => "push"
  | .unshift => "unshift"
  | .filter => "filter"
  | .delete => "delete"
  | .clear => "clear"

structure Change (α : Type) where
  journal : Value
  action : Action
  /-- The entries after the change. -/
  entries : List α
  /-- The entries that were added or removed. -/
  changed : List α
  deriving DecidableEq

def Change.toValue {α : Type} (ofEntry : α → Value) (c : Change α) : Value :=
  .object [("collection", c.journal), ("action", .text c.action.word),
    ("entries", .list (c.entries.map ofEntry)),
    ("changes", .object [("action", .text c.action.word),
      ("entries", .list (c.changed.map ofEntry))])]

def Change.toValue? {α : Type} (ofEntry : α → Except Fault Value) (c : Change α) :
    Except Fault Value :=
  match c.entries.mapM ofEntry with
  | .error e => .error e
  | .ok entries => (c.changed.mapM ofEntry).map fun changed =>
    Change.toValue id ⟨c.journal, c.action, entries, changed⟩

structure Journal (α : Type) where
  name : Value
  incognito : Bool := false
  entries : List α := []
  deriving DecidableEq

namespace Journal

variable {α : Type}

def change (j : Journal α) (action : Action) (changed : List α) : Change α :=
  ⟨j.name, action, j.entries, changed⟩

def length (j : Journal α) : Nat := j.entries.length

def push (j : Journal α) (added : List α) : Journal α × Option (Change α) :=
  if j.incognito then (j, none)
  else
    let next := { j with entries := j.entries ++ added }
    (next, some (next.change .push added))

def unshift (j : Journal α) (added : List α) : Journal α × Option (Change α) :=
  if j.incognito then (j, none)
  else
    let next := { j with entries := added ++ j.entries }
    (next, some (next.change .unshift added))

def get? (j : Journal α) (index : Int) : Option α :=
  if index < 0 then none else j.entries[index.toNat]?

def find (j : Journal α) (index : Value) : Except Fault (Option α) :=
  (index.position? j.length (.notIndex "list" index.kind)).map fun position =>
    position.bind fun i => j.entries[i]?

/-- Keeps some entries of a journal and removes the others; to remove nothing is no change. -/
def retain (j : Journal α) (kept removed : List α) : Journal α × Option (Change α) :=
  let next := { j with entries := kept }
  (next, if removed.isEmpty then none else some (next.change .filter removed))

def filter (j : Journal α) (keep : α → Bool) : Journal α × Option (Change α) :=
  j.retain (j.entries.filter keep) (j.entries.filter fun x => !keep x)

/-- Parts entries into those that satisfy a condition and the others, if the condition can be
decided for all of them. -/
def sift (keep : α → Except Fault Bool) : List α → Except Fault (List α × List α)
  | [] => .ok ([], [])
  | x :: rest =>
    match keep x with
    | .error e => .error e
    | .ok here =>
      match sift keep rest with
      | .error e => .error e
      | .ok (kept, removed) => .ok (if here then (x :: kept, removed) else (kept, x :: removed))

/-- Keeps the entries that satisfy a condition that may fail; if it fails nothing changes. -/
def filter? (j : Journal α) (keep : α → Except Fault Bool) :
    Except Fault (Journal α × Option (Change α)) :=
  (sift keep j.entries).map fun parts => j.retain parts.1 parts.2

/-- Removes the entry at a position, and returns it; elsewhere there is nothing to remove. -/
def delete (j : Journal α) (index : Int) : Journal α × Option (Change α) × List α :=
  match j.get? index with
  | none => (j, none, [])
  | some x =>
    let next := { j with entries := j.entries.eraseIdx index.toNat }
    (next, some (next.change .delete [x]), [x])

def remove (j : Journal α) (index : Value) :
    Except Fault (Journal α × Option (Change α) × List α) :=
  (index.position? j.length (.notInteger index.kind)).map fun position =>
    match position with
    | some i => j.delete i
    | none => (j, none, [])

def clear (j : Journal α) : Journal α × Option (Change α) :=
  let next := { j with entries := [] }
  (next, some (next.change .clear j.entries))

end Journal

end PromptChain
