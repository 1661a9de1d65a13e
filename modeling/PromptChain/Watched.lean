import PromptChain.Journal
import PromptChain.Telemetry
/-!
# Watched journals

A journal whose changes are reported on a channel, if there is one.
-/

namespace PromptChain

open Telemetry

structure Watched (α : Type) where
  journal : Journal α
  channel : Option (Channel (Change α)) := none

namespace Watched

variable {α : Type}

def reportName : Value := .text "collection"

def take (w : Watched α) (outcome : Journal α × Option (Change α)) : Watched α where
  journal := outcome.1
  channel :=
    match outcome.2 with
    | some change => w.channel.map fun c => c.dispatch reportName change
    | none => w.channel

def push (w : Watched α) (added : List α) : Watched α := w.take (w.journal.push added)

def unshift (w : Watched α) (added : List α) : Watched α := w.take (w.journal.unshift added)

def filter? (w : Watched α) (keep : α → Except Fault Bool) : Except Fault (Watched α) :=
  (w.journal.filter? keep).map w.take

def remove (w : Watched α) (index : Value) : Except Fault (Watched α × List α) :=
  (w.journal.remove index).map fun (journal, change, removed) =>
    (w.take (journal, change), removed)

def clear (w : Watched α) : Watched α := w.take w.journal.clear

def setIncognito (w : Watched α) (on : Bool) : Watched α :=
  { w with journal := { w.journal with incognito := on } }

end Watched

end PromptChain
