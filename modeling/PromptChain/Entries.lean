/-!
# Entries in insertion order

A table from texts to values that remembers the order in which its keys came.  Writing to a key that
is there keeps its place.
-/

namespace PromptChain

abbrev Entries (α : Type) := List (String × α)

namespace Entries

variable {α : Type}

def get? : Entries α → String → Option α
  | [], _ => none
  | (k, value) :: rest, key => if k = key then some value else get? rest key

def has (entries : Entries α) (key : String) : Bool := (entries.get? key).isSome

def keys (entries : Entries α) : List String := entries.map Prod.fst

/-- Gives a key a value: in its place if it is there, else at the end. -/
def put : Entries α → String → α → Entries α
  | [], key, value => [(key, value)]
  | (k, v) :: rest, key, value =>
    if k = key then (k, value) :: rest else (k, v) :: put rest key value

/-- The entries of a list of pairs; of several values for a key the last one counts, in the place of
the first. -/
def ofPairs (pairs : List (String × α)) : Entries α :=
  pairs.foldl (fun entries pair => put entries pair.1 pair.2) []

end Entries

end PromptChain
