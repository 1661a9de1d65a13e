import PromptChain.Fault
/-!
# Tables

A table gives values to keys, which are values themselves, and remembers the order in which its keys
came.  Keys are told apart by their meaning, so that 1 and true are one key.  What could change, a
list, an object or a record, is no key.
-/

namespace PromptChain

namespace Value

/-- The kind of a value, or of its first item, that cannot be a key. -/
def unkeyed? : Value → Option String
  | .list _ => some "list"
  | .object _ => some "dict"
  | .brokenObject .. => some "dict"
  | .record model _ => some model
  | .tuple items => firstUnkeyed? items
  | _ => none
where
  firstUnkeyed? : List Value → Option String
    | [] => none
    | v :: rest => (unkeyed? v).or (firstUnkeyed? rest)

def asKey (v : Value) : Except Fault Value :=
  match v.unkeyed? with
  | some kind => .error (.unkeyed kind)
  | none => .ok v

end Value

/-- Values under keys of any kind, in the order in which the keys came. -/
abbrev Table (α : Type) := List (Value × α)

namespace Table

variable {α : Type}

def get? : Table α → Value → Option α
  | [], _ => none
  | (k, value) :: rest, key => if k.same key then some value else get? rest key

def find (table : Table α) (key : Value) : Except Fault (Option α) := key.asKey.map table.get?

def keys (table : Table α) : List Value := table.map Prod.fst

def put : Table α → Value → α → Table α
  | [], key, value => [(key, value)]
  | (k, v) :: rest, key, value =>
    if k.same key then (k, value) :: rest else (k, v) :: put rest key value

def set (table : Table α) (key : Value) (value : α) : Except Fault (Table α) :=
  key.asKey.map fun key => table.put key value

/-- The table of a list of pairs; of several values for a key the last one counts, in the place of
the first. -/
def ofPairs (pairs : List (Value × α)) : Table α :=
  pairs.foldl (fun table pair => put table pair.1 pair.2) []

/-- The table of a list of pairs, where what is to be used as a key has to be one. -/
def build (pairs : List (Value × α)) : Except Fault (Table α) :=
  pairs.foldlM (fun table pair => table.set pair.1 pair.2) []

def ofEntries (entries : Entries α) : Table α := entries.map fun (key, value) => (.text key, value)

def ofTexts (names : List String) : Table Value := names.map fun name => (.text name, .text name)

theorem get?_put_text (table : Table α) (key other : String) (value : α) :
    (table.put (.text key) value).get? (.text other) =
      if key = other then some value else table.get? (.text other) := by
  induction table with
  | nil => simp [put, get?, Value.same]
  | cons pair rest ih =>
    obtain ⟨k, v⟩ := pair
    cases k with
    | text s =>
      by_cases hk : s = key
      · by_cases ho : key = other <;> simp [put, get?, Value.same, hk, ho]
      · by_cases ho : s = other
        · subst ho
          simp [put, get?, Value.same, hk, Ne.symm hk]
        · simp [put, get?, Value.same, hk, ho, ih]
    | bool b => simp [put, get?, Value.same, Value.sameAsInt, ih]
    | int n => simp [put, get?, Value.same, Value.sameAsInt, ih]
    | _ => simp [put, get?, Value.same, ih]

theorem isSome_get?_put {table : Table α} {other : Value} (key : Value) (value : α)
    (h : (table.get? other).isSome) : ((table.put key value).get? other).isSome := by
  induction table with
  | nil => simp [get?] at h
  | cons pair rest ih =>
    by_cases ho : pair.1.same other
    · by_cases hk : pair.1.same key <;> simp [put, get?, hk, ho]
    · have hrest : (get? rest other).isSome := by simpa [get?, ho] using h
      by_cases hk : pair.1.same key
      · simp [put, get?, hk, ho, hrest]
      · simp [put, get?, hk, ho, ih hrest]

end Table

end PromptChain
