/-!
# File paths

A path is a root and the names below it.  Repeated separators and names that stay in place are
dropped when a path is read; names that go up are kept, since what they mean depends on the files.
-/

namespace PromptChain

inductive PathRoot where
  | relative
  | absolute
  /-- Exactly two leading separators, which stay two. -/
  | doubled
  deriving DecidableEq, Repr

structure FilePath where
  root : PathRoot := .relative
  names : List String
  deriving DecidableEq, Repr

namespace FilePath

def splitNames : List Char → List (List Char)
  | [] => [[]]
  | '/' :: rest => [] :: splitNames rest
  | c :: rest =>
    match splitNames rest with
    | [] => [[c]]
    | name :: names => (c :: name) :: names

def rootOf : List Char → PathRoot
  | '/' :: '/' :: '/' :: _ => .absolute
  | '/' :: '/' :: _ => .doubled
  | '/' :: _ => .absolute
  | _ => .relative

def ofText (s : String) : FilePath where
  root := rootOf s.toList
  names := ((splitNames s.toList).map String.ofList).filter fun name => name ≠ "" && name ≠ "."

def toText (path : FilePath) : String :=
  let below := "/".intercalate path.names
  match path.root with
  | .absolute => "/" ++ below
  | .doubled => "//" ++ below
  | .relative => if path.names.isEmpty then "." else below

def join (directory path : FilePath) : FilePath :=
  if path.root = .relative then { directory with names := directory.names ++ path.names } else path

end FilePath

end PromptChain
