import PromptChain.Fault
import PromptChain.FilePath
/-!
# File trees

A tree of directories and files, with the place from which relative paths start.  A place is the
list of the names on the way to it from the root.
-/

namespace PromptChain

inductive Node where
  | directory
  | file (content : List UInt8)
  deriving DecidableEq, Repr

abbrev Place := List String

/-- A file tree.  The root is there without being listed. -/
structure FileTree where
  /-- Where relative paths start. -/
  working : Place := []
  nodes : List (Place × Node) := []
  deriving DecidableEq, Repr

namespace FileTree

def find? : List (Place × Node) → Place → Option Node
  | [], _ => none
  | (p, node) :: rest, place => if p = place then some node else find? rest place

def get? (t : FileTree) (place : Place) : Option Node :=
  if place = [] then some .directory else find? t.nodes place

def erase (t : FileTree) (place : Place) : FileTree :=
  { t with nodes := t.nodes.filter fun entry => entry.1 ≠ place }

def put (t : FileTree) (place : Place) (node : Node) : FileTree :=
  let rest := t.erase place
  { rest with nodes := rest.nodes ++ [(place, node)] }

def maxNameBytes : Nat := 255

def above : String := ".."

def enter (place : Place) (name : String) : Place :=
  if name = above then place.dropLast else place ++ [name]

/-- Follows names from a place.  Something may be missing at the end of the way only, and all before
it have to be directories. -/
def follow (t : FileTree) : Place → List String → Except FileFault Place
  | place, [] => .ok place
  | place, name :: rest =>
    match t.get? place with
    | none => .error .notFound
    | some (.file _) => .error .notDirectory
    | some .directory =>
      if maxNameBytes < name.utf8ByteSize then .error .nameTooLong
      else t.follow (enter place name) rest

def maxPathBytes : Nat := 4095

def isLongPath (path : FilePath) : Bool := maxPathBytes < path.toText.utf8ByteSize

def origin (t : FileTree) (path : FilePath) : Place :=
  if path.root = .relative then t.working else []

def locate (t : FileTree) (path : FilePath) : Except FileFault Place :=
  if isLongPath path then .error .nameTooLong else t.follow (t.origin path) path.names

/-- Whether something is at the end of a path.  A way that leads nowhere is no failure. -/
def contains (t : FileTree) (path : FilePath) : Except FileFault Bool :=
  match t.locate path with
  | .ok place => .ok (t.get? place).isSome
  | .error .notFound => .ok false
  | .error .notDirectory => .ok false
  | .error e => .error e

def read (t : FileTree) (path : FilePath) : Except FileFault (List UInt8) :=
  match t.locate path with
  | .error e => .error e
  | .ok place =>
    match t.get? place with
    | none => .error .notFound
    | some .directory => .error .isDirectory
    | some (.file content) => .ok content

def write (t : FileTree) (path : FilePath) (content : List UInt8) : Except FileFault FileTree :=
  match t.locate path with
  | .error e => .error e
  | .ok place =>
    if t.get? place = some .directory then .error .isDirectory
    else .ok (t.put place (.file content))

def remove (t : FileTree) (path : FilePath) : Except FileFault FileTree :=
  match t.locate path with
  | .error e => .error e
  | .ok place =>
    match t.get? place with
    | none => .error .notFound
    | some .directory => .error .isDirectory
    | some (.file _) => .ok (t.erase place)

def makeDirectory (t : FileTree) (path : FilePath) : Except FileFault FileTree :=
  match t.locate path with
  | .error e => .error e
  | .ok place =>
    if (t.get? place).isSome then .error .alreadyExists else .ok (t.put place .directory)

/-- Creates the directories on a way, as far as they are missing.  `created` says whether some on
the way to `place` were.  If none was, a file in the way is met as one that is no directory. -/
def makeMissing (t : FileTree) (created : Bool) :
    Place → List String → Except FileFault FileTree
  | _, [] => .ok t
  | place, name :: rest =>
    if maxNameBytes < name.utf8ByteSize then .error .nameTooLong
    else
      let next := enter place name
      match t.get? next with
      | some .directory => t.makeMissing created next rest
      | some (.file _) =>
        .error (if created || rest.isEmpty then .alreadyExists else .notDirectory)
      | none => (t.put next .directory).makeMissing true next rest

def makeDirectories (t : FileTree) (path : FilePath) : Except FileFault FileTree :=
  if isLongPath path then .error .nameTooLong
  else t.makeMissing false (t.origin path) path.names

def below? : (base place : Place) → Option Place
  | [], place => some place
  | _ :: _, [] => none
  | b :: base, p :: place => if b = p then below? base place else none

def inOrder : Place → Place → Bool
  | [], _ => true
  | _ :: _, [] => false
  | a :: as, b :: bs => if a = b then inOrder as bs else a < b

/-- The files below the place where relative paths start, with their paths from there, in the order
of the names on the way to them. -/
def files (t : FileTree) : List (FilePath × List UInt8) :=
  let found := t.nodes.filterMap fun (place, node) =>
    match node, below? t.working place with
    | .file content, some names => some ({ names }, content)
    | _, _ => none
  found.mergeSort fun a b => inOrder a.1.names b.1.names

end FileTree

/-- Whether a path has a character that no file name may have. -/
def FilePath.hasNul (path : FilePath) : Bool :=
  path.names.any fun name => name.toList.contains '\x00'

end PromptChain
