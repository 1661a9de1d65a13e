import PromptChain.FileTree
import PromptChain.Json.Reader
import PromptChain.Json.Writer
import PromptChain.Value.Quantity
/-!
# The reply cache

Replies are kept in files of one directory, one file for a key, each with the time when it expires.
A file that cannot be read counts as missing, and so does an expired one.
-/

namespace PromptChain

structure ReplyCache where
  directory : FilePath
  deriving DecidableEq, Repr

namespace ReplyCache

def defaultNames : List String := [".cache", "nchain"]

def defaultDirectory (home : FilePath) : FilePath :=
  { home with names := home.names ++ defaultNames }

def start (files : FileTree) (directory : FilePath) : Except Fault (ReplyCache × FileTree) :=
  if directory.hasNul then .error .embeddedNul
  else
    match files.makeDirectories directory with
    | .error e => .error (.file e)
    | .ok files => .ok (⟨directory⟩, files)

def path (cache : ReplyCache) (key : String) : FilePath :=
  cache.directory.join (FilePath.ofText (key ++ ".json"))

def entry (v expiry : Value) : Value := .object [("value", v), ("expiry", expiry)]

def isLater (now : Binary64) (expiry : Value) : Except Fault Bool :=
  match expiry.quantity? with
  | some q => .ok (q.isBefore now)
  | none => .error (.notOrdered ">" (Value.real now).kind expiry.kind)

/-- The value of an entry at a time, null if it is expired or has none. -/
def entryValue (now : Binary64) (data : Value) : Except Fault Value :=
  match data.entries? with
  | some fields =>
    let value := (fields.get? "value").getD .null
    match (fields.get? "expiry").getD .null with
    | .null => .ok value
    | expiry => (isLater now expiry).map fun expired => if expired then .null else value
  | none => .error (.noMember data.kind "get")

def decode? (content : List UInt8) : Option Value :=
  match String.fromUTF8? (ByteArray.mk content.toArray) with
  | none => none
  | some s =>
    match Json.read s with
    | .ok v => some v
    | .error _ => none

def load? (files : FileTree) (path : FilePath) : Option Value :=
  match files.read path with
  | .ok content => decode? content
  | .error _ => none

def get (cache : ReplyCache) (files : FileTree) (now : Binary64) (key : String) :
    Except Fault Value :=
  let path := cache.path key
  if path.hasNul then .ok .null
  else
    match files.contains path with
    | .error e => .error (.file e)
    | .ok false => .ok .null
    | .ok true =>
      match load? files path with
      | none => .ok .null
      | some data => entryValue now data

def has (cache : ReplyCache) (files : FileTree) (now : Binary64) (key : String) :
    Except Fault Bool :=
  (cache.get files now key).map fun v => v ≠ .null

/-- The expiry of a value that is stored now for a span of time; no time at all is no limit. -/
def expiry (now : Binary64) (ttl : Value) : Except Fault Value :=
  if ttl.isFalsy then .ok .null
  else
    match ttl.quantity? with
    | some q => (q.after now).map .real
    | none => .error (.notAddable (Value.real now).kind ttl.kind)

def encode (now : Binary64) (v ttl : Value) : Except Fault (List UInt8) :=
  match expiry now ttl with
  | .error e => .error e
  | .ok expiry => (Json.compact (entry v expiry)).map fun s => s.toUTF8.toList

def set (cache : ReplyCache) (files : FileTree) (now : Binary64) (key : String)
    (v ttl : Value) : Except Fault FileTree :=
  match encode now v ttl with
  | .error e => .error e
  | .ok content =>
    if (cache.path key).hasNul then .error .embeddedNul
    else (files.write (cache.path key) content).mapError .file

def delete (cache : ReplyCache) (files : FileTree) (key : String) : Except Fault FileTree :=
  if (cache.path key).hasNul then .error .embeddedNul
  else
    match files.remove (cache.path key) with
    | .ok files => .ok files
    | .error .notFound => .ok files
    | .error e => .error (.file e)

/-- Ends the computation of a value for a key that had none.  If the key has got one meanwhile, that
one stays and counts; otherwise the computed value is stored. -/
def complete (cache : ReplyCache) (files : FileTree) (now : Binary64) (key : String)
    (v ttl : Value) : Except Fault (Value × FileTree) :=
  match cache.get files now key with
  | .error e => .error e
  | .ok .null => (cache.set files now key v ttl).map fun files => (v, files)
  | .ok stored => .ok (stored, files)

structure Surroundings (ε : Type) where
  files : ε → FileTree
  withFiles : FileTree → ε → ε
  now : ε → Binary64

/-- The value of a key.  If there is none, one is computed, which may take time and change the
files, and stored. -/
def remember {ε : Type} (cache : ReplyCache) (world : Surroundings ε) (key : String) (ttl : Value)
    (compute : ε → Except Fault Value × ε) (env : ε) : Except Fault Value × ε :=
  match cache.get (world.files env) (world.now env) key with
  | .ok .null =>
    match compute env with
    | (.error e, env) => (.error e, env)
    | (.ok v, env) =>
      match cache.complete (world.files env) (world.now env) key v ttl with
      | .error e => (.error e, env)
      | .ok (v, files) => (.ok v, world.withFiles files env)
  | outcome => (outcome, env)

end ReplyCache

end PromptChain
