import PromptChain.Provider.Hosted
import PromptChain.Provider.Relay
/-!
# Providers

Whatever can take part in a chain: hosted models, relays, and plain catalogs, which have models but
no way to reach them.
-/

namespace PromptChain

inductive Provider where
  | plain (catalog : Catalog)
  | hosted (h : Hosted)
  | relay (r : Relay)

namespace Provider

def catalog : Provider → Catalog
  | .plain catalog => catalog
  | .hosted h => h.catalog
  | .relay r => r.catalog

def withCatalog (catalog : Catalog) : Provider → Provider
  | .plain _ => .plain catalog
  | .hosted h => .hosted { h with catalog }
  | .relay r => .relay { r with catalog }

def model (p : Provider) : Value := p.catalog.model

def use (p : Provider) (label : Value) : Except Fault Provider :=
  (p.catalog.use label).map fun catalog => p.withCatalog catalog

/-- What providers reach their models with, with a world of type `ε`. -/
structure Reach (ε : Type) where
  client : Hosted → CompletionRequest → ε → Except Fault Completion × ε
  network : Network ε

def chat {ε : Type} (reach : Reach ε) (p : Provider) (files : FileTree) (now : Binary64)
    (messages : List Message) (system : Value) (env : ε) : Except Fault Value × FileTree × ε :=
  match p with
  | .plain _ => (.error .notImplemented, files, env)
  | .hosted h =>
    let (outcome, env) := h.chat reach.client messages system env
    (outcome, files, env)
  | .relay r => r.chat reach.network files now messages system env

end Provider

end PromptChain
