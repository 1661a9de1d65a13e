import PromptChain.Chain.Basic
import PromptChain.Telemetry
/-!
# Sessions

A session is a chain at work: the chain, the channel on which it reports, if there is one, and the
world of its providers.  Commands and hooks run here.
-/

namespace PromptChain

/-- The providers that a chain talks to, with a world of type `ε`. -/
structure Backend (ε : Type) where
  /-- Sends messages and a system prompt to the provider of a key. -/
  chat : Value → List Message → Value → ε → Except Fault Value × ε
  /-- Makes the provider of a key use another model. -/
  useModel : Value → Value → ε → Except Fault Unit × ε

structure Session (ε : Type) where
  chain : Chain
  channel : Option (Telemetry.Channel Notice) := none
  env : ε

namespace Session

variable {ε : Type}

def emit (s : Session ε) (notices : List Notice) : Session ε :=
  { s with channel := s.channel.map fun channel =>
    notices.foldl (fun channel n => channel.dispatch (.text n.name) n) channel }

def take (s : Session ε) (step : Chain × List Notice) : Session ε :=
  { s with chain := step.1 }.emit step.2

def perform (b : Backend ε) (s : Session ε) : Command → Except Fault Reply × Session ε
  | .useModel provider label =>
    let (reply, env) := b.useModel provider label s.env
    (reply.map fun _ => .done, { s with env })
  | .tune change => (.ok .done, { s with channel := s.channel.map fun c => c.tune change })
  | command =>
    let (reply, step) := s.chain.perform command
    (reply, s.take step)

def runScript (b : Backend ε) : Script → Session ε → Except Fault Value × Session ε
  | .finish outcome, s => (outcome, s)
  | .call command next, s =>
    let (reply, s) := s.perform b command
    runScript b (next reply) s

end Session

end PromptChain
