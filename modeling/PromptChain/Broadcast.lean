import PromptChain.Telemetry
/-!
# Broadcasts

A server sends every report of a channel to each of its clients.  A client has a mailbox, and a
forwarder that empties the mailbox into the client's socket.  A forwarder takes a report from the
mailbox first (`Broadcast.pick`) and hands it to the socket then (`Broadcast.pass`); anything may
happen in between.  It ends when its socket is closed or reset, and when a report cannot be written.
-/

namespace PromptChain

open Telemetry

structure Client where
  mailbox : Nat
  forwarding : Bool := true
  /-- The report that the forwarder has taken from the mailbox and not yet handed to the socket. -/
  held : Option (Report Value) := none
  closed : Bool := false
  /-- The number of texts after which the socket refuses more, if it ever does. -/
  resetAfter : Option Nat := none
  /-- The number of texts after which the socket closes, if it does so by itself. -/
  closeAfter : Option Nat := none
  sent : List String := []
  deriving DecidableEq

inductive SiteEvent where
  | setUp
  | listen (host portNumber : Value)
  | cleanUp
  deriving DecidableEq

structure Broadcast where
  channel : Channel Value
  host : Value := .text "localhost"
  portNumber : Value := .int 1414
  started : Bool := false
  clients : List Client := []
  registered : List Nat := []
  site : List SiteEvent := []

namespace Client

/-- Ends the forwarder, and what it holds is lost. -/
def quit (c : Client) : Client := { c with forwarding := false, held := none }

/-- Sends a text, unless the socket is closed or refuses it; the forwarder ends then, and when the
socket is closed afterwards. -/
def send (c : Client) (s : String) : Client :=
  if c.closed || c.resetAfter.any fun n => n ≤ c.sent.length then c.quit
  else
    let sent := c.sent ++ [s]
    let closed := c.closeAfter = some sent.length
    { c with sent, closed, forwarding := !closed, held := none }

def forward (c : Client) (r : Report Value) : Client :=
  match r.encode with
  | .ok s => c.send s
  | .error _ => c.quit

def pass (c : Client) : Client :=
  match c.held with
  | some r => c.forward r
  | none => c

end Client

namespace Broadcast

def note (b : Broadcast) (event : SiteEvent) : Broadcast := { b with site := b.site ++ [event] }

def modify (b : Broadcast) (number : Nat) (f : Client → Client) : Broadcast :=
  { b with clients := b.clients.modify number f }

/-- Starts the server, where `setUp` and `listen` say how that goes.  A server that was started once
and did not stop counts as started. -/
def start (b : Broadcast) (setUp listen : Except Fault Unit) : Except Fault Unit × Broadcast :=
  if b.started then (.ok (), b)
  else
    let b := { b with started := true }.note .setUp
    match setUp with
    | .error e => (.error e, b)
    | .ok _ => (listen, b.note (.listen b.host b.portNumber))

/-- Ends the handling of a client: its forwarder, its mailbox and its registration go. -/
def leave (b : Broadcast) (number : Nat) : Broadcast :=
  if number ∈ b.registered then
    match b.clients[number]? with
    | some c =>
      { b with
        channel := b.channel.unsubscribe c.mailbox
        clients := b.clients.modify number Client.quit
        registered := b.registered.erase number }
    | none => b
  else b

def disconnect (b : Broadcast) (number : Nat) : Broadcast :=
  (b.modify number fun c => { c with closed := true }).leave number

def stop (b : Broadcast) : Broadcast :=
  if b.started then
    { (b.registered.foldl disconnect b).note .cleanUp with started := false }
  else b

def connect (b : Broadcast) (resetAfter closeAfter : Option Nat) : Broadcast × Nat :=
  let (channel, mailbox) := b.channel.subscribe Channel.defaultSize
  let number := b.clients.length
  ({ b with
      channel
      clients := b.clients ++ [{ mailbox, resetAfter, closeAfter }]
      registered := b.registered ++ [number] }, number)

/-- A message of a client; only one that reports an error has an effect, and ends the handling. -/
def receive (b : Broadcast) (number : Nat) (isError : Bool) : Broadcast :=
  if isError then b.leave number else b

def dispatch (b : Broadcast) (name payload : Value) : Broadcast :=
  { b with channel := b.channel.dispatch name payload }

/-- The forwarder of a client takes a report from the mailbox, if it holds none. -/
def pick (b : Broadcast) (number : Nat) : Broadcast :=
  match b.clients[number]? with
  | some c =>
    if c.forwarding && c.held.isNone then
      match b.channel.take c.mailbox with
      | (some r, channel) => { b with channel }.modify number fun c => { c with held := some r }
      | (none, _) => b
    else b
  | none => b

def pass (b : Broadcast) (number : Nat) : Broadcast := b.modify number Client.pass

def turn (b : Broadcast) (number : Nat) : Broadcast := (b.pick number).pass number

def waiting (b : Broadcast) (number : Nat) : Nat :=
  ((b.clients[number]?.bind fun c => b.channel.mailboxes[c.mailbox]?).map fun m =>
    m.size).getD 0

def turns (number : Nat) : (count : Nat) → Broadcast → Broadcast
  | 0, b => b
  | count + 1, b => turns number count (b.turn number)

def settle (b : Broadcast) : Broadcast :=
  (List.range b.clients.length).foldl (fun b number => turns number (b.waiting number) b) b

end Broadcast

end PromptChain
