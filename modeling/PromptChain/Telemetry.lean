import PromptChain.Json.Writer
import PromptChain.Value.Quantity
/-!
# Telemetry

A channel carries reports to whoever listens: sinks, which are called at once, and mailboxes, which
keep what they are given until it is taken.  Nobody who listens can hold up or stop a dispatch: what
a sink does wrong is dropped, and so is a report for a full mailbox.
-/

namespace PromptChain.Telemetry

structure Report (π : Type) where
  name : Value
  timestamp : Value
  payload : π
  deriving DecidableEq

def Report.toValue (r : Report Value) : Value :=
  .object [("name", r.name), ("timestamp", r.timestamp), ("payload", r.payload)]

def Report.encode (r : Report Value) : Except Fault String := Json.lenient r.toValue

/-- What a sink does when it is called: it may detach and attach sinks, and fail. -/
structure Reaction where
  detach : List String := []
  attach : List String := []
  failure : Option Fault := none

/-- A mailbox: how many reports it holds at most, if there is a limit, and those that it holds.
They are in two parts, so that neither a report that comes nor one that goes moves the others. -/
structure Mailbox (π : Type) where
  bound : Option Nat
  /-- What is wrong with the size that was asked for, if it is no number. -/
  flaw : Option Fault := none
  /-- The reports that go next, the oldest first. -/
  older : List (Report π) := []
  /-- The reports that came after those, the newest first. -/
  newer : List (Report π) := []
  size : Nat := 0
  size_eq : size = older.length + newer.length := by rfl
  subscribed : Bool := true

namespace Mailbox

variable {π : Type}

def reports (m : Mailbox π) : List (Report π) := m.older ++ m.newer.reverse

@[simp]
theorem length_reports (m : Mailbox π) : m.reports.length = m.size := by
  simp [reports, m.size_eq]

def isFull (m : Mailbox π) : Bool :=
  match m.bound with
  | none => false
  | some n => n ≤ m.size

/-- Gives a mailbox a report, which is dropped if the mailbox is full. -/
def put (m : Mailbox π) (r : Report π) : Mailbox π :=
  if m.subscribed && !m.isFull then
    { m with
      newer := r :: m.newer
      size := m.size + 1
      size_eq := by simp [m.size_eq, Nat.add_assoc] }
  else m

theorem reports_put (m : Mailbox π) (r : Report π) :
    (m.put r).reports =
      if m.subscribed && !m.isFull then m.reports ++ [r] else m.reports := by
  unfold put
  split <;> simp [reports]

def take (m : Mailbox π) : Option (Report π) × Mailbox π :=
  match h : m.older with
  | r :: rest =>
    (some r, { m with
      older := rest
      size := m.size - 1
      size_eq := by
        have := m.size_eq
        simp only [h, List.length_cons] at this
        omega })
  | [] =>
    match hn : m.newer.reverse with
    | r :: rest =>
      (some r, { m with
        older := rest
        newer := []
        size := m.size - 1
        size_eq := by
          have hsize := m.size_eq
          have hlength := congrArg List.length hn
          simp only [h, List.length_nil, List.length_reverse, List.length_cons] at hsize hlength
          simp only [List.length_nil]
          omega })
    | [] => (none, m)

theorem fst_take (m : Mailbox π) : m.take.1 = m.reports.head? := by
  unfold take
  split
  next h => simp [reports, h]
  next h => split <;> simp [reports, *]

theorem reports_snd_take (m : Mailbox π) : m.take.2.reports = m.reports.tail := by
  unfold take
  split
  next h => simp [reports, h]
  next h => split <;> simp_all [reports]

end Mailbox

inductive Tuning where
  | attach (sink : String)
  | detach (sink : String)
  /-- Subscribes a mailbox; without a positive bound it holds any number of reports. -/
  | subscribe (bound : Int)
  | unsubscribe (number : Nat)
  | enable (on : Bool)

structure Channel (π : Type) where
  enabled : Bool := true
  clock : Binary64 := .zero false
  /-- What each sink does, given all calls of sinks up to its own, the latest first. -/
  react : String → List (String × Report π) → Reaction := fun _ _ => {}
  sinks : List String := []
  mailboxes : List (Mailbox π) := []
  /-- What the sinks were called with, the latest first. -/
  latest : List (String × Report π) := []

namespace Channel

variable {π : Type}

def delivered (c : Channel π) : List (String × Report π) := c.latest.reverse

def attached (c : Channel π) : Bool :=
  !c.sinks.isEmpty || c.mailboxes.any fun m => m.subscribed

/-- Attaches a sink; one that is attached already stays where it is. -/
def attach (c : Channel π) (sink : String) : Channel π :=
  if sink ∈ c.sinks then c else { c with sinks := c.sinks ++ [sink] }

def detach (c : Channel π) (sink : String) : Channel π :=
  { c with sinks := c.sinks.erase sink }

def boundOf (size : Int) : Option Nat := if size ≤ 0 then none else some size.toNat

/-- A new mailbox of a size.  A fraction counts as the integer after it. -/
def mailboxOf (size : Value) : Mailbox π :=
  match size.quantity? with
  | some (.whole n) => { bound := boundOf n }
  | some (.real x) => { bound := x.ceiling?.bind boundOf }
  | none => { bound := none, flaw := some (.notOrdered "<=" size.kind (Value.int 0).kind) }

/-- Subscribes a mailbox of a size; its number is the number of those before it. -/
def subscribe (c : Channel π) (size : Value) : Channel π × Nat :=
  ({ c with mailboxes := c.mailboxes ++ [mailboxOf size] }, c.mailboxes.length)

def defaultSize : Value := .int 1000

/-- Ends the subscription of a mailbox, which keeps what it holds. -/
def unsubscribe (c : Channel π) (number : Nat) : Channel π :=
  { c with mailboxes := c.mailboxes.modify number fun m => { m with subscribed := false } }

def tune (c : Channel π) : Tuning → Channel π
  | .attach sink => c.attach sink
  | .detach sink => c.detach sink
  | .subscribe bound => (c.subscribe (.int bound)).1
  | .unsubscribe number => c.unsubscribe number
  | .enable on => { c with enabled := on }

def take (c : Channel π) (number : Nat) : Option (Report π) × Channel π :=
  match c.mailboxes[number]? with
  | some m =>
    let (taken, m) := m.take
    (taken, { c with mailboxes := c.mailboxes.set number m })
  | none => (none, c)

def call (r : Report π) (c : Channel π) (sink : String) : Except Fault Unit × Channel π :=
  let called := { c with latest := (sink, r) :: c.latest }
  let reaction := c.react sink called.latest
  let left := reaction.attach.foldl attach (reaction.detach.foldl detach called)
  match reaction.failure with
  | some e => (.error e, left)
  | none => (.ok (), left)

def deliver (r : Report π) (c : Channel π) (sink : String) : Channel π :=
  match c.call r sink with
  | (.ok _, c) => c
  | (.error _, c) => c

def report (c : Channel π) (name : Value) (payload : π) : Report π :=
  ⟨name, .real (c.clock * Binary64.ofInt 1000), payload⟩

/-- Tells everybody who listens: the sinks attached now, then the mailboxes there after that.  The
sizes of all mailboxes have to be numbers. -/
def dispatch (c : Channel π) (name : Value) (payload : π) : Channel π :=
  if c.enabled && c.attached then
    let r := c.report name payload
    let called := c.sinks.foldl (deliver r) c
    { called with mailboxes := called.mailboxes.map fun m => m.put r }
  else c

def flaw? (c : Channel π) : Option Fault :=
  (c.mailboxes.filter fun m => m.subscribed).findSome? fun m => m.flaw

def tryDispatch (c : Channel π) (name : Value) (payload : π) : Except Fault (Channel π) :=
  match c.flaw? with
  | none => .ok (c.dispatch name payload)
  | some e => if c.enabled then .error e else .ok c

end Channel

end PromptChain.Telemetry
