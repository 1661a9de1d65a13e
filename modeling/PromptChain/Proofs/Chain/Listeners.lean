import PromptChain.Proofs.Chain.Account
import PromptChain.Proofs.Chain.Conversation
import PromptChain.Proofs.Telemetry.Channels
/-!
# Listeners

Whoever listens to what a chain reports has no part in what the chain does.  To take the channel
away from a session commutes with every operation, so that a program comes to the same with any
listeners as with none.
-/

namespace PromptChain

/-! ## Dispatching -/

namespace Telemetry.Channel

variable {π : Type}

theorem flaw?_eq_none_iff {c : Channel π} :
    c.flaw? = none ↔ ∀ m ∈ c.mailboxes, m.subscribed = true → m.flaw = none := by
  simp [flaw?]

theorem flaw?_dispatch {c : Channel π} (h : c.flaw? = none) (name : Value) (payload : π) :
    (c.dispatch name payload).flaw? = none := by
  rw [flaw?_eq_none_iff] at h ⊢
  rw [mailboxes_dispatch]
  split
  · rintro m hm hsubscribed
    obtain ⟨n, hn, rfl⟩ := List.mem_map.mp hm
    rw [Mailbox.subscribed_put] at hsubscribed
    rw [Mailbox.flaw_put]
    exact h n hn hsubscribed
  · exact h

theorem flaw?_tune {c : Channel π} (h : c.flaw? = none) (change : Tuning) :
    (c.tune change).flaw? = none := by
  rw [flaw?_eq_none_iff] at h ⊢
  cases change with
  | attach sink =>
    rw [tune, attach_eq]
    exact h
  | detach sink => exact h
  | subscribe bound =>
    intro m hm hsubscribed
    rcases List.mem_append.mp hm with hm | hm
    · exact h m hm hsubscribed
    · rw [List.mem_singleton.mp hm]
      rfl
  | unsubscribe number =>
    intro m hm hsubscribed
    obtain ⟨i, hi⟩ := List.mem_iff_getElem?.mp hm
    simp only [tune, unsubscribe, List.getElem?_modify, Option.map_eq_map,
      Option.map_eq_some_iff] at hi
    obtain ⟨n, hn, rfl⟩ := hi
    by_cases hnumber : number = i
    · simp [hnumber] at hsubscribed
    · simp only [hnumber, if_false] at hsubscribed ⊢
      exact h n (List.mem_of_getElem? hn) hsubscribed
  | enable on => exact h

/-- Where the sizes of all mailboxes are numbers, a dispatch goes well, whatever the sinks do and
however full the mailboxes are. -/
theorem tryDispatch_eq {c : Channel π} (h : c.flaw? = none) (name : Value) (payload : π) :
    c.tryDispatch name payload = .ok (c.dispatch name payload) := by
  unfold tryDispatch
  rw [h]

end Telemetry.Channel

namespace Session

variable {ε : Type}

def tryEmit (s : Session ε) (notices : List Notice) : Except Fault (Session ε) :=
  match s.channel with
  | none => .ok s
  | some channel =>
    (notices.foldlM (fun channel n => Telemetry.Channel.tryDispatch channel (.text n.name) n)
      channel).map fun channel => { s with channel := some channel }

/-- What a session reports stops nothing of what it does. -/
theorem tryEmit_eq {s : Session ε} (h : ∀ c ∈ s.channel, c.flaw? = none) (notices : List Notice) :
    s.tryEmit notices = .ok (s.emit notices) := by
  have hdispatched : ∀ channel : Telemetry.Channel Notice, channel.flaw? = none →
      notices.foldlM (fun channel n => Telemetry.Channel.tryDispatch channel (.text n.name) n)
          channel =
        .ok (notices.foldl (fun channel n => channel.dispatch (.text n.name) n) channel) := by
    induction notices with
    | nil => exact fun channel _ => rfl
    | cons n rest ih =>
      intro channel hchannel
      rw [List.foldlM_cons, Telemetry.Channel.tryDispatch_eq hchannel]
      exact ih _ (Telemetry.Channel.flaw?_dispatch hchannel _ _)
  obtain ⟨chain, channel, env⟩ := s
  cases channel with
  | none => rfl
  | some channel =>
    simp only [tryEmit, hdispatched channel (h channel rfl)]
    rfl

/-! ## A session without listeners -/

def mute (s : Session ε) : Session ε := { s with channel := none }

def muted {α : Type} (result : α × Session ε) : α × Session ε := (result.1, result.2.mute)

@[simp] theorem chain_mute (s : Session ε) : s.mute.chain = s.chain := rfl

@[simp] theorem env_mute (s : Session ε) : s.mute.env = s.env := rfl

variable (b : Backend ε) (s : Session ε)

theorem perform_mute (command : Command) :
    s.mute.perform b command = muted (s.perform b command) := by
  cases command <;> rfl

theorem runScript_mute (script : Script) :
    runScript b script s.mute = muted (runScript b script s) := by
  induction script generalizing s with
  | finish outcome => rfl
  | call command next ih =>
    rw [runScript_call, runScript_call, perform_mute]
    exact ih _ _

/-! ## Executing steps -/

theorem record_mute (p : Prompt) : s.mute.record p = muted (s.record p) := by
  unfold record
  rw [chain_mute]
  split
  · rfl
  · cases p.message s.chain.artifacts <;> rfl

theorem keep_mute (kept : Option (Value × Value)) : s.mute.keep kept = muted (s.keep kept) := by
  cases kept with
  | none => rfl
  | some pair =>
    simp only [keep, chain_mute]
    cases s.chain.insert pair.1 pair.2 <;> rfl

theorem executePrompt_mute (serial : Nat) (p : Prompt) :
    s.mute.executePrompt b serial p = muted (s.executePrompt b serial p) := by
  simp only [executePrompt, chain_mute, env_mute]
  rcases p.send s.chain.artifacts _ s.env with ⟨e | d, env⟩
  · rfl
  have hanswered : ({ chain := s.chain, channel := s.mute.channel, env } : Session ε).modifyItem
      serial (Item.answered d.prompt) =
        ({ s with env }.modifyItem serial (Item.answered d.prompt)).mute := rfl
  simp only [hanswered, record_mute]
  generalize Session.modifyItem _ serial (Item.answered d.prompt) = t
  rcases t.record d.prompt with ⟨e | _, u⟩
  · rfl
  · simp only [muted, keep_mute]

theorem executeHook_mute (serial runs : Nat) (run : Hook) :
    s.mute.executeHook b serial runs run = muted (s.executeHook b serial runs run) := by
  have hran := runScript_mute b (s.modifyItem serial Item.running) (run (runs + 1))
  unfold executeHook
  rw [show s.mute.modifyItem serial Item.running = (s.modifyItem serial Item.running).mute from rfl,
    hran]
  rcases runScript b (run (runs + 1)) (s.modifyItem serial Item.running) with ⟨e | v, t⟩ <;> rfl

theorem activate_mute (provider : Value) :
    s.mute.activate provider = muted (s.activate provider) := by
  simp only [activate, chain_mute]
  rcases Chain.isRegistered s.chain.providers provider with e | _ | _ <;> rfl

theorem executeForeign_mute (kind : Value) (inner : Step) :
    s.mute.executeForeign kind inner = muted (s.executeForeign kind inner) := by
  unfold executeForeign
  split
  · rfl
  split
  · rfl
  split
  · cases inner.data? <;> rfl
  split
  · exact activate_mute s _
  · rfl

theorem execute_mute (i : Item) : s.mute.execute b i = muted (s.execute b i) := by
  obtain ⟨serial, label, executed, step, result⟩ := i
  cases step with
  | prompt p => exact executePrompt_mute b s serial p
  | system text => rfl
  | use provider => exact activate_mute s provider
  | hook shown run runs last => exact executeHook_mute b s serial runs run
  | foreign kind inner => exact executeForeign_mute s kind inner

theorem walk_mute (budget index : Nat) :
    walk b budget index s.mute =
      ((walk b budget index s).1, (walk b budget index s).2.1,
        (walk b budget index s).2.2.mute) := by
  induction budget generalizing index s with
  | zero =>
    unfold walk
    rw [chain_mute]
    cases nextPending? s.chain.queue.entries index <;> rfl
  | succ budget ih =>
    unfold walk
    rw [chain_mute]
    cases nextPending? s.chain.queue.entries index with
    | none => rfl
    | some found =>
      simp only [execute_mute]
      rcases s.execute b found.2 with ⟨e | v, t⟩
      · rfl
      · have hrest := ih (t.complete found.2.serial v) (found.1 + 1)
        simp only [muted]
        rw [show t.mute.complete found.2.serial v = (t.complete found.2.serial v).mute from rfl,
          hrest]

/-! ## Running chains -/

theorem settle_mute (returnKey : Value) : s.mute.settle returnKey = muted (s.settle returnKey) := by
  unfold settle
  rw [chain_mute]
  split
  · rfl
  split <;> rfl

theorem walkThen_mute {next : Nat → Session ε → Answer × Session ε}
    (hnext : ∀ count t, next count t.mute = muted (next count t)) (limit : Limit) :
    walkThen b limit s.mute next = muted (walkThen b limit s next) := by
  unfold walkThen
  rw [walk_mute]
  rcases walk b limit.budget 0 s with ⟨_ | _ | e, count, t⟩
  · exact hnext count t
  · cases limit with
    | steps bound => exact hnext count t
    | all fuel => rfl
    | invalid why => rfl
  · rfl

theorem processPlain_mute (limit : Limit) (returnKey : Value) :
    processPlain b limit returnKey s.mute = muted (processPlain b limit returnKey s) := by
  refine walkThen_mute b s (fun count t => ?_) limit
  rw [settle_mute]
  rfl

theorem performAll_mute (commands : List Command) :
    s.mute.performAll b commands = muted (s.performAll b commands) := by
  induction commands generalizing s with
  | nil => rfl
  | cons command rest ih =>
    simp only [performAll, perform_mute]
    rcases s.perform b command with ⟨e | _, t⟩
    · rfl
    · exact ih t

theorem performWith_mute {α : Type} (given : Except Fault α) (commands : α → List Command) :
    s.mute.performWith b given commands = muted (s.performWith b given commands) := by
  cases given with
  | error e => rfl
  | ok x => exact performAll_mute b s (commands x)

theorem request_mute (v : Value) (schema : Schema) :
    s.mute.request b v schema = muted (s.request b v schema) := by
  unfold request
  cases valueText v with
  | error e => rfl
  | ok text =>
    simp only [performAll_mute]
    rcases s.performAll b [.system (linesValue reshapeSystem)] with ⟨e | _, t⟩
    · rfl
    simp only [muted, performWith_mute]
    rcases t.performWith b (schemaText schema) _ with ⟨e | _, u⟩
    · rfl
    · exact performWith_mute b u _ _

section

variable {run : Session ε → Answer × Session ε} (hrun : ∀ t, run t.mute = muted (run t))

include hrun

theorem correct_mute (schema : Schema) (response : Value) :
    correct b run schema response s.mute = muted (correct b run schema response s) := by
  unfold correct
  cases schema.parse response with
  | ok v => rfl
  | error e =>
    simp only [performWith_mute]
    rcases s.performWith b (schemaText schema) _ with ⟨e | _, t⟩
    · rfl
    simp only [muted, hrun]
    rcases run t with ⟨_ | e | v, u⟩ <;> rfl

theorem reshapeWith_mute (v : Value) (schema : Schema) :
    reshapeWith b run v schema s.mute = muted (reshapeWith b run v schema s) := by
  unfold reshapeWith
  rw [request_mute]
  rcases s.request b v schema with ⟨e | _, t⟩
  · rfl
  simp only [muted, hrun]
  rcases run t with ⟨_ | e | response, u⟩
  · rfl
  · rfl
  · exact correct_mute b u hrun schema response

end

theorem reshapeApart_mute (v : Value) (schema : Schema) :
    reshapeApart b v schema s.mute = muted (reshapeApart b v schema s) := by
  simp only [reshapeApart, chain_mute]
  cases Chain.start s.chain.providers s.chain.formatKey with
  | error e => rfl
  | ok fresh =>
    have hreshape := reshapeWith_mute b { s with chain := fresh }
      (fun t => processPlain_mute b t reshapeLimit .null) v schema
    exact congrArg (fun r : Answer × Session ε => (r.1, { r.2 with chain := s.chain })) hreshape

theorem formatLast_mute (schema : Schema) (count : Nat) :
    formatLast b schema count s.mute = muted (formatLast b schema count s) := by
  simp only [formatLast, chain_mute, reshapeApart_mute]
  split
  · split
    · rfl
    · rcases reshapeApart b s.chain.last schema s with ⟨_ | e | v, t⟩ <;> rfl
  · rfl

theorem process_mute (limit : Limit) (returnKey : Value) :
    process b limit returnKey s.mute = muted (process b limit returnKey s) := by
  refine walkThen_mute b s (fun count t => ?_) limit
  simp only [chain_mute]
  cases t.chain.formatter with
  | some schema => exact formatLast_mute b t schema count
  | none =>
    simp only [settle_mute]
    rfl

theorem formattedArtifact_mute (key : Value) (schema : Schema) :
    formattedArtifact b key schema s.mute = muted (formattedArtifact b key schema s) := by
  simp only [formattedArtifact, chain_mute]
  split
  · rfl
  · rfl
  · exact reshapeApart_mute b s _ schema

theorem reshape_mute (fuel : Nat) (v : Value) (schema : Schema) :
    reshape b fuel v schema s.mute = muted (reshape b fuel v schema s) :=
  reshapeWith_mute b s (fun t => process_mute b t (.all fuel) .null) v schema

/-! ## Programs -/

inductive Operation where
  | move (m : Move)
  | formattedArtifact (key : Value) (schema : Schema)
  | reshape (fuel : Nat) (v : Value) (schema : Schema)

inductive Outcome where
  | reply (r : Except Fault Reply)
  | answer (a : Answer)

def Operation.make (b : Backend ε) (s : Session ε) : Operation → Outcome × Session ε
  | .move (.command command) => (.reply (s.perform b command).1, (s.perform b command).2)
  | .move (.process limit returnKey) =>
    (.answer (process b limit returnKey s).1, (process b limit returnKey s).2)
  | .formattedArtifact key schema =>
    (.answer (Session.formattedArtifact b key schema s).1,
      (Session.formattedArtifact b key schema s).2)
  | .reshape fuel v schema =>
    (.answer (Session.reshape b fuel v schema s).1, (Session.reshape b fuel v schema s).2)

/-- What a user does with a chain in the course of time.  Each operation may depend on what the
earlier ones came to and on what they have made of the chain.  In between, anything may happen to
the channel. -/
inductive Program where
  | stop
  | listen (change : Option (Telemetry.Channel Notice) → Option (Telemetry.Channel Notice))
      (next : Program)
  | call (operation : Operation) (next : Outcome → Chain → Program)

namespace Program

def run (b : Backend ε) : Program → Session ε → List Outcome × Session ε
  | stop, s => ([], s)
  | listen change next, s => next.run b { s with channel := change s.channel }
  | call operation next, s =>
    let (outcome, s) := operation.make b s
    let (outcomes, s) := (next outcome s.chain).run b s
    (outcome :: outcomes, s)

def mute : Program → Program
  | stop => stop
  | listen _ next => next.mute
  | call operation next => call operation fun outcome chain => (next outcome chain).mute

end Program

theorem make_mute (operation : Operation) :
    operation.make b s.mute = muted (operation.make b s) := by
  cases operation with
  | move m =>
    cases m with
    | command command => simp only [Operation.make, perform_mute, muted]
    | process limit returnKey => simp only [Operation.make, process_mute, muted]
  | formattedArtifact key schema => simp only [Operation.make, formattedArtifact_mute, muted]
  | reshape fuel v schema => simp only [Operation.make, reshape_mute, muted]

theorem run_mute (program : Program) :
    program.mute.run b s.mute = muted (program.run b s) := by
  induction program generalizing s with
  | stop => rfl
  | listen change next ih => exact ih { s with channel := change s.channel }
  | call operation next ih =>
    simp only [Program.mute, Program.run, make_mute, muted, chain_mute]
    rw [ih]
    rfl

/-- **Who listens has no part in it.** Whatever is done with a chain, and whoever listens
meanwhile: all outcomes, the requests to providers and what comes of them, the chain and the world
of the providers are those of the same program with nobody to listen. -/
theorem listeners_apart (b : Backend ε) (program : Program) (s : Session (ε × Account)) :
    (program.run b.traced s).1 = (program.mute.run b.traced s.mute).1 ∧
      (program.run b.traced s).2.account = (program.mute.run b.traced s.mute).2.account ∧
      (program.run b.traced s).2.chain = (program.mute.run b.traced s.mute).2.chain ∧
      (program.run b.traced s).2.env.1 = (program.mute.run b.traced s.mute).2.env.1 := by
  rw [run_mute]
  exact ⟨rfl, rfl, rfl, rfl⟩

end Session

end PromptChain
