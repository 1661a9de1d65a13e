import PromptChain.Proofs.Chain.Marks
/-!
# Executing a step

An execution is made of changes of three kinds: it touches the item that it is
about, it writes to what lies beside the queue, and, if it runs a hook, it obeys
commands.  What all of these preserve, the execution preserves.
-/

namespace PromptChain

inductive Item.Touch : Step → (Item → Item) → Prop where
  | answered (p q : Prompt) : Touch (.prompt p) (Item.answered q)
  | running (shown : String) (run : Hook) (runs : Nat) (result : Value) :
      Touch (.hook shown run runs result) Item.running
  | finished (shown : String) (run : Hook) (runs : Nat) (result v : Value) :
      Touch (.hook shown run runs result) (Item.finished v)

/-- Whether a property of a chain leaves open what lies beside the queue: the conversation, the
artifacts, the provider and the system prompt. -/
def Chain.Aside (invariant : Chain → Prop) : Prop :=
  ∀ (c : Chain) history artifacts active systemText, invariant c →
    invariant { c with history, artifacts, active, systemText }

namespace Session

variable {ε : Type} {b : Backend ε}

theorem chain_perform (s : Session ε) (command : Command) :
    (s.perform b command).2.chain = (s.chain.perform command).2.1 := by
  cases command <;> rfl

def orders (b : Backend ε) (s : Session ε) (i : Item) : List (Session ε × Command) :=
  match i.step with
  | .hook _ run runs _ => given b (run (runs + 1)) (s.modifyItem i.serial Item.running)
  | _ => []

theorem execute_hook {s : Session ε} {i : Item} {shown : String} {run : Hook} {runs : Nat}
    {last v : Value} (hstep : i.step = .hook shown run runs last)
    (hrun : (s.execute b i).1 = .ok v) :
    (runScript b (run (runs + 1)) (s.modifyItem i.serial Item.running)).1 = .ok v ∧
      (s.execute b i).2 = (runScript b (run (runs + 1))
        (s.modifyItem i.serial Item.running)).2.modifyItem i.serial (Item.finished v) := by
  simp only [execute, hstep, executeHook] at hrun ⊢
  split at hrun
  · cases hrun
  · next w t heq =>
    cases hrun
    rw [heq]
    exact ⟨rfl, rfl⟩

section Invariant

variable (invariant : Chain → Prop) (haside : Chain.Aside invariant)

include haside

theorem record_invariant {s : Session ε} (hs : invariant s.chain)
    (p : Prompt) : invariant (s.record p).2.chain := by
  unfold record
  split
  · exact hs
  · cases p.message s.chain.artifacts with
    | error e => exact hs
    | ok m => exact haside s.chain _ s.chain.artifacts s.chain.active s.chain.systemText hs

theorem keep_invariant {s : Session ε} (hs : invariant s.chain)
    (kept : Option (Value × Value)) : invariant (s.keep kept).2.chain := by
  cases kept with
  | none => exact hs
  | some pair =>
    simp only [keep, Chain.insert]
    cases s.chain.artifacts.set pair.1 pair.2 with
    | error e => exact hs
    | ok artifacts =>
      exact haside s.chain s.chain.history artifacts s.chain.active s.chain.systemText hs

theorem activate_invariant {s : Session ε} (hs : invariant s.chain)
    (provider : Value) : invariant (s.activate provider).2.chain := by
  unfold activate
  split
  · exact hs
  · exact hs
  · exact haside s.chain s.chain.history s.chain.artifacts provider s.chain.systemText hs

theorem setSystem_invariant {s : Session ε} (hs : invariant s.chain)
    (text : Value) : invariant (s.setSystem text).2.chain :=
  haside s.chain s.chain.history s.chain.artifacts s.chain.active text hs

theorem executeForeign_invariant {s : Session ε} (hs : invariant s.chain)
    (kind : Value) (inner : Step) : invariant (s.executeForeign kind inner).2.chain := by
  unfold executeForeign
  split
  · exact hs
  split
  · exact hs
  split
  · cases inner.data? with
    | none => exact hs
    | some text => exact setSystem_invariant invariant haside hs text
  split
  · exact activate_invariant invariant haside hs _
  · exact hs

/-- What touching its item, writing beside the queue and obeying its commands preserve, the
execution of an item preserves. -/
theorem execute_invariant {s : Session ε} {i : Item} (hs : invariant s.chain)
    (htouch : ∀ (c : Chain) (f : Item → Item), Item.Touch i.step f → invariant c →
      invariant (c.modifyItem i.serial f))
    (horders : ∀ g ∈ orders b s i, invariant g.1.chain →
      invariant (g.1.chain.perform g.2).2.1) :
    invariant (s.execute b i).2.chain := by
  obtain ⟨serial, label, executed, step, result⟩ := i
  cases step with
  | prompt p =>
    simp only [execute, executePrompt]
    split
    · exact hs
    · next d env hsend =>
      have hanswered := htouch s.chain _ (.answered p d.prompt) hs
      have hrecorded := record_invariant invariant haside
        (s := { s with env }.modifyItem serial (Item.answered d.prompt)) hanswered d.prompt
      split
      · next heq =>
        rw [heq] at hrecorded
        exact hrecorded
      · next heq =>
        rw [heq] at hrecorded
        exact keep_invariant invariant haside hrecorded d.kept
  | hook shown run runs last =>
    have hran : invariant
        (runScript b (run (runs + 1)) (s.modifyItem serial Item.running)).2.chain := by
      apply runScript_invariant fun t => invariant t.chain
      · exact htouch s.chain _ (.running shown run runs last) hs
      · intro g hg hinv
        rw [chain_perform]
        exact horders g hg hinv
    simp only [execute, executeHook]
    split
    · next heq => exact (congrArg (fun r => invariant r.2.chain) heq).mp hran
    · next v t heq =>
      exact htouch t.chain _ (.finished shown run runs last v)
        ((congrArg (fun r => invariant r.2.chain) heq).mp hran)
  | system text => exact setSystem_invariant invariant haside hs _
  | use provider => exact activate_invariant invariant haside hs provider
  | foreign kind inner => exact executeForeign_invariant invariant haside hs kind inner

end Invariant

end Session

end PromptChain
