import PromptChain.Proofs.Chain.Interruption
import PromptChain.Proofs.Chain.Sending
/-!
# The account of requests

Providers may keep an account of all requests that they get.  Executing steps, running chains and
having results reshaped only ever adds to it, and commands leave it alone.  A chain without a
formatter talks to nobody once its queue has been walked.
-/

namespace PromptChain

/-- The requests to providers, in order, each with what came of it. -/
abbrev Account := List (Request × Except Fault Value)

/-- Providers that keep an account of all requests. -/
def Backend.traced {ε : Type} (b : Backend ε) : Backend (ε × Account) where
  chat provider messages system env :=
    let (reply, world) := b.chat provider messages system env.1
    (reply, world, env.2 ++ [(⟨provider, messages, system⟩, reply)])
  useModel provider label env :=
    let (reply, world) := b.useModel provider label env.1
    (reply, world, env.2)

theorem Backend.chat_traced {ε : Type} {b : Backend ε} {provider : Value}
    {messages : List Message} {system : Value} {env env' : ε} {reply : Except Fault Value}
    (h : b.chat provider messages system env = (reply, env')) (past : Account) :
    b.traced.chat provider messages system (env, past) =
      (reply, env', past ++ [(⟨provider, messages, system⟩, reply)]) := by
  simp [Backend.traced, h]

namespace Session

variable {ε : Type} (b : Backend ε) (s : Session (ε × Account))

def account (s : Session (ε × Account)) : Account := s.env.2

theorem account_perform (command : Command) :
    (s.perform b.traced command).2.account = s.account := by
  cases command <;> rfl

theorem account_runScript (script : Script) :
    (runScript b.traced script s).2.account = s.account := by
  apply runScript_invariant fun t => t.account = s.account
  · rfl
  · intro g _ hg
    rw [account_perform, hg]

theorem requests_executePrompt (serial : Nat) (p : Prompt) :
    ∃ sent, (s.executePrompt b.traced serial p).2.account = s.account ++ sent ∧
      ∀ entry ∈ sent, entry.1.system = s.chain.systemText := by
  have hsent := sent_executePrompt b.traced s serial p
  generalize s.executePrompt b.traced serial p = result at hsent
  cases hsent with
  | unresolved => exact ⟨[], (List.append_nil _).symm, by simp⟩
  | unanswered hm hchat => exact ⟨_, (congrArg (fun r => r.2.2) hchat).symm, by simp⟩
  | @answered m response env hm hchat =>
    obtain ⟨artifacts, -, hkept⟩ := chain_keep (s := s.answer serial p m response env)
      (p.delivery m response).kept
    rw [account, account, hkept, env_answer]
    exact ⟨_, (congrArg (fun r => r.2.2) hchat).symm, by simp⟩

theorem requests_execute (i : Item) :
    ∃ sent, (s.execute b.traced i).2.account = s.account ++ sent ∧
      ∀ entry ∈ sent, entry.1.system = s.chain.systemText := by
  have hnone : ∀ t : Session (ε × Account), t.account = s.account →
      ∃ sent, t.account = s.account ++ sent ∧
        ∀ entry ∈ sent, entry.1.system = s.chain.systemText :=
    fun t h => ⟨[], by rw [h, List.append_nil], by simp⟩
  obtain ⟨serial, label, executed, step, result⟩ := i
  cases step with
  | prompt p => exact requests_executePrompt b s serial p
  | hook shown run runs last =>
    have hran := account_runScript b (s.modifyItem serial Item.running) (run (runs + 1))
    simp only [execute, executeHook]
    split
    · next heq =>
      rw [heq] at hran
      exact hnone _ hran
    · next heq =>
      rw [heq] at hran
      exact hnone _ hran
  | system text => exact hnone _ rfl
  | use provider =>
    simp only [execute, activate]
    split <;> exact hnone _ rfl
  | foreign kind inner =>
    simp only [execute, executeForeign, activate]
    split
    · exact hnone _ rfl
    split
    · exact hnone _ rfl
    split
    · cases inner.data? <;> exact hnone _ rfl
    split
    · split <;> exact hnone _ rfl
    · exact hnone _ rfl

theorem account_execute (i : Item) : s.account <+: (s.execute b.traced i).2.account := by
  obtain ⟨sent, hsent, -⟩ := requests_execute b s i
  exact ⟨sent, hsent.symm⟩

theorem account_walk (budget : Nat) : s.account <+: (walk b.traced budget 0 s).2.2.account := by
  refine walk_invariant (fun t => s.account <+: t.account) ?_ ?_ budget 0
    (List.prefix_refl _)
  · exact fun t i ht => ht.trans (account_execute b t i)
  · exact fun t serial v ht => ht

/-! ## Reshaping -/

theorem account_settle (returnKey : Value) : (s.settle returnKey).2.account = s.account :=
  congrArg Prod.snd (env_settle s returnKey)

theorem account_processPlain (limit : Limit) (returnKey : Value) :
    s.account <+: (processPlain b.traced limit returnKey s).2.account := by
  have hwalk := account_walk b s limit.budget
  unfold processPlain walkThen
  rcases hrun : walk b.traced limit.budget 0 s with ⟨stop, count, t⟩
  rw [hrun] at hwalk
  have hsettle := account_settle t returnKey
  cases stop with
  | failed e => exact hwalk
  | finished => exact hsettle ▸ hwalk
  | paused =>
    cases limit with
    | steps bound => exact hsettle ▸ hwalk
    | all fuel => exact hwalk
    | invalid why => exact hwalk

theorem account_reshapeWith {run : Session (ε × Account) → Answer × Session (ε × Account)}
    (hrun : ∀ t, t.account <+: (run t).2.account) (v : Value) (schema : Schema) :
    s.account <+: (reshapeWith b.traced run v schema s).2.account := by
  refine reshapeWith_invariant (fun t => s.account <+: t.account) ?_ ?_ v schema
    (List.prefix_refl _)
  · intro t command ht
    rwa [account_perform]
  · exact fun t ht => ht.trans (hrun t)

theorem account_reshapeApart (v : Value) (schema : Schema) :
    s.account <+: (reshapeApart b.traced v schema s).2.account := by
  unfold reshapeApart
  split
  · exact List.prefix_refl _
  · next fresh _ =>
    exact account_reshapeWith b { s with chain := fresh }
      (fun t => account_processPlain b t reshapeLimit .null) v schema

theorem account_formatLast (schema : Schema) (count : Nat) :
    s.account <+: (formatLast b.traced schema count s).2.account := by
  have hreshape := account_reshapeApart b s s.chain.last schema
  unfold formatLast
  split
  · split
    · exact List.prefix_refl _
    split
    · next heq =>
      rw [heq] at hreshape
      exact hreshape
    · next heq =>
      rw [heq] at hreshape
      exact hreshape
  · exact List.prefix_refl _

theorem account_process (limit : Limit) (returnKey : Value) :
    (walk b.traced limit.budget 0 s).2.2.account <+:
        (process b.traced limit returnKey s).2.account ∧
      ((walk b.traced limit.budget 0 s).2.2.chain.formatter = none →
        (process b.traced limit returnKey s).2.account =
          (walk b.traced limit.budget 0 s).2.2.account) := by
  rcases process_cases b.traced limit returnKey s with ⟨-, -, hprocess⟩ | ⟨-, -, hprocess⟩
  · rw [hprocess]
    exact ⟨List.prefix_refl _, fun _ => rfl⟩
  rw [hprocess]
  cases hformatter : (walk b.traced limit.budget 0 s).2.2.chain.formatter with
  | some schema => exact ⟨account_formatLast b _ schema _, by simp⟩
  | none =>
    have hsettle := account_settle (walk b.traced limit.budget 0 s).2.2 returnKey
    exact ⟨hsettle ▸ List.prefix_refl _, fun _ => hsettle⟩

end Session

end PromptChain
