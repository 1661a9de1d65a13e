import PromptChain.Proofs.Chain.Execution
/-!
# Sending prompts

The message of a prompt is resolved when it is sent, and once more when it is entered into the
history.  Nothing that it depends on changes in between, so that the message that is entered is the
one that was sent.  A prompt that cannot be resolved or is not answered changes nothing of its
chain.
-/

namespace PromptChain.Session

variable {ε : Type} {b : Backend ε}

/-- Enters a message and the response of a prompt into the history, unless the prompt is incognito
or nothing was answered. -/
def enter (s : Session ε) (p : Prompt) (m : Message) : Session ε :=
  if p.incognito || p.response = .null then s
  else
    let (history, change) := s.chain.history.push [m, .assistant p.response]
    s.take ({ s.chain with history }, Chain.historyNotices change)

theorem record_of_message {s : Session ε} {p : Prompt} {m : Message}
    (hm : p.message s.chain.artifacts = .ok m) : s.record p = (.ok (), s.enter p m) := by
  unfold record enter
  split
  · rfl
  · rw [hm]

def answer (s : Session ε) (serial : Nat) (p : Prompt) (m : Message) (response : Value) (env : ε) :
    Session ε :=
  ({ s with env }.modifyItem serial (Item.answered (p.answered response))).enter
    (p.answered response) m

inductive Sent (b : Backend ε) (s : Session ε) (serial : Nat) (p : Prompt) :
    Except Fault Value × Session ε → Prop where
  | unresolved {e : Fault} (hm : p.message s.chain.artifacts = .error e) :
      Sent b s serial p (.error e, s)
  | unanswered {m : Message} {e : Fault} {env : ε} (hm : p.message s.chain.artifacts = .ok m)
      (hchat : b.chat s.chain.active (s.chain.history.entries ++ [m]) s.chain.systemText s.env =
        (.error e, env)) :
      Sent b s serial p (.error e, { s with env })
  | answered {m : Message} {response : Value} {env : ε}
      (hm : p.message s.chain.artifacts = .ok m)
      (hchat : b.chat s.chain.active (s.chain.history.entries ++ [m]) s.chain.systemText s.env =
        (.ok response, env)) :
      Sent b s serial p
        (((s.answer serial p m response env).keep (p.delivery m response).kept).1.map
            fun _ => response,
          ((s.answer serial p m response env).keep (p.delivery m response).kept).2)

theorem sent_executePrompt (b : Backend ε) (s : Session ε) (serial : Nat) (p : Prompt) :
    Sent b s serial p (s.executePrompt b serial p) := by
  unfold executePrompt Prompt.send
  cases hm : p.message s.chain.artifacts with
  | error e => exact .unresolved hm
  | ok m =>
    rcases hchat : b.chat s.chain.active (s.chain.history.entries ++ [m]) s.chain.systemText s.env
      with ⟨reply, env⟩
    cases reply with
    | error e =>
      simp only [hchat]
      exact .unanswered hm hchat
    | ok response =>
      have hrecord := record_of_message (p := p.answered response)
        (s := { s with env }.modifyItem serial (Item.answered (p.answered response))) hm
      simp only [hchat, Prompt.delivery, hrecord]
      exact .answered hm hchat

/-! ## Answered prompts -/

variable (s : Session ε) (serial : Nat) (p : Prompt) (m : Message) (response : Value) (env : ε)

theorem env_answer : (s.answer serial p m response env).env = env := by
  unfold answer enter
  split <;> rfl

theorem chain_answer : (s.answer serial p m response env).chain =
    { s.chain.modifyItem serial (Item.answered (p.answered response)) with
      history :=
        if p.incognito || s.chain.history.incognito || response = .null then s.chain.history
        else { s.chain.history with
          entries := s.chain.history.entries ++ [m, .assistant response] } } := by
  by_cases hnull : response = .null
  · simp [answer, enter, Prompt.answered, hnull, modifyItem, Chain.modifyItem]
  cases hp : p.incognito with
  | true => simp [answer, enter, Prompt.answered, hp, modifyItem, Chain.modifyItem]
  | false =>
    cases hs : s.chain.history.incognito <;>
      simp [answer, enter, Prompt.answered, hnull, hp, hs, modifyItem, Chain.modifyItem,
        Journal.push, take, emit]

variable {s}

theorem chain_keep (kept : Option (Value × Value)) :
    ∃ artifacts, (s.keep kept).2.chain = { s.chain with artifacts } ∧
      (s.keep kept).2.env = s.env := by
  cases kept with
  | none => exact ⟨s.chain.artifacts, rfl, rfl⟩
  | some pair =>
    simp only [keep, Chain.insert]
    cases s.chain.artifacts.set pair.1 pair.2 with
    | error e => exact ⟨s.chain.artifacts, rfl, rfl⟩
    | ok artifacts => exact ⟨artifacts, rfl, rfl⟩

end PromptChain.Session
