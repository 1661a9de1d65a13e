import PromptChain.Proofs.Chain.Reshaping
/-!
# Formatting apart

Formatting is a dialogue of its own with the formatting provider.  Which requests are sent and what
comes of them depends on the value, on the schema and on the providers, and on nothing else that a
chain holds.  The chain stays as it is, but for the formatted result if the formatting is part of a
run.
-/

namespace PromptChain

namespace Session

variable {ε : Type} {b : Backend ε}

/-! ## Dialogues -/

/-- The requests of a dialogue about one text: to transform it, and to correct the response. -/
inductive Dialogue (provider : Value) : Account → Prop where
  | silent : Dialogue provider []
  | asked (text : String) (reply : Except Fault Value) :
      Dialogue provider [(⟨provider, [.user text], reshapePrompt⟩, reply)]
  | corrected (text correction : String) (response : Value) (reply : Except Fault Value) :
      Dialogue provider [(⟨provider, [.user text], reshapePrompt⟩, .ok response),
        (⟨provider, [.user text, .assistant response, .user correction], reshapePrompt⟩, reply)]

theorem exists_correction (b : Backend ε) (provider : Value) (schema : Schema) (given : Shown)
    (text : String) (response : Value) (env : ε) :
    ∃ outcome sent world,
      Dialogue provider ((⟨provider, [.user text], reshapePrompt⟩, .ok response) :: sent) ∧
      ∀ past : Account, consultAgain b.traced provider schema given text response (env, past) =
        (outcome, world, past ++ sent) := by
  cases hparse : schema.parse response with
  | ok v =>
    exact ⟨.ok v, [], env, .asked text _, fun past => by simp [consultAgain, hparse]⟩
  | error e =>
    cases hcorrection : correction given e response with
    | error e' =>
      exact ⟨.error e', [], env, .asked text _,
        fun past => by simp [consultAgain, hparse, hcorrection]⟩
    | ok again =>
      rcases hask : b.chat provider [.user text, .assistant response, .user again] reshapePrompt
        env with ⟨reply, world⟩
      have hasked := Backend.chat_traced hask
      cases reply with
      | error e' =>
        exact ⟨.error e', _, world, .corrected text again response (.error e'),
          fun past => by simp [consultAgain, hparse, hcorrection, hasked]⟩
      | ok second =>
        exact ⟨schema.parse (if second = .null then response else second), _, world,
          .corrected text again response (.ok second),
          fun past => by simp [consultAgain, hparse, hcorrection, hasked]⟩

theorem exists_dialogue_consultOnce (b : Backend ε) (provider : Value) (schema : Schema)
    (given : Shown) (request : Except Fault String) (env : ε) :
    ∃ outcome sent world, Dialogue provider sent ∧ ∀ past : Account,
      consultOnce b.traced provider schema given request (env, past) =
        (outcome, world, past ++ sent) := by
  cases request with
  | error e => exact ⟨.error e, [], env, .silent, fun past => by simp [consultOnce]⟩
  | ok text =>
    rcases hask : b.chat provider [.user text] reshapePrompt env with ⟨reply, env₁⟩
    have hasked := Backend.chat_traced hask
    cases reply with
    | error e =>
      exact ⟨.error e, _, env₁, .asked text (.error e),
        fun past => by simp [consultOnce, hasked]⟩
    | ok response =>
      by_cases hnull : response = .null
      · exact ⟨.error .emptyResult, _, env₁, .asked text (.ok response),
          fun past => by simp [consultOnce, hasked, hnull]⟩
      · obtain ⟨outcome, sent, world, hdialogue, hagain⟩ :=
          exists_correction b provider schema given text response env₁
        exact ⟨outcome, _, world, hdialogue,
          fun past => by simp [consultOnce, hasked, hnull, hagain]⟩

theorem exists_dialogue_consult (b : Backend ε) (provider v : Value) (schema : Schema) (env : ε) :
    ∃ outcome sent world, Dialogue provider sent ∧ ∀ past : Account,
      consult b.traced provider v schema (env, past) = (outcome, world, past ++ sent) := by
  unfold consult
  cases shown v schema with
  | error e => exact ⟨.error e, [], env, .silent, fun past => by simp⟩
  | ok given => exact exists_dialogue_consultOnce b provider schema given _ env

/-! ## Formatting -/

structure Shares (s t : Session (ε × Account)) : Prop where
  providers : t.chain.providers = s.chain.providers
  formatKey : t.chain.formatKey = s.chain.formatKey
  world : t.env.1 = s.env.1

theorem Shares.refl (s : Session (ε × Account)) : Shares s s := ⟨rfl, rfl, rfl⟩

/-- Whether an operation leaves the chains of some sessions as they are, and holds one dialogue with
a provider, which is the same for all of these sessions and comes to the same. -/
def HeldApart (provider : Value) (alike : Session (ε × Account) → Prop)
    (operation : Session (ε × Account) → Answer × Session (ε × Account)) : Prop :=
  ∃ outcome sent world, Dialogue provider sent ∧ ∀ t, alike t →
    (operation t).1 = some outcome ∧ (operation t).2.chain = t.chain ∧
      (operation t).2.env = (world, t.account ++ sent)

theorem heldApart_reshapeApart (b : Backend ε) (v : Value) (schema : Schema)
    (s : Session (ε × Account)) :
    HeldApart s.chain.formatKey (Shares s) (reshapeApart b.traced v schema) := by
  cases hstart : Chain.start s.chain.providers s.chain.formatKey with
  | error e =>
    refine ⟨.error e, [], s.env.1, .silent, fun t ht => ?_⟩
    simp [reshapeApart, ht.providers, ht.formatKey, hstart, account, ← ht.world]
  | ok c =>
    obtain ⟨outcome, sent, world, hdialogue, hconsult⟩ :=
      exists_dialogue_consult b s.chain.formatKey v schema s.env.1
    refine ⟨outcome, sent, world, hdialogue, fun t ht => ?_⟩
    have hcomes := comes_reshapeWith (b := b.traced) (settles_processPlain 2) hstart t.channel
      t.env v schema
    have hworld : t.env = (s.env.1, t.account) := Prod.ext ht.world rfl
    have hsent : consult b.traced s.chain.formatKey v schema t.env =
        (outcome, world, t.account ++ sent) := by rw [hworld, hconsult]
    rw [hsent] at hcomes
    simp only [reshapeApart, ht.providers, ht.formatKey, hstart]
    exact ⟨hcomes.1, trivial, hcomes.2⟩

theorem heldApart_formattedArtifact (b : Backend ε) (key : Value) (schema : Schema)
    (s : Session (ε × Account)) :
    HeldApart s.chain.formatKey
      (fun t => Shares s t ∧ t.chain.artifact key = s.chain.artifact key)
      (formattedArtifact b.traced key schema) := by
  cases hartifact : s.chain.artifact key with
  | error e =>
    refine ⟨.error e, [], s.env.1, .silent, ?_⟩
    rintro t ⟨ht, hkey⟩
    simp [formattedArtifact, hkey, account, ← ht.world]
  | ok v =>
    by_cases hnull : v = .null
    · refine ⟨missingArtifact key, [], s.env.1, .silent, ?_⟩
      rintro t ⟨ht, hkey⟩
      simp [formattedArtifact, hkey, hnull, account, ← ht.world]
    · obtain ⟨outcome, sent, world, hdialogue, hsame⟩ := heldApart_reshapeApart b v schema s
      refine ⟨outcome, sent, world, hdialogue, ?_⟩
      rintro t ⟨ht, hkey⟩
      have hreshape : formattedArtifact b.traced key schema t =
          reshapeApart b.traced v schema t := by
        simp [formattedArtifact, hkey]
      rw [hreshape]
      exact hsame t ht

/-- Whether a session comes from another one by one dialogue with its formatting provider at most,
the one that has its last result reshaped, and remembers an answer if it is a value. -/
structure FormatsLast (b : Backend ε) (schema : Schema) (s : Session (ε × Account))
    (result : Answer × Session (ε × Account)) (sent : Account) : Prop where
  dialogue : Dialogue s.chain.formatKey sent
  account : result.2.account = s.account ++ sent
  chain : result.2.chain = s.chain ∨ ∃ w, result.1 = some (.ok w) ∧
    result.2.chain = { s.chain with result := w, formatted := true }
  same : sent ≠ [] → ∀ t, Shares s t →
    (reshapeApart b.traced s.chain.last schema t).2.account = t.account ++ sent

theorem exists_formatsLast (b : Backend ε) (schema : Schema) (count : Nat)
    (s : Session (ε × Account)) :
    ∃ sent, FormatsLast b schema s (formatLast b.traced schema count s) sent := by
  unfold formatLast
  split
  · split
    · exact ⟨[], .silent, (List.append_nil _).symm, .inl rfl, fun h => absurd rfl h⟩
    obtain ⟨outcome, sent, world, hdialogue, hsame⟩ :=
      heldApart_reshapeApart b s.chain.last schema s
    obtain ⟨hanswer, hchain, henv⟩ := hsame s (.refl s)
    have hsent : ∀ t, Shares s t →
        (reshapeApart b.traced s.chain.last schema t).2.account = t.account ++ sent :=
      fun t ht => congrArg Prod.snd (hsame t ht).2.2
    split
    · next w t heq =>
      rw [heq] at hchain henv
      refine ⟨sent, hdialogue, congrArg Prod.snd henv, .inr ⟨w, rfl, ?_⟩, fun _ => hsent⟩
      dsimp only at hchain ⊢
      rw [hchain]
    · next heq =>
      rw [heq] at hchain henv
      exact ⟨sent, hdialogue, congrArg Prod.snd henv, .inl hchain, fun _ => hsent⟩
  · exact ⟨[], .silent, (List.append_nil _).symm, .inl rfl, fun h => absurd rfl h⟩

theorem exists_formatsLast_process (b : Backend ε) (limit : Limit) (returnKey : Value)
    (schema : Schema) (s : Session (ε × Account))
    (hformatter : (walk b.traced limit.budget 0 s).2.2.chain.formatter = some schema) :
    ∃ sent, FormatsLast b schema (walk b.traced limit.budget 0 s).2.2
      (process b.traced limit returnKey s) sent := by
  rcases process_cases b.traced limit returnKey s with ⟨-, -, hprocess⟩ | ⟨-, -, hprocess⟩
  · refine ⟨[], .silent, ?_, .inl ?_, fun h => absurd rfl h⟩ <;> rw [hprocess]
    exact (List.append_nil _).symm
  · rw [hprocess, hformatter]
    exact exists_formatsLast b schema _ _

/-! ## The formatting provider -/

theorem formatKey_perform (c : Chain) (command : Command) :
    (c.perform command).2.1.formatKey = c.formatKey := by
  have hperforms := c.performs command
  generalize (c.perform command).2.1 = d at hperforms ⊢
  cases hperforms with
  | beside => rfl
  | append label step => rfl
  | system lines =>
    unfold Chain.system
    cases lines.joinInput <;> rfl
  | retry =>
    unfold Chain.retry
    cases undoLast c.queue.entries with
    | error e => rfl
    | ok undone => cases undone <;> rfl
  | format schema => rfl
  | retype index kind =>
    unfold Chain.retype
    cases Value.place "tuple" "tuple index" c.queue.length index <;> rfl

theorem formatKey_walk (b : Backend ε) (budget index : Nat) (s : Session ε) :
    (walk b budget index s).2.2.chain.formatKey = s.chain.formatKey := by
  refine walk_invariant (fun t => t.chain.formatKey = s.chain.formatKey) ?_ ?_
    budget index rfl
  · intro t i ht
    apply execute_invariant fun c => c.formatKey = s.chain.formatKey
    · exact fun c history artifacts active systemText hc => hc
    · exact ht
    · exact fun c f hf hc => hc
    · exact fun g hg hc => (formatKey_perform g.1.chain g.2).trans hc
  · exact fun t serial v ht => ht

theorem formatKey_process (b : Backend ε) (limit : Limit) (returnKey : Value) (s : Session ε) :
    (process b limit returnKey s).2.chain.formatKey = s.chain.formatKey := by
  obtain ⟨result, formatted, hchain⟩ := chain_process b limit returnKey s
  rw [hchain]
  exact formatKey_walk b limit.budget 0 s

theorem formatKey_make (b : Backend ε) (operation : Operation) (s : Session ε) :
    (operation.make b s).2.chain.formatKey = s.chain.formatKey := by
  cases operation with
  | move m =>
    cases m with
    | command command =>
      rw [Operation.make, chain_perform]
      exact formatKey_perform s.chain command
    | process limit returnKey => exact formatKey_process b limit returnKey s
  | formattedArtifact key schema =>
    simp only [Operation.make, formattedArtifact]
    split
    · rfl
    · rfl
    · rw [chain_reshapeApart]
  | reshape fuel v schema =>
    refine reshapeWith_invariant (fun t => t.chain.formatKey = s.chain.formatKey)
      ?_ ?_ v schema rfl
    · intro t command ht
      rw [chain_perform, formatKey_perform, ht]
    · exact fun t ht => (formatKey_process b _ _ t).trans ht

theorem formatKey_run (b : Backend ε) (program : Program) (s : Session ε) :
    (program.run b s).2.chain.formatKey = s.chain.formatKey := by
  induction program generalizing s with
  | stop => rfl
  | listen change next ih => exact ih { s with channel := change s.channel }
  | call operation next ih => exact (ih _ _ _).trans (formatKey_make b operation s)

theorem formatKey_start {providers : List Value} {active system formatKey : Value} {c : Chain}
    (h : Chain.start providers active system formatKey = .ok c) :
    c.formatKey = if !formatKey.isFalsy then formatKey
      else if Chain.fastKey ∈ providers then Chain.fastKey else active := by
  unfold Chain.start at h
  split at h
  · cases h
  · unfold Chain.unknownProvider at h
    split at h <;> cases h
  · cases h
    rfl

/-! ## Isolation -/

/-- **Formatting is isolated from its chain.** To have an artifact formatted leaves the chain as it
is, whatever comes of it, and so does formatting at the end of a run, but for the answer that is
remembered and for the flag.  All requests are those of one dialogue with the formatting provider,
which does not depend on what was said on the chain, on what is queued, on the provider in use or on
the system prompt.  This provider is the same at all times: the one that the chain was started with,
which is the fast one, or the first in use, unless another one is named. -/
theorem formatting_isolated (b : Backend ε) (s : Session (ε × Account)) (schema : Schema) :
    (∀ key, HeldApart s.chain.formatKey
      (fun t => Shares s t ∧ t.chain.artifact key = s.chain.artifact key)
      (formattedArtifact b.traced key schema)) ∧
    (∀ limit returnKey, (walk b.traced limit.budget 0 s).2.2.chain.formatter = some schema →
      (walk b.traced limit.budget 0 s).2.2.chain.formatKey = s.chain.formatKey ∧
        ∃ sent, FormatsLast b schema (walk b.traced limit.budget 0 s).2.2
          (process b.traced limit returnKey s) sent) ∧
    (∀ program : Program, (program.run b.traced s).2.chain.formatKey = s.chain.formatKey) ∧
    ∀ providers active system formatKey c,
      Chain.start providers active system formatKey = .ok c →
        c.formatKey = if !formatKey.isFalsy then formatKey
          else if Chain.fastKey ∈ providers then Chain.fastKey else active := by
  refine ⟨fun key => heldApart_formattedArtifact b key schema s, ?_,
    fun program => formatKey_run b.traced program s, fun _ _ _ _ _ => formatKey_start⟩
  intro limit returnKey hformatter
  exact ⟨formatKey_walk b.traced limit.budget 0 s,
    exists_formatsLast_process b limit returnKey schema s hformatter⟩

/-- The slow provider is in use, and was told something; the fast one is asked to format. -/
theorem formatting_isolated_fast :
    let slow : Value := .text "slow"
    let schema : Schema := .validation { kind := .text "any", parse := .ok }
    let c : Chain :=
      { providers := [slow, Chain.fastKey], active := slow, formatKey := Chain.fastKey,
        systemText := .text Chain.defaultSystem }
    let b := Backend.scripted.traced
    let start : Session (List Value × Account) :=
      { chain := c, env := ([.text "three", .text "3"], []) }
    let s := ((start.perform b (.prompt (.text "Count"))).2.perform b (.format schema)).2
    let t := (walk b 1 0 s).2.2
    Chain.start [slow, Chain.fastKey] slow = .ok c ∧ c.formatKey = Chain.fastKey ∧
      t.chain.formatter = some schema ∧
      (process b (.all 1) .null s).2.account.map (fun entry => entry.1.provider) =
        [slow, Chain.fastKey] ∧
      ∃ sent, Dialogue Chain.fastKey sent ∧
        (process b (.all 1) .null s).2.account = t.account ++ sent := by
  intro slow schema c b start s t
  have hstart : Chain.start [slow, Chain.fastKey] slow = .ok c := rfl
  have hformatter : t.chain.formatter = some schema := rfl
  have hproviders : (process b (.all 1) .null s).2.account.map (fun entry => entry.1.provider) =
      [slow, Chain.fastKey] := by decide +kernel
  obtain ⟨-, hprocess, -, hkey⟩ := formatting_isolated Backend.scripted s schema
  obtain ⟨hsame, sent, hformats⟩ := hprocess (.all 1) .null hformatter
  exact ⟨hstart, hkey _ _ _ _ _ hstart, hformatter, hproviders, sent, hformats.dialogue,
    hformats.account⟩

end Session

end PromptChain
