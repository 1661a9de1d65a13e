import PromptChain.Proofs.Chain.Reachable
import PromptChain.Proofs.Chain.Sending
/-!
# The flags of prompts

A prompt says of itself whether it was sent, and its item whether it was executed.  Executing an
item sets both flags and retrying it takes both back, so that they agree whenever a session is at
rest, after a step that failed as well.
-/

namespace PromptChain

def Prompt.Keepable (p : Prompt) : Prop := ∀ key, p.saveKey? = some key → key.unkeyed? = none

/-- Whether an item counts as executed exactly if its prompt does, if it has one. -/
def Item.Matched (i : Item) : Prop :=
  ∀ p, i.step = .prompt p → p.Keepable → i.executed = p.executed

def Chain.Matched (c : Chain) : Prop := ∀ i ∈ c.queue.entries, i.Matched

theorem Item.Fresh.matched {i : Item} (h : i.Fresh) : i.Matched := by
  intro p hp _
  have hstep := h.step
  rw [hp] at hstep
  rw [h.pending, hstep.1]

theorem Item.Undone.matched {i j : Item} (h : i.Undone j) : j.Matched := by
  intro p hp _
  cases h with
  | prompt q hstep =>
    cases hp
    rfl
  | hook shown run runs result hstep => cases hp

theorem Item.matched_of_ne {i : Item} (h : ∀ p, i.step ≠ .prompt p) : i.Matched :=
  fun p hp => absurd hp (h p)

theorem Item.Touch.matched {step : Step} {f : Item → Item} (hf : Item.Touch step f)
    (hstep : ∀ p, step ≠ .prompt p) {i : Item} (hi : i.Matched) : (f i).Matched := by
  cases hf with
  | answered p q => exact absurd rfl (hstep p)
  | running =>
    unfold Item.running
    split
    · exact Item.matched_of_ne (by simp)
    · exact hi
  | finished =>
    unfold Item.finished
    split
    · exact Item.matched_of_ne (by simp)
    · exact Item.matched_of_ne (by simp)
    · exact hi

theorem Step.Native.eq_prompt {step : Step} (h : step.Native) (hkind : step.kind = promptKind) :
    ∃ p, step = .prompt p := by
  cases step with
  | prompt p => exact ⟨p, rfl⟩
  | foreign kind inner => exact h.elim
  | _ => simp [kind, promptKind, systemKind, useKind, hookKind] at hkind

namespace Chain

theorem Matched.perform {c : Chain} (h : c.Matched) (hwf : c.WellFormed) {command : Command}
    (hovert : ∀ index kind, command ≠ .retype index kind) :
    (c.perform command).2.1.Matched := by
  have hperforms := c.performs command
  generalize (c.perform command).2.1 = d at hperforms ⊢
  cases hperforms with
  | beside => exact h
  | append label step _ _ _ _ hfresh =>
    intro i hi
    rw [entries_append hwf.opened] at hi
    rcases List.mem_append.mp hi with hi | hi
    · exact h i hi
    · rw [List.mem_singleton.mp hi]
      exact Item.Fresh.matched ⟨rfl, hfresh⟩
  | system lines =>
    have hdrop : c.dropSystem.1.Matched := fun i hi => h i (List.mem_filter.mp hi).1
    unfold system
    cases lines.joinInput with
    | error e => exact hdrop
    | ok text =>
      intro i hi
      simp only [prependSystem, Journal.unshift] at hi
      split at hi
      · exact hdrop i hi
      · rcases List.mem_append.mp hi with hi | hi
        · rw [List.mem_singleton.mp hi]
          exact Item.Fresh.matched ⟨rfl, trivial⟩
        · exact hdrop i hi
  | retry =>
    unfold Chain.retry
    rcases undoLast_spec hwf.native with ⟨hundo, -⟩ |
      ⟨before, i, j, after, hitems, hundone, -, -, hundo⟩
    · rw [hundo]
      exact h
    · rw [hundo]
      intro k hk
      simp only [List.mem_append, List.mem_cons] at hk
      rcases hk with hk | rfl | hk
      · exact h k (hitems ▸ by simp [hk])
      · exact hundone.matched
      · exact h k (hitems ▸ by simp [hk])
  | format schema => exact h
  | retype index kind => exact absurd rfl (hovert index kind)

theorem Matched.modifyItem {c : Chain} (h : c.Matched) {serial : Nat} {f : Item → Item}
    (hf : ∀ i ∈ c.queue.entries, i.serial = serial → (f i).Matched) :
    (c.modifyItem serial f).Matched := by
  intro j hj
  obtain ⟨i, hi, rfl⟩ := List.mem_map.mp hj
  by_cases hserial : i.serial = serial
  · rw [if_pos hserial]
    exact hf i hi hserial
  · rw [if_neg hserial]
    exact h i hi

end Chain

namespace Session

variable {ε : Type} {b : Backend ε}

theorem keep_of_keepable {s : Session ε} {p : Prompt} (h : p.Keepable) (m : Message)
    (response : Value) : (s.keep (p.delivery m response).kept).1 = .ok () := by
  cases hkey : p.saveKey? with
  | none => simp [Prompt.delivery, hkey, keep]
  | some key =>
    simp only [Prompt.delivery, hkey, Option.map_some, keep, Chain.insert, Table.set, Value.asKey,
      h key hkey]
    rfl

theorem matched_executePrompt {s : Session ε} {serial : Nat} {p : Prompt} (h : s.chain.Matched) :
    (∀ e t, s.executePrompt b serial p = (.error e, t) → t.chain.Matched) ∧
      ∀ v t, s.executePrompt b serial p = (.ok v, t) → (t.complete serial v).chain.Matched := by
  have hsent := sent_executePrompt b s serial p
  generalize s.executePrompt b serial p = result at hsent
  cases hsent with
  | unresolved => exact ⟨fun e t heq => by cases heq; exact h, by simp⟩
  | unanswered => exact ⟨fun e t heq => by cases heq; exact h, by simp⟩
  | @answered m response env hm hchat =>
    have hqueue : ((s.answer serial p m response env).keep
        (p.delivery m response).kept).2.chain.queue =
        (s.chain.modifyItem serial (Item.answered (p.answered response))).queue := by
      obtain ⟨artifacts, hchain, -⟩ :=
        chain_keep (s := s.answer serial p m response env) (p.delivery m response).kept
      rw [hchain, chain_answer]
    constructor
    · intro e t heq
      obtain ⟨hkept, rfl⟩ := Prod.mk.inj heq
      -- The prompt counts as executed and its item does not, as its key cannot be one.
      have hrefused : ¬p.Keepable := fun hkeepable => by
        have hclash := keep_of_keepable (s := s.answer serial p m response env) hkeepable m response
        rw [hclash] at hkept
        cases hkept
      have hmatched : (s.chain.modifyItem serial (Item.answered (p.answered response))).Matched :=
        h.modifyItem fun i _ _ q hq hkeepable => by
          cases hq
          exact absurd hkeepable hrefused
      intro i hi
      rw [hqueue] at hi
      exact hmatched i hi
    · intro v t heq
      obtain ⟨-, rfl⟩ := Prod.mk.inj heq
      intro j hj
      obtain ⟨k, hk, rfl⟩ := List.mem_map.mp hj
      rw [hqueue] at hk
      obtain ⟨i, hi, rfl⟩ := List.mem_map.mp hk
      by_cases hserial : i.serial = serial
      · simp only [hserial, if_true, Item.answered, Item.done]
        intro q hq _
        cases hq
        rfl
      · simp only [hserial, if_false]
        exact h i hi

theorem matched_execute {s : Session ε} {i : Item} (hwf : s.chain.WellFormed)
    (hi : i ∈ s.chain.queue.entries) (hpending : i.executed = false) (h : s.chain.Matched) :
    (∀ e t, s.execute b i = (.error e, t) → t.chain.Matched) ∧
      ∀ v t, s.execute b i = (.ok v, t) → (t.complete i.serial v).chain.Matched := by
  by_cases hprompt : ∃ p, i.step = .prompt p
  · obtain ⟨p, hp⟩ := hprompt
    rw [execute, hp]
    exact matched_executePrompt h
  · have hstep : ∀ p, i.step ≠ .prompt p := fun p hp => hprompt ⟨p, hp⟩
    obtain ⟨-, hholds, hmatched⟩ := execute_holding (b := b) Chain.Matched
      (fun c history artifacts active systemText hc => hc) hwf hi hpending h
      (fun c f hf _ hc => hc.modifyItem fun j hj _ => hf.matched hstep (hc j hj))
      (fun g hg hc _ hinv => by
        obtain ⟨⟨next, hovert⟩, -⟩ := orders_obey (hwf.overt i hi (.inl trivial)) g hg
        exact hinv.perform hc hovert)
    constructor
    · intro e t heq
      rw [heq] at hmatched
      exact hmatched
    · intro v t heq
      rw [heq] at hmatched hholds
      refine Chain.Matched.modifyItem (c := { t.chain with last := _ }) hmatched
        fun j hj hserial => Item.matched_of_ne fun p hp => ?_
      have hmark := hholds.unique j.mark (List.mem_map_of_mem hj) hserial
      have hkind : i.step.kind = Step.promptKind := by
        rw [← show j.step.kind = i.step.kind from congrArg Mark.kind hmark,
          show j.step = .prompt p from hp]
        rfl
      exact hprompt ((hwf.native i hi).eq_prompt hkind)

theorem matched_walks {index last : Nat} {s t : Session ε} {done : List (Visit ε)}
    (h : Walks b index s done last t) (hwf : s.chain.WellFormed) (hs : s.chain.Matched) :
    t.chain.Matched := by
  induction h with
  | stay => exact hs
  | @step index position last s t u i v done hnext hrun rest ih =>
    have hi := mem_of_nextPending? hnext
    have hpending := pending_of_nextPending? hnext
    have ht := wellFormed_execute (b := b) hwf hi hpending
    rw [hrun] at ht
    exact ih (wellFormed_complete ht _ _)
      ((matched_execute hwf hi hpending hs).2 v t hrun)

theorem matched_process {s : Session ε} (hwf : s.chain.WellFormed) (hs : s.chain.Matched)
    (b : Backend ε) (limit : Limit) (returnKey : Value) :
    (process b limit returnKey s).2.chain.Matched := by
  obtain ⟨done, last, t, hwalks, hends⟩ := walk_ends b limit.budget 0 s
  have htwf := wellFormed_walks hwalks hwf
  have ht := matched_walks hwalks hwf hs
  obtain ⟨result, formatted, hchain⟩ := chain_process b limit returnKey s
  rw [hchain]
  generalize walk b limit.budget 0 s = stopped, visits b limit.budget 0 s = visited at hends
  cases hends with
  | finished => exact ht
  | paused => exact ht
  | failed hnext hrun =>
    exact (matched_execute htwf (mem_of_nextPending? hnext) (pending_of_nextPending? hnext) ht).1
      _ _ hrun

theorem Reachable.matched {s : Session ε} (h : Reachable s) : s.chain.Matched := by
  induction h with
  | start hstart =>
    obtain ⟨formatKey, rfl⟩ := start_eq hstart
    simp [Chain.Matched]
  | perform hs b hovert hcommand ih =>
    rw [chain_perform]
    exact ih.perform hs.wellFormed hovert
  | process hs b limit returnKey ih => exact matched_process hs.wellFormed ih b limit returnKey
  | elsewhere _ channel env ih => exact ih

end Session

end PromptChain
