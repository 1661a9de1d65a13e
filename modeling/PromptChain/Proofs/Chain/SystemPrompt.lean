import PromptChain.Proofs.Chain.Conversation
import Mathlib.Logic.Relation
/-!
# The system prompt

Whoever sets a system prompt takes the old one out of the queue and puts the new one at its front.
So a queue has one system prompt at most, and a run comes to it before it sends anything.
-/

namespace PromptChain

namespace Rule

def any : Rule := fun _ _ => True

end Rule

def Command.setsSystem : Command → Bool
  | .system _ => true
  | _ => false

mutual

theorem Script.obeys_any : ∀ script : Script, script.Obeys Rule.any
  | .finish _ => by simp [Script.Obeys]
  | .call command next => by
    rw [Script.Obeys]
    exact ⟨trivial, command.obeys_any, fun reply => (next reply).obeys_any⟩

theorem Command.obeys_any : ∀ command : Command, command.Obeys Rule.any
  | .hook label shown run => by
    rw [Command.Obeys]
    exact fun runs => (run runs).obeys_any
  | .system _ | .prompt _ | .build _ | .insert .. | .use _ | .retry | .format _ | .incognito _
  | .recent .. | .artifact .. | .result _ | .historyLength | .clearHistory | .deleteHistory _
  | .useModel .. | .tune _ | .retype .. => by simp [Command.Obeys]

end

namespace Chain

/-! ## One system prompt at the front -/

/-- A single change of a chain, short of setting a system prompt: a command of its interface, what
the execution of a step does to an item of the kind of the step, the use of a pending system prompt,
and writes beside the queue.  A hook that runs the chain once more, or that shares it with others,
makes no other changes. -/
inductive Alters : Chain → Chain → Prop where
  | command (c : Chain) {command : Command} (hovert : ∀ index kind, command ≠ .retype index kind)
      (hsystem : command.setsSystem = false) : Alters c (c.perform command).2.1
  | touch (c : Chain) (serial : Nat) {step : Step} {f : Item → Item} (hf : Item.Touch step f)
      (hkind : ∀ i ∈ c.queue.entries, i.serial = serial → i.step.kind = step.kind) :
      Alters c (c.modifyItem serial f)
  | done (c : Chain) (serial : Nat) : Alters c (c.modifyItem serial Item.done)
  | use {c : Chain} {i : Item} {announced : String} (hi : i ∈ c.queue.entries)
      (hstep : i.step = .system announced) (hpending : i.executed = false) :
      Alters c { c with systemText := .text announced }
  | beside (c : Chain) (history : Journal Message) (artifacts : Table Value)
      (active last result : Value) (formatted : Bool) :
      Alters c { c with history, artifacts, active, last, result, formatted }

/-- The chains that come of a new one by changes in any order, in which system prompts are set, and
in use, at any time. -/
inductive Attainable : Chain → Prop where
  | start {providers : List Value} {active system formatKey : Value} {c : Chain}
      (hstart : start providers active system formatKey = .ok c) : Attainable c
  | alter {c d : Chain} (hc : Attainable c) (h : Alters c d) : Attainable d
  | system {c : Chain} (hc : Attainable c) (lines : Value) :
      Attainable (c.perform (.system lines)).2.1
  | use {c : Chain} (hc : Attainable c) (systemText : Value) : Attainable { c with systemText }

structure Sound (c : Chain) : Prop where
  opened : c.queue.incognito = false
  native : c.Obeys Rule.any True
  orderly : Orderly c.marks c.created

variable {c d : Chain}

theorem WellFormed.sound (h : c.WellFormed) : c.Sound where
  opened := h.opened
  native := fun i hi hwatched => (h.overt i hi hwatched).mono fun _ _ _ => trivial
  orderly := h.orderly

theorem Sound.steps (h : c.Sound) : ∀ i ∈ c.queue.entries, i.step.Native :=
  fun i hi => (h.native i hi (.inl trivial)).native

theorem Sound.edit (h : c.Sound) {command : Command}
    (hovert : ∀ index kind, command ≠ .retype index kind) :
    Edit c.marks c.created command (c.perform command).2.1.marks (c.perform command).2.1.created :=
  edit_perform h.opened h.steps hovert

theorem Sound.perform (h : c.Sound) {command : Command}
    (hovert : ∀ index kind, command ≠ .retype index kind) : (c.perform command).2.1.Sound where
  opened := (incognito_perform c command).trans h.opened
  native := h.native.perform command command.obeys_any hovert fun _ => trivial
  orderly := h.orderly.edit (h.edit hovert)

theorem Sound.alter (h : c.Sound) (halters : Alters c d) : d.Sound := by
  cases halters with
  | command hovert hsystem => exact h.perform hovert
  | touch serial hf hkind =>
    refine ⟨h.opened, h.native.modifyItem serial (fun i hi => (hf.executed i) ▸ hi)
      fun i hi => hf.obeys hi, ?_⟩
    rw [marks_modifyItem hf hkind]
    exact h.orderly
  | done serial =>
    refine ⟨h.opened, h.native.modifyItem serial (by simp [Item.done]) fun _ hi => hi, ?_⟩
    rw [marks_done]
    exact h.orderly.finish serial
  | use hi hstep hpending => exact ⟨h.opened, h.native, h.orderly⟩
  | beside history artifacts active last result formatted =>
    exact ⟨h.opened, h.native, h.orderly⟩

theorem Attainable.sound (h : c.Attainable) : c.Sound := by
  induction h with
  | start hstart =>
    obtain ⟨formatKey, rfl⟩ := Session.start_eq hstart
    exact ⟨rfl, fun i hi => absurd hi (by simp), (Session.wellFormed_start hstart).orderly⟩
  | alter _ halters ih => exact ih.alter halters
  | system _ lines ih => exact ih.perform (fun _ _ => nofun)
  | use _ systemText ih => exact ⟨ih.opened, ih.native, ih.orderly⟩

theorem Attainable.perform (h : c.Attainable) {command : Command}
    (hovert : ∀ index kind, command ≠ .retype index kind) :
    (c.perform command).2.1.Attainable := by
  cases command with
  | system lines => exact h.system lines
  | _ => exact h.alter (.command c hovert rfl)

theorem Sound.front (h : c.Sound) {k : Nat} {i : Item}
    (hk : c.queue.entries[k]? = some i) (hi : i.isSystem = true) : k = 0 := by
  cases k with
  | zero => rfl
  | succ k =>
    have hmem : i.mark ∈ c.marks.tail := by
      rw [marks, ← List.map_tail]
      refine List.mem_map_of_mem (List.mem_iff_getElem?.mpr ⟨k, ?_⟩)
      rw [List.getElem?_tail]
      exact hk
    rw [← Item.isSystem_mark, h.orderly.front _ hmem] at hi
    cases hi

end Chain

namespace Session

variable {ε : Type} {b : Backend ε}

theorem given_invariant (invariant : Session ε → Prop) {script : Script} {s : Session ε}
    (hs : invariant s)
    (step : ∀ g ∈ given b script s, invariant g.1 → invariant (g.1.perform b g.2).2) :
    ∀ g ∈ given b script s, invariant g.1 := by
  induction script generalizing s with
  | finish outcome => simp [given]
  | call command next ih =>
    intro g hg
    rcases List.mem_cons.mp hg with rfl | hg
    · exact hs
    · exact ih _ (step _ List.mem_cons_self hs)
        (fun g hg => step g (List.mem_cons_of_mem _ hg)) g hg

theorem orders_invariant (invariant : Session ε → Prop) {s : Session ε} {i : Item}
    (hrunning : Item.Touch i.step Item.running →
      invariant (s.modifyItem i.serial Item.running))
    (step : ∀ g ∈ orders b s i, invariant g.1 → invariant (g.1.perform b g.2).2) :
    ∀ g ∈ orders b s i, invariant g.1 := by
  cases hstep : i.step with
  | hook shown run runs last =>
    have horders :
        orders b s i = given b (run (runs + 1)) (s.modifyItem i.serial Item.running) := by
      simp only [orders, hstep]
    rw [horders] at step ⊢
    exact given_invariant invariant (hrunning (hstep ▸ .running shown run runs last)) step
  | _ => simp [orders, hstep]

variable {s t : Session ε}

theorem attainable_perform (h : s.chain.Attainable) {command : Command}
    (hovert : ∀ index kind, command ≠ .retype index kind) :
    (s.perform b command).2.chain.Attainable := by
  rw [chain_perform]
  exact h.perform hovert

theorem attainable_touch {c : Chain} {i : Item} {f : Item → Item} (h : c.Attainable)
    (hholds : c.Holds i.mark) (hf : Item.Touch i.step f) :
    (c.modifyItem i.serial f).Attainable :=
  h.alter (.touch c i.serial hf fun _ => hholds.kind)

theorem attainable_execute {i : Item} (hwf : s.chain.WellFormed)
    (hi : i ∈ s.chain.queue.entries) (hpending : i.executed = false)
    (h : s.chain.Attainable) : (s.execute b i).2.chain.Attainable := by
  refine (execute_holding (b := b) Chain.Attainable ?_ hwf hi hpending h ?_ ?_).2.2
  · exact fun c history artifacts active systemText hc =>
      (hc.alter (.beside c history artifacts active c.last c.result c.formatted)).use systemText
  · exact fun c f hf hholds hc => attainable_touch hc hholds hf
  · intro g hg _ _ hc
    obtain ⟨⟨next, hovert⟩, -⟩ := orders_obey (hwf.overt i hi (.inl trivial)) g hg
    exact hc.perform hovert

/-- The chain is attainable whenever a hook gives a command. -/
theorem attainable_orders {i : Item} (hwf : s.chain.WellFormed)
    (hi : i ∈ s.chain.queue.entries) (h : s.chain.Attainable) :
    ∀ g ∈ orders b s i, g.1.chain.Attainable := by
  apply orders_invariant fun t => t.chain.Attainable
  · exact attainable_touch h (hwf.holds hi)
  · intro g hg hc
    obtain ⟨⟨next, hovert⟩, -⟩ := orders_obey (hwf.overt i hi (.inl trivial)) g hg
    exact attainable_perform hc hovert

theorem attainable_complete (h : s.chain.Attainable) (serial : Nat) (v : Value) :
    (s.complete serial v).chain.Attainable :=
  (h.alter (.beside s.chain s.chain.history s.chain.artifacts s.chain.active
    (if v = .null then s.chain.last else v) s.chain.result s.chain.formatted)).alter
      (.done _ serial)

def Visit.Attainable (b : Backend ε) (v : Visit ε) : Prop :=
  v.before.chain.Attainable ∧ ∀ g ∈ v.orders b, g.1.chain.Attainable

theorem attainable_visit {index position : Nat} {i : Item} (hwf : s.chain.WellFormed)
    (h : s.chain.Attainable)
    (hnext : nextPending? s.chain.queue.entries index = some (position, i)) :
    Visit.Attainable b ⟨position, i, s⟩ ∧ (s.execute b i).2.chain.Attainable :=
  ⟨⟨h, attainable_orders hwf (mem_of_nextPending? hnext) h⟩,
    attainable_execute hwf (mem_of_nextPending? hnext) (pending_of_nextPending? hnext) h⟩

theorem attainable_walks {index last : Nat} {done : List (Visit ε)}
    (hwalks : Walks b index s done last t) (hwf : s.chain.WellFormed) (h : s.chain.Attainable) :
    t.chain.Attainable ∧ ∀ v ∈ done, v.Attainable b := by
  induction hwalks with
  | stay => exact ⟨h, by simp⟩
  | @step index position last s t u i v done hnext hrun rest ih =>
    obtain ⟨hvisit, ht⟩ := attainable_visit (b := b) hwf h hnext
    have htwf := wellFormed_execute (b := b) hwf (mem_of_nextPending? hnext)
      (pending_of_nextPending? hnext)
    rw [hrun] at ht htwf
    obtain ⟨hu, hdone⟩ := ih (wellFormed_complete htwf _ _) (attainable_complete ht i.serial v)
    exact ⟨hu, List.forall_mem_cons.mpr ⟨hvisit, hdone⟩⟩

theorem attainable_walk (hwf : s.chain.WellFormed) (h : s.chain.Attainable) (budget : Nat) :
    (walk b budget 0 s).2.2.chain.Attainable ∧ ∀ v ∈ visits b budget 0 s, v.Attainable b := by
  obtain ⟨done, last, t, hwalks, hends⟩ := walk_ends b budget 0 s
  obtain ⟨ht, hdone⟩ := attainable_walks hwalks hwf h
  have htwf := wellFormed_walks hwalks hwf
  generalize walk b budget 0 s = result, visits b budget 0 s = visited at hends
  cases hends with
  | finished => exact ⟨ht, hdone⟩
  | paused => exact ⟨ht, hdone⟩
  | @failed position i e u hnext hrun =>
    obtain ⟨hvisit, hu⟩ := attainable_visit (b := b) htwf ht hnext
    rw [hrun] at hu
    refine ⟨hu, fun v hv => ?_⟩
    rcases List.mem_append.mp hv with hv | hv
    · exact hdone v hv
    · exact List.mem_singleton.mp hv ▸ hvisit

theorem attainable_process (hwf : s.chain.WellFormed) (h : s.chain.Attainable) (limit : Limit)
    (returnKey : Value) : (process b limit returnKey s).2.chain.Attainable := by
  obtain ⟨result, formatted, hchain⟩ := chain_process b limit returnKey s
  have hwalked := (attainable_walk (b := b) hwf h limit.budget).1
  generalize (walk b limit.budget 0 s).2.2 = t at hchain hwalked
  rw [hchain]
  exact hwalked.alter (.beside t.chain t.chain.history t.chain.artifacts t.chain.active
    t.chain.last result formatted)

theorem wellFormed_make {move : Move} (hmove : move.Obeys Rule.overt) (hwf : s.chain.WellFormed) :
    (move.make b s).chain.WellFormed := by
  cases move with
  | process limit returnKey => exact wellFormed_process hwf b limit returnKey
  | command c =>
    obtain ⟨hovert, hhook, -⟩ : Rule.overt c _ ∧ c.Obeys Rule.overt ∧ _ := by
      simpa only [Move.Obeys, Script.answer, Script.Obeys] using hmove
    rw [Move.make, chain_perform]
    exact hwf.perform hovert hhook

theorem attainable_make {move : Move} (hmove : move.Obeys Rule.overt) (hwf : s.chain.WellFormed)
    (h : s.chain.Attainable) :
    (move.make b s).chain.Attainable ∧ ∀ v ∈ move.visits b s, v.Attainable b := by
  cases move with
  | process limit returnKey =>
    exact ⟨attainable_process hwf h limit returnKey, (attainable_walk hwf h limit.budget).2⟩
  | command c =>
    obtain ⟨hovert, -⟩ : Rule.overt c _ ∧ _ := by
      simpa only [Move.Obeys, Script.answer, Script.Obeys] using hmove
    exact ⟨attainable_perform h hovert, by simp [Move.visits]⟩

theorem attainable_play {moves : List Move} (hmoves : ∀ move ∈ moves, move.Obeys Rule.overt)
    (hwf : s.chain.WellFormed) (h : s.chain.Attainable) :
    (play b moves s).chain.Attainable ∧ (play b moves s).chain.WellFormed ∧
      ∀ v ∈ visited b moves s, v.Attainable b := by
  induction moves generalizing s with
  | nil => exact ⟨h, hwf, by simp [visited]⟩
  | cons move rest ih =>
    have hmove := hmoves move List.mem_cons_self
    obtain ⟨hmade, hvisits⟩ := attainable_make (b := b) hmove hwf h
    obtain ⟨hplayed, hplayedwf, hmore⟩ := ih
      (fun other hother => hmoves other (List.mem_cons_of_mem _ hother))
      (wellFormed_make hmove hwf) hmade
    refine ⟨hplayed, hplayedwf, fun v hv => ?_⟩
    rcases List.mem_append.mp hv with hv | hv
    · exact hvisits v hv
    · exact hmore v hv

end Session

/-! ## The system prompt in use -/

theorem Edit.systemsExecuted {marks marks' : List Mark} {created created' : Nat}
    {command : Command} (hedit : Edit marks created command marks' created')
    (hsystem : command.setsSystem = false)
    (h : ∀ m ∈ marks, m.isSystem = true → m.executed = true) :
    ∀ m ∈ marks', m.isSystem = true → m.executed = true := by
  cases hedit with
  | keep => exact h
  | append kind _ _ hkind =>
    intro m hm hkind'
    rcases List.mem_append.mp hm with hm | hm
    · exact h m hm hkind'
    · rw [List.mem_singleton.mp hm] at hkind'
      simp [Mark.isSystem, hkind] at hkind'
  | evict => cases hsystem
  | replace => cases hsystem
  | stuck => exact h
  | @undo before after m hmarks hm hafter =>
    subst hmarks
    intro n hn hkind
    simp only [List.mem_append, List.mem_cons] at hn
    rcases hn with hn | rfl | hn
    · exact h n (by simp [hn]) hkind
    · -- A system prompt cannot be retried.
      have hsystem' : m.kind = Step.systemKind := of_decide_eq_true hkind
      simp [Mark.isUndoable, hsystem', Step.systemKind, Step.promptKind, Step.hookKind] at hm
    · exact h n (by simp [hn]) hkind

namespace Chain

theorem systemText_perform (c : Chain) (command : Command) :
    (c.perform command).2.1.systemText = c.systemText := by
  have hperforms := c.performs command
  generalize (c.perform command).2.1 = d at hperforms ⊢
  cases hperforms with
  | beside => rfl
  | append label step => rfl
  | system lines =>
    unfold system
    cases lines.joinInput <;> rfl
  | retry =>
    unfold retry
    rcases undoLast c.queue.entries with _ | _ | _ <;> rfl
  | format schema => rfl
  | retype index kind =>
    unfold retype
    cases Value.place "tuple" "tuple index" c.queue.length index <;> rfl

structure Speaks (text : Value) (c : Chain) : Prop where
  active : c.systemText = text
  spent : ∀ m ∈ c.marks, m.isSystem = true → m.executed = true

/-- Whether a text is the system prompt of a chain by the time that a run sends something: it is so
already, or it is first in the queue and pending. -/
inductive Announces (text : Value) (c : Chain) : Prop where
  | active (h : c.Speaks text)
  | pending {i : Item} {rest : List Item} {announced : String}
      (hentries : c.queue.entries = i :: rest) (hstep : i.step = .system announced)
      (hpending : i.executed = false) (htext : text = .text announced)

/-- The chains that come of a chain by changes in any order before anyone sets a system prompt. -/
abbrev Later : Chain → Chain → Prop := Relation.ReflTransGen Alters

theorem spent_finish {marks : List Mark} (h : ∀ m ∈ marks, m.isSystem = true → m.executed = true)
    (serial : Nat) :
    ∀ m ∈ marks.map (Mark.finish serial), m.isSystem = true → m.executed = true := by
  intro m hm hsystem
  obtain ⟨n, hn, rfl⟩ := List.mem_map.mp hm
  unfold Mark.finish
  split
  · rfl
  · exact h n hn (by simpa using hsystem)

variable {text : Value} {c d : Chain} {command : Command}

theorem Speaks.not_system (h : c.Speaks text) {i : Item} (hi : i ∈ c.queue.entries)
    (hpending : i.executed = false) : i.isSystem = false := by
  cases hsystem : i.isSystem with
  | false => rfl
  | true =>
    have hexecuted : i.executed = true := h.spent i.mark (List.mem_map_of_mem hi) hsystem
    rw [hpending] at hexecuted
    cases hexecuted

theorem Speaks.perform (h : c.Speaks text) (hc : c.Sound)
    (hovert : ∀ index kind, command ≠ .retype index kind)
    (hsystem : command.setsSystem = false) : (c.perform command).2.1.Speaks text where
  active := (systemText_perform c command).trans h.active
  spent := (hc.edit hovert).systemsExecuted hsystem h.spent

theorem Speaks.alter (h : c.Speaks text) (hc : c.Sound) (halters : Alters c d) :
    d.Speaks text := by
  cases halters with
  | command hovert hsystem => exact h.perform hc hovert hsystem
  | touch serial hf hkind =>
    refine ⟨h.active, ?_⟩
    rw [marks_modifyItem hf hkind]
    exact h.spent
  | done serial =>
    refine ⟨h.active, ?_⟩
    rw [marks_done]
    exact spent_finish h.spent serial
  | use hi hstep hpending =>
    have hkind := h.not_system hi hpending
    simp [Item.isSystem, hstep, Step.kind] at hkind
  | beside history artifacts active last result formatted => exact ⟨h.active, h.spent⟩

theorem Speaks.later (h : c.Speaks text) (hc : c.Sound) (hlater : Later c d) :
    d.Speaks text ∧ d.Sound := by
  induction hlater with
  | refl => exact ⟨h, hc⟩
  | tail _ halters ih => exact ⟨ih.1.alter ih.2 halters, ih.2.alter halters⟩

theorem Announces.perform (h : c.Announces text) (hc : c.Sound)
    (hovert : ∀ index kind, command ≠ .retype index kind)
    (hsystem : command.setsSystem = false) : (c.perform command).2.1.Announces text := by
  cases h with
  | active h => exact .active (h.perform hc hovert hsystem)
  | @pending i rest announced hentries hstep hpending htext =>
    have hperforms := c.performs command
    generalize (c.perform command).2.1 = d at hperforms ⊢
    cases hperforms with
    | beside => exact .pending hentries hstep hpending htext
    | append label step =>
      have happended := entries_append hc.opened label step
      rw [hentries, List.cons_append] at happended
      exact .pending happended hstep hpending htext
    | system lines => cases hsystem
    | retry =>
      unfold retry
      rcases undoLast_spec hc.steps with ⟨hundo, -⟩ |
        ⟨before, j, k, after, hitems, hundone, hj, -, hundo⟩
      · rw [hundo]
        exact .pending hentries hstep hpending htext
      · rw [hundo]
        rw [hentries] at hitems
        cases before with
        | nil =>
          -- What was retried was executed, unlike the system prompt.
          obtain ⟨rfl, -⟩ := List.cons.inj hitems
          simp [Mark.isUndoable, Item.mark, hpending] at hj
        | cons first before =>
          obtain ⟨rfl, -⟩ := List.cons.inj hitems
          exact .pending rfl hstep hpending htext
    | format schema => exact .pending hentries hstep hpending htext
    | retype index kind => exact absurd rfl (hovert index kind)

theorem announces_system (hopen : c.queue.incognito = false) {lines : Value} {announced : String}
    (hjoin : lines.joinInput = .ok announced) :
    (c.perform (.system lines)).2.1.Announces (.text announced) := by
  have hentries : (c.perform (.system lines)).2.1.queue.entries =
      { serial := c.created, label := .text systemLabel, step := .system announced } ::
        c.dropSystem.1.queue.entries := by
    simp [perform, system, hjoin, prependSystem, dropSystem, Journal.filter, Journal.retain,
      Journal.unshift, hopen]
  exact .pending hentries rfl rfl rfl

theorem Announces.beside (h : c.Announces text) (result : Value) (formatted : Bool) :
    ({ c with result, formatted } : Chain).Announces text := by
  cases h with
  | active h => exact .active ⟨h.active, h.spent⟩
  | pending hentries hstep hpending htext => exact .pending hentries hstep hpending htext

end Chain

namespace Session

variable {ε : Type} {text : Value}

theorem systemText_execute {b : Backend ε} {s : Session ε} {i : Item}
    (hsystem : i.isSystem = false) (hnative : i.step.Native) :
    (s.execute b i).2.chain.systemText = s.chain.systemText := by
  obtain ⟨serial, label, executed, step, result⟩ := i
  cases step with
  | prompt p =>
    have hsent := sent_executePrompt b s serial p
    simp only [execute]
    generalize s.executePrompt b serial p = sent at hsent ⊢
    cases hsent with
    | unresolved => rfl
    | unanswered => rfl
    | @answered m response env hm hchat =>
      obtain ⟨artifacts, hkept, -⟩ := chain_keep (s := s.answer serial p m response env)
        (p.delivery m response).kept
      rw [hkept, chain_answer]
      rfl
  | hook shown run runs last =>
    have hran : (runScript b (run (runs + 1)) (s.modifyItem serial Item.running)).2.chain.systemText
        = s.chain.systemText := by
      apply runScript_invariant fun t => t.chain.systemText = s.chain.systemText
      · rfl
      · intro g _ hg
        rw [chain_perform, Chain.systemText_perform, hg]
    simp only [execute, executeHook]
    split
    · next heq =>
      rw [heq] at hran
      exact hran
    · next heq =>
      rw [heq] at hran
      exact hran
  | system announced => simp [Item.isSystem, Step.kind] at hsystem
  | use provider =>
    simp only [execute, activate]
    split <;> rfl
  | foreign kind inner => exact hnative.elim

def Uses (text : Value) (s t : Session (ε × Account)) : Prop :=
  ∃ sent, t.account = s.account ++ sent ∧ ∀ entry ∈ sent, entry.1.system = text

variable {b : Backend ε} {s t u : Session (ε × Account)}

theorem Uses.refl (text : Value) (s : Session (ε × Account)) : Uses text s s :=
  ⟨[], (List.append_nil _).symm, by simp⟩

theorem Uses.trans (hst : Uses text s t) (htu : Uses text t u) : Uses text s u := by
  obtain ⟨sent, ht, hsent⟩ := hst
  obtain ⟨more, hu, hmore⟩ := htu
  refine ⟨sent ++ more, by rw [hu, ht, List.append_assoc], fun entry hentry => ?_⟩
  rcases List.mem_append.mp hentry with hentry | hentry
  · exact hsent entry hentry
  · exact hmore entry hentry

def Visit.Quiet (b : Backend ε) (v : Visit ε) : Prop :=
  ∀ g ∈ v.orders b, g.2.setsSystem = false

instance (b : Backend ε) (v : Visit ε) : Decidable (v.Quiet b) :=
  inferInstanceAs (Decidable (∀ g ∈ v.orders b, g.2.setsSystem = false))

/-- Whether a text is the system prompt in use from each command of a visit's hook on, whatever
happens to the chain before anyone sets another. -/
def Visit.Keeps (text : Value) (b : Backend ε) (v : Visit ε) : Prop :=
  ∀ g ∈ v.orders b, ∀ c, Chain.Later g.1.chain c → c.systemText = text

theorem keeps_visit {b : Backend ε} {s : Session ε} {i : Item} (hwf : s.chain.WellFormed)
    (position : Nat) (hi : i ∈ s.chain.queue.entries) (h : s.chain.Speaks text)
    (hquiet : Visit.Quiet b ⟨position, i, s⟩) : Visit.Keeps text b ⟨position, i, s⟩ := by
  have horders : ∀ g ∈ orders b s i, g.1.chain.Speaks text ∧ g.1.chain.Sound := by
    apply orders_invariant fun t => t.chain.Speaks text ∧ t.chain.Sound
    · intro hf
      have halters : s.chain.Alters (s.chain.modifyItem i.serial Item.running) :=
        .touch s.chain i.serial hf fun _ => (hwf.holds hi).kind
      exact ⟨h.alter hwf.sound halters, hwf.sound.alter halters⟩
    · intro g hg ⟨hspeaks, hsound⟩
      obtain ⟨⟨next, hovert⟩, -⟩ := orders_obey (hwf.overt i hi (.inl trivial)) g hg
      rw [chain_perform]
      exact ⟨hspeaks.perform hsound hovert (hquiet g hg), hsound.perform hovert⟩
  intro g hg c hlater
  obtain ⟨hspeaks, hsound⟩ := horders g hg
  exact (hspeaks.later hsound hlater).1.active

theorem speaks_execute {i : Item} (hwf : s.chain.WellFormed) (position : Nat)
    (hi : i ∈ s.chain.queue.entries) (hpending : i.executed = false)
    (h : s.chain.Speaks text) (hquiet : Visit.Quiet b.traced ⟨position, i, s⟩) :
    (s.execute b.traced i).2.chain.Speaks text ∧ Uses text s (s.execute b.traced i).2 := by
  refine ⟨⟨?_, ?_⟩, ?_⟩
  · rw [systemText_execute (h.not_system hi hpending) (hwf.native i hi), h.active]
  · refine (execute_marks (b := b.traced)
      (fun marks _ => ∀ m ∈ marks, m.isSystem = true → m.executed = true) hwf hi hpending h.spent
      ?_).2.2
    exact fun g hg marks created _ _ hedit hspent => hedit.systemsExecuted (hquiet g hg) hspent
  · rw [← h.active]
    exact requests_execute b s i

theorem speaks_complete (h : s.chain.Speaks text) (serial : Nat) (v : Value) :
    (s.complete serial v).chain.Speaks text where
  active := h.active
  spent := by
    rw [marks_complete]
    exact Chain.spent_finish h.spent serial

theorem speaks_walk (hwf : s.chain.WellFormed) (h : s.chain.Speaks text) (budget index : Nat)
    (hquiet : ∀ v ∈ visits b.traced budget index s, v.Quiet b.traced) :
    (walk b.traced budget index s).2.2.chain.Speaks text ∧
      Uses text s (walk b.traced budget index s).2.2 ∧
      ∀ v ∈ visits b.traced budget index s, v.Keeps text b.traced := by
  -- With no system prompt pending anywhere, it does not matter where the walk is.
  induction budget generalizing index s with
  | zero =>
    rw [walk, visits]
    cases hnext : nextPending? s.chain.queue.entries index <;> exact ⟨h, .refl text s, by simp⟩
  | succ budget ih =>
    rw [visits] at hquiet ⊢
    rw [walk]
    cases hnext : nextPending? s.chain.queue.entries index with
    | none => exact ⟨h, .refl text s, by simp⟩
    | some found =>
      obtain ⟨position, i⟩ := found
      rw [hnext] at hquiet
      have hi := mem_of_nextPending? hnext
      have hpending := pending_of_nextPending? hnext
      have hvisit := hquiet _ List.mem_cons_self
      have hkeeps := keeps_visit hwf position hi h hvisit
      obtain ⟨hspeaks, huses⟩ := speaks_execute hwf position hi hpending h hvisit
      have htwf := wellFormed_execute (b := b.traced) hwf hi hpending
      cases hrun : s.execute b.traced i with
      | mk outcome t =>
        simp only [hrun] at hspeaks huses htwf hquiet ⊢
        cases outcome with
        | error e => exact ⟨hspeaks, huses, by simpa using hkeeps⟩
        | ok v =>
          obtain ⟨hwalked, hmore, hrest⟩ := ih (wellFormed_complete htwf i.serial v)
            (speaks_complete hspeaks i.serial v) (position + 1)
            fun w hw => hquiet w (List.mem_cons_of_mem _ hw)
          exact ⟨hwalked, huses.trans hmore, List.forall_mem_cons.mpr ⟨hkeeps, hrest⟩⟩

/-- A pending system prompt at the front is in use, and no other is pending, once it was executed. -/
theorem speaks_front (hwf : s.chain.WellFormed) {i : Item} {rest : List Item}
    (hentries : s.chain.queue.entries = i :: rest) :
    (complete { s with chain := { s.chain with systemText := text } } i.serial
      .null).chain.Speaks text := by
  refine ⟨rfl, ?_⟩
  rw [marks_complete]
  have hmarks : s.chain.marks = i.mark :: rest.map Item.mark := by
    rw [Chain.marks, hentries, List.map_cons]
  intro m hm hsystem
  obtain ⟨n, hn, rfl⟩ := List.mem_map.mp hm
  have hn' : n ∈ i.mark :: rest.map Item.mark := hmarks ▸ hn
  rcases List.mem_cons.mp hn' with rfl | hrest
  · simp [Mark.finish, Mark.done, Item.mark]
  · have hfront := hwf.orderly.front n (by rw [hmarks]; exact hrest)
    rw [Mark.isSystem_finish, hfront] at hsystem
    cases hsystem

/-- A run from the front of the queue first comes to the system prompt that is pending there. -/
theorem announces_walk (hwf : s.chain.WellFormed) (h : s.chain.Announces text) (budget : Nat)
    (hquiet : ∀ v ∈ visits b.traced budget 0 s, v.Quiet b.traced) :
    (walk b.traced budget 0 s).2.2.chain.Announces text ∧
      Uses text s (walk b.traced budget 0 s).2.2 ∧
      ∀ v ∈ visits b.traced budget 0 s, v.Keeps text b.traced := by
  cases h with
  | active h =>
    obtain ⟨hspeaks, hmore⟩ := speaks_walk hwf h budget 0 hquiet
    exact ⟨.active hspeaks, hmore⟩
  | @pending i rest announced hentries hstep hpending htext =>
    -- The walk starts at the front, so that no request comes before the system prompt.
    have hnext : nextPending? s.chain.queue.entries 0 = some (0, i) := by
      simp [hentries, nextPending?, hpending]
    cases budget with
    | zero =>
      rw [walk, visits, hnext]
      exact ⟨.pending hentries hstep hpending htext, .refl text s, by simp⟩
    | succ budget =>
      have hi := mem_of_nextPending? hnext
      have hrun : s.execute b.traced i =
          (.ok .null, { s with chain := { s.chain with systemText := text } }) := by
        simp only [execute, hstep, setSystem, htext]
      have htwf := wellFormed_execute (b := b.traced) hwf hi hpending
      have hkeeps : Visit.Keeps text b.traced ⟨0, i, s⟩ := by
        simp [Visit.Keeps, Visit.orders, orders, hstep]
      rw [visits, hnext] at hquiet ⊢
      rw [walk, hnext]
      simp only [hrun] at hquiet htwf ⊢
      obtain ⟨hwalked, huses, hrest⟩ := speaks_walk (wellFormed_complete htwf i.serial .null)
        (speaks_front hwf hentries) budget 1 fun v hv => hquiet v (List.mem_cons_of_mem _ hv)
      exact ⟨.active hwalked, huses, List.forall_mem_cons.mpr ⟨hkeeps, hrest⟩⟩

theorem announces_process (hwf : s.chain.WellFormed) (h : s.chain.Announces text) (limit : Limit)
    (returnKey : Value) (hquiet : ∀ v ∈ visits b.traced limit.budget 0 s, v.Quiet b.traced) :
    (process b.traced limit returnKey s).2.chain.Announces text := by
  obtain ⟨result, formatted, hchain⟩ := chain_process b.traced limit returnKey s
  rw [hchain]
  exact (announces_walk hwf h limit.budget hquiet).1.beside result formatted

/-- The text of the latest system prompt that was set by the user, or what a chain began with.  There
is none if what was given for the latest one is refused. -/
def Move.announced (latest : Option Value) : Move → Option Value
  | .command (.system lines) =>
    match lines.joinInput with
    | .error _ => none
    | .ok announced => some (.text announced)
  | _ => latest

theorem announces_make {move : Move} (hmove : move.Obeys Rule.overt) (hwf : s.chain.WellFormed)
    {latest : Option Value} (h : ∀ text, latest = some text → s.chain.Announces text)
    (hquiet : ∀ v ∈ move.visits b.traced s, v.Quiet b.traced) (text : Value)
    (htext : move.announced latest = some text) :
    (move.make b.traced s).chain.Announces text := by
  cases move with
  | process limit returnKey => exact announces_process hwf (h text htext) limit returnKey hquiet
  | command c =>
    obtain ⟨hovert, -⟩ : Rule.overt c _ ∧ _ := by
      simpa only [Move.Obeys, Script.answer, Script.Obeys] using hmove
    rw [Move.make, chain_perform]
    cases c with
    | system lines =>
      -- What the chain announced before is evicted, so nothing needs to be known of it.
      cases hjoin : lines.joinInput with
      | error e => simp [Move.announced, hjoin] at htext
      | ok announced =>
        simp only [Move.announced, hjoin, Option.some.injEq] at htext
        exact htext ▸ Chain.announces_system hwf.opened hjoin
    | _ => exact (h text htext).perform hwf.sound hovert rfl

theorem announces_play {moves : List Move} (hmoves : ∀ move ∈ moves, move.Obeys Rule.overt)
    (hwf : s.chain.WellFormed) {latest : Option Value}
    (h : ∀ text, latest = some text → s.chain.Announces text)
    (hquiet : ∀ v ∈ visited b.traced moves s, v.Quiet b.traced) (text : Value)
    (htext : moves.foldl Move.announced latest = some text) :
    (play b.traced moves s).chain.Announces text := by
  induction moves generalizing latest s with
  | nil => exact h text htext
  | cons move rest ih =>
    have hmove := hmoves move List.mem_cons_self
    rw [visited] at hquiet
    refine ih (fun other hother => hmoves other (List.mem_cons_of_mem _ hother))
      (wellFormed_make hmove hwf) (announces_make hmove hwf h fun v hv =>
        hquiet v (List.mem_append_left _ hv)) (fun v hv => hquiet v (List.mem_append_right _ hv))
      htext

/-- **The system prompt comes first and is in use.** Whatever users and hooks do with a chain, its
queue has no system prompt but at the front, at any time.  In a run, all requests for the prompts of
the chain use the system prompt that the user set last before it, or the one that the chain began
with, as long as hooks set none: wherever among the other commands it was set, however the moves
before were limited, and whatever failed or was retried.  A hook that runs the chain itself changes
nothing in this.  Only a formatter makes other requests. -/
theorem system_first_and_used {providers : List Value} {active system formatKey : Value}
    {s : Session (ε × Account)}
    (hstart : Chain.start providers active system formatKey = .ok s.chain) (b : Backend ε)
    {moves : List Move} (hmoves : ∀ move ∈ moves, move.Obeys Rule.overt) :
    let t := play b.traced moves s
    (∀ c : Chain, c.Attainable → ∀ k i, c.queue.entries[k]? = some i → i.isSystem = true → k = 0) ∧
    (t.chain.Attainable ∧ ∀ v ∈ visited b.traced moves s, v.Attainable b.traced) ∧
    ∀ (limit : Limit) (returnKey text : Value),
      moves.foldl Move.announced (some system) = some text →
      (∀ v ∈ visited b.traced moves s, v.Quiet b.traced) →
      (∀ v ∈ visits b.traced limit.budget 0 t, v.Quiet b.traced) →
      (∃ own others,
        (walk b.traced limit.budget 0 t).2.2.account = t.account ++ own ∧
        (process b.traced limit returnKey t).2.account = t.account ++ own ++ others ∧
        ((process b.traced limit returnKey t).2.chain.formatter = none → others = []) ∧
        ∀ entry ∈ own, entry.1.system = text) ∧
      ∀ v ∈ visits b.traced limit.budget 0 t, v.Keeps text b.traced := by
  intro t
  have hnew := wellFormed_start hstart
  obtain ⟨ht, htwf, hvisited⟩ := attainable_play (b := b.traced) hmoves hnew (.start hstart)
  refine ⟨fun c hc k i hk hi => hc.sound.front hk hi, ⟨ht, hvisited⟩, ?_⟩
  intro limit returnKey text htext hquiet hcalm
  have hbegun : s.chain.Speaks system := by
    obtain ⟨formatKey, hchain⟩ := start_eq hstart
    rw [hchain]
    exact ⟨rfl, by simp [Chain.marks]⟩
  have hannounced : t.chain.Announces text :=
    announces_play hmoves hnew (fun text hsome => Option.some.inj hsome ▸ .active hbegun)
      hquiet text htext
  obtain ⟨-, ⟨own, hown, hused⟩, hkeeps⟩ := announces_walk htwf hannounced limit.budget hcalm
  obtain ⟨⟨others, hothers⟩, hplain⟩ := account_process b t limit returnKey
  refine ⟨⟨own, others, hown, hown ▸ hothers.symm, fun hnone => ?_, hused⟩, hkeeps⟩
  obtain ⟨result, formatted, hchain⟩ := chain_process b.traced limit returnKey t
  rw [hchain] at hnone
  simpa [hplain hnone] using hothers

/-- The second system prompt is set behind a prompt that is to be sent again and behind a hook that
appends another prompt; it has a run of its own. -/
def instructions : List Move :=
  [.command (.system (.text "Be kind")), .command (.prompt (.text "Hello")),
    .process (.steps 2) .null, .command .retry,
    .command (.hook (.text "drafting") "drafting" drafting),
    .command (.system (.text "Be terse")), .process (.steps 1) .null]

/-- Both prompts are sent with the system prompt that was set after them. -/
theorem system_first_and_used_instructions :
    let b := Backend.scripted
    let s : Session (List Value × Account) :=
      { chain := (scripted []).chain, env := ([.text "one", .text "two", .text "three"], []) }
    (play b.traced instructions s).account.map (fun entry => entry.1.system) = [.text "Be kind"] ∧
    ∃ own, (process b.traced (.all 3) .null (play b.traced instructions s)).2.account =
        (play b.traced instructions s).account ++ own ∧
      own.length = 2 ∧ ∀ entry ∈ own, entry.1.system = .text "Be terse" := by
  intro b s
  have hstart : Chain.start [Chain.fastKey] Chain.fastKey = .ok s.chain := by rfl
  have hmoves : ∀ move ∈ instructions, move.Obeys Rule.overt := by
    simp [instructions, drafting, Move.Obeys, Script.answer, Script.Obeys, Command.Obeys,
      Rule.overt]
  have hbefore : (play b.traced instructions s).account.map (fun entry => entry.1.system) =
      [.text "Be kind"] := by decide +kernel
  have hplain : (process b.traced (.all 3) .null
      (play b.traced instructions s)).2.chain.formatter.isNone = true := by decide +kernel
  have hlength : (process b.traced (.all 3) .null
      (play b.traced instructions s)).2.account.length = 3 := by decide +kernel
  have hquiet : ∀ v ∈ visited b.traced instructions s, v.Quiet b.traced := by decide +kernel
  have hcalm : ∀ v ∈ visits b.traced 3 0 (play b.traced instructions s), v.Quiet b.traced := by
    decide +kernel
  have hused := (system_first_and_used hstart b hmoves).2.2 (.all 3) .null (.text "Be terse") rfl
    hquiet hcalm
  generalize play b.traced instructions s = t at hbefore hplain hlength hused ⊢
  obtain ⟨⟨own, others, -, haccount, hothers, hown⟩, -⟩ := hused
  rw [hothers (Option.isNone_iff_eq_none.mp hplain), List.append_nil] at haccount
  refine ⟨hbefore, own, haccount, ?_, hown⟩
  have hone : t.account.length = 1 := by
    rw [← List.length_map, hbefore]
    rfl
  rw [haccount, List.length_append, hone] at hlength
  omega

end Session

end PromptChain
