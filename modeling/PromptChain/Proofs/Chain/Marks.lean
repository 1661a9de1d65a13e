import PromptChain.Proofs.Chain.Rules
/-!
# Marks

What matters of a queue for the order in which it is executed are the serial
numbers, the flags, and the kinds of its items.  A command edits the list of
these marks in one of a few ways; sending a prompt or running a hook changes no
mark but through commands.
-/

namespace PromptChain

/-- What tells whether and in which order an item is executed. -/
structure Mark where
  serial : Nat
  executed : Bool
  kind : Value
  deriving DecidableEq

namespace Mark

def isSystem (m : Mark) : Bool := m.kind = Step.systemKind

def isUndoable (m : Mark) : Bool :=
  m.executed && (decide (m.kind = Step.promptKind) || decide (m.kind = Step.hookKind))

def pending (m : Mark) : Mark := { m with executed := false }

def done (m : Mark) : Mark := { m with executed := true }

end Mark

def Item.mark (i : Item) : Mark := ⟨i.serial, i.executed, i.step.kind⟩

def Chain.marks (c : Chain) : List Mark := c.queue.entries.map Item.mark

/-- Whether a step is what it was queued as. -/
def Step.Native : Step → Prop
  | .foreign .. => False
  | _ => True

theorem Step.Obeys.native {rule : Rule} {step : Step} (h : step.Obeys rule) : step.Native := by
  cases step with
  | foreign kind inner => exact h
  | _ => trivial

/-- Whether a step is as it is queued: a prompt that was not sent, a hook that did not run. -/
def Step.Fresh : Step → Prop
  | .prompt p => p.executed = false ∧ p.response = .null
  | .hook _ _ runs result => runs = 0 ∧ result = .null
  | .foreign .. => False
  | _ => True

structure Item.Fresh (i : Item) : Prop where
  pending : i.executed = false
  step : i.step.Fresh

theorem Item.isSystem_mark (i : Item) : i.mark.isSystem = i.isSystem := rfl

/-- How a command may change the marks of a queue and the number of items created. -/
inductive Edit (marks : List Mark) (created : Nat) : Command → List Mark → Nat → Prop where
  | keep {command : Command} (hsystem : ∀ lines, command ≠ .system lines)
      (hretry : command ≠ .retry) : Edit marks created command marks created
  | append {command : Command} (kind : Value) (hsystem : ∀ lines, command ≠ .system lines)
      (hretry : command ≠ .retry) (hkind : kind ≠ Step.systemKind) :
      Edit marks created command (marks ++ [⟨created, false, kind⟩]) (created + 1)
  /-- The lines make no text: the old system prompts are gone, and there is no new one. -/
  | evict {lines : Value} {e : Fault} (hjoin : lines.joinInput = .error e) :
      Edit marks created (.system lines) (marks.filter fun m => !m.isSystem) created
  | replace {lines : Value} {text : String} (hjoin : lines.joinInput = .ok text) :
      Edit marks created (.system lines)
        (⟨created, false, Step.systemKind⟩ :: marks.filter fun m => !m.isSystem) (created + 1)
  | stuck (hmarks : ∀ m ∈ marks, m.isUndoable = false) :
      Edit marks created .retry marks created
  | undo {before after : List Mark} {m : Mark} (hmarks : marks = before ++ m :: after)
      (hm : m.isUndoable = true) (hafter : ∀ n ∈ after, n.isUndoable = false) :
      Edit marks created .retry (before ++ m.pending :: after) created

/-! ## Retrying -/

inductive Item.Undone (i : Item) : Item → Prop where
  | prompt (p : Prompt) (hstep : i.step = .prompt p) :
      Undone i { i with executed := false, step := .prompt p.reset }
  | hook (shown : String) (run : Hook) (runs : Nat) (result : Value)
      (hstep : i.step = .hook shown run runs result) :
      Undone i { i with executed := false, step := .hook shown run runs .null }

theorem Item.Undone.mark {i j : Item} (h : i.Undone j) : j.mark = i.mark.pending := by
  cases h with
  | prompt p hstep => simp [Item.mark, Mark.pending, hstep, Step.kind]
  | hook shown run runs result hstep => simp [Item.mark, Mark.pending, hstep, Step.kind]

theorem Item.Undone.obeys {i j : Item} {rule : Rule} (h : i.Undone j)
    (hi : i.step.Obeys rule) : j.step.Obeys rule := by
  cases h with
  | prompt p hstep => trivial
  | hook shown run runs result hstep =>
    rw [hstep] at hi
    exact hi

theorem Item.undo_spec {i : Item} (h : i.step.Native) :
    (i.mark.isUndoable = false ∧ i.undo = .ok none) ∨
      (i.mark.isUndoable = true ∧ ∃ j, i.undo = .ok (some j) ∧ i.Undone j) := by
  obtain ⟨serial, label, executed, step, result⟩ := i
  cases executed with
  | false => exact .inl ⟨by simp [Mark.isUndoable, Item.mark], by simp [Item.undo]⟩
  | true =>
    cases step with
    | prompt p =>
      exact .inr ⟨by simp [Mark.isUndoable, Item.mark, Step.kind], _, by simp [Item.undo],
        .prompt p rfl⟩
    | hook shown run runs last =>
      exact .inr ⟨by simp [Mark.isUndoable, Item.mark, Step.kind], _, by simp [Item.undo],
        .hook shown run runs last rfl⟩
    | system text =>
      exact .inl ⟨by simp [Mark.isUndoable, Item.mark, Step.kind, Step.systemKind,
        Step.promptKind, Step.hookKind], by simp [Item.undo]⟩
    | use provider =>
      exact .inl ⟨by simp [Mark.isUndoable, Item.mark, Step.kind, Step.useKind,
        Step.promptKind, Step.hookKind], by simp [Item.undo]⟩
    | foreign kind inner => exact h.elim

theorem undoLast_spec {items : List Item} (h : ∀ i ∈ items, i.step.Native) :
    (undoLast items = .ok none ∧ ∀ i ∈ items, i.mark.isUndoable = false) ∨
      ∃ before i j after, items = before ++ i :: after ∧ i.Undone j ∧
        i.mark.isUndoable = true ∧ (∀ k ∈ after, k.mark.isUndoable = false) ∧
        undoLast items = .ok (some (before ++ j :: after)) := by
  induction items with
  | nil => exact .inl ⟨rfl, by simp⟩
  | cons i rest ih =>
    rcases ih (fun k hk => h k (List.mem_cons_of_mem _ hk)) with ⟨hrest, hnone⟩ |
      ⟨before, k, j, after, rfl, hundone, hk, hafter, hrest⟩
    · rcases Item.undo_spec (h i List.mem_cons_self) with ⟨hi, hundo⟩ | ⟨hi, j, hundo, hundone⟩
      · refine .inl ⟨by simp [undoLast, hrest, hundo, Except.map], ?_⟩
        simpa [hi] using hnone
      · exact .inr ⟨[], i, j, rest, rfl, hundone, hi, hnone,
          by simp [undoLast, hrest, hundo, Except.map]⟩
    · exact .inr ⟨i :: before, k, j, after, rfl, hundone, hk, hafter,
        by simp [undoLast, hrest]⟩

/-! ## Commands -/

theorem Prompt.fresh_edit {artifacts : Table Value} {p q : Prompt} {e : Prompt.Edit}
    (h : p.edit artifacts e = .ok q) (hp : (Step.prompt p).Fresh) : (Step.prompt q).Fresh := by
  cases e with
  | text lines =>
    rw [edit] at h
    cases hjoin : lines.joinInput with
    | error e =>
      rw [hjoin] at h
      cases h
    | ok text =>
      rw [hjoin] at h
      cases h
      exact hp
  | «section» name lines =>
    simp only [edit, addSection] at h
    split at h
    · cases h
    split at h
    · cases h
    · cases h
      exact hp
  | preview =>
    rw [edit] at h
    cases hmessage : p.message artifacts with
    | error e =>
      rw [hmessage] at h
      cases h
    | ok m =>
      rw [hmessage] at h
      cases h
      exact hp
  | reset =>
    cases h
    exact ⟨rfl, hp.2⟩
  | saveAs key | setLabel label | incognito =>
    cases h
    exact hp

theorem Prompt.fresh_editAll {artifacts : Table Value} {p q : Prompt} {edits : List Prompt.Edit}
    (h : p.editAll artifacts edits = .ok q) (hp : (Step.prompt p).Fresh) :
    (Step.prompt q).Fresh := by
  induction edits generalizing p with
  | nil =>
    cases h
    exact hp
  | cons e rest ih =>
    rw [editAll] at h
    split at h
    · cases h
    · next r hr => exact ih h (fresh_edit hr hp)

/-- What a command may make of a chain: it changes what lies beside the queue, it appends a step
that is under any rule that the command keeps, or it is one of those that do more. -/
inductive Chain.Performs (c : Chain) : Command → Chain → Prop where
  | beside {command : Command} (history : Journal Message) (artifacts : Table Value)
      (hsystem : ∀ lines, command ≠ .system lines) (hretry : command ≠ .retry) :
      Performs c command { c with history, artifacts }
  | append {command : Command} (label : Value) (step : Step)
      (hkind : step.kind ≠ Step.systemKind)
      (hobeys : ∀ {rule : Rule}, command.Obeys rule → step.Obeys rule)
      (hsystem : ∀ lines, command ≠ .system lines) (hretry : command ≠ .retry)
      (hfresh : step.Fresh) :
      Performs c command (c.append label step).1
  | system (lines : Value) : Performs c (.system lines) (c.system lines).2.1
  | retry : Performs c .retry c.retry.2
  | format (schema : Schema) :
      Performs c (.format schema) { c with formatter := some schema, formatted := false }
  | retype (index kind : Value) : Performs c (.retype index kind) (c.retype index kind).2

namespace Chain

theorem performs_build (c : Chain) {command : Command} (edits : List Prompt.Edit)
    (hsystem : ∀ lines, command ≠ .system lines) (hretry : command ≠ .retry) :
    c.Performs command (c.build edits).2.1 := by
  unfold build
  cases hedits : Prompt.editAll c.artifacts {} edits with
  | error e => exact .beside _ _ hsystem hretry
  | ok p =>
    exact .append p.label (.prompt p) (by simp [Step.kind, Step.promptKind, Step.systemKind])
      (fun _ => trivial) hsystem hretry (Prompt.fresh_editAll hedits ⟨rfl, rfl⟩)

theorem performs (c : Chain) (command : Command) :
    c.Performs command (c.perform command).2.1 := by
  cases command with
  | system lines => exact .system lines
  | prompt lines => exact c.performs_build _ (by simp) (by simp)
  | build edits => exact c.performs_build _ (by simp) (by simp)
  | insert key v =>
    simp only [perform, insert]
    cases c.artifacts.set key v with
    | error e => exact .beside _ _ (by simp) (by simp)
    | ok artifacts => exact .beside c.history artifacts (by simp) (by simp)
  | use provider =>
    simp only [perform, use]
    cases useLabel provider with
    | error e => exact .beside _ _ (by simp) (by simp)
    | ok label =>
      exact .append label (.use provider) (by simp [Step.kind, Step.useKind, Step.systemKind])
        (fun _ => trivial) (by simp) (by simp) trivial
  | hook label shown run =>
    refine .append label (.hook shown run 0 .null)
      (by simp [Step.kind, Step.hookKind, Step.systemKind]) ?_ (by simp) (by simp) ⟨rfl, rfl⟩
    intro rule hobeys
    rw [Command.Obeys] at hobeys
    exact hobeys
  | retry => exact .retry
  | format schema => exact .format schema
  | deleteHistory index =>
    simp only [perform, deleteHistory]
    cases c.history.remove index with
    | error e => exact .beside _ _ (by simp) (by simp)
    | ok removed => exact .beside removed.1 c.artifacts (by simp) (by simp)
  | incognito on => exact .beside _ _ (by simp) (by simp)
  | clearHistory => exact .beside _ _ (by simp) (by simp)
  | retype index kind => exact .retype index kind
  | _ => exact .beside c.history c.artifacts (by simp) (by simp)

theorem entries_append {c : Chain} (hopen : c.queue.incognito = false) (label : Value)
    (step : Step) :
    (c.append label step).1.queue.entries =
      c.queue.entries ++ [{ serial := c.created, label, step }] := by
  simp [append, Journal.push, hopen]

theorem edit_append {c : Chain} {command : Command} (hopen : c.queue.incognito = false)
    (label : Value) {step : Step} (hstep : step.kind ≠ Step.systemKind)
    (hsystem : ∀ lines, command ≠ .system lines) (hretry : command ≠ .retry) :
    Edit c.marks c.created command (c.append label step).1.marks (c.created + 1) := by
  have hmarks : (c.append label step).1.marks = c.marks ++ [⟨c.created, false, step.kind⟩] := by
    simp [marks, entries_append hopen, Item.mark]
  rw [hmarks]
  exact .append step.kind hsystem hretry hstep

theorem marks_dropSystem (c : Chain) :
    c.dropSystem.1.marks = c.marks.filter fun m => !m.isSystem := by
  simp only [dropSystem, Journal.filter, Journal.retain, marks, List.filter_map]
  rfl

theorem edit_system {c : Chain} (hopen : c.queue.incognito = false) (lines : Value) :
    Edit c.marks c.created (.system lines) (c.system lines).2.1.marks
      (c.system lines).2.1.created := by
  cases hjoin : lines.joinInput with
  | error e =>
    have hmarks := marks_dropSystem c
    have hchain : (c.system lines).2.1 = c.dropSystem.1 := by simp [system, hjoin]
    rw [hchain, hmarks]
    exact .evict hjoin
  | ok text =>
    have hmarks : (c.system lines).2.1.marks =
        ⟨c.created, false, Step.systemKind⟩ :: c.dropSystem.1.marks := by
      simp [system, hjoin, prependSystem, Journal.unshift, marks, dropSystem, Journal.filter,
        Journal.retain, hopen, Item.mark, Step.kind]
    have hcreated : (c.system lines).2.1.created = c.created + 1 := by
      simp [system, hjoin, prependSystem, dropSystem]
    rw [hmarks, hcreated, marks_dropSystem]
    exact .replace hjoin

theorem edit_retry {c : Chain} (hnative : ∀ i ∈ c.queue.entries, i.step.Native) :
    Edit c.marks c.created .retry c.retry.2.marks c.retry.2.created := by
  rcases undoLast_spec hnative with ⟨hundo, hnone⟩ |
    ⟨before, i, j, after, hitems, hundone, hi, hafter, hundo⟩
  · simp only [retry, hundo]
    exact .stuck (by simpa [marks] using hnone)
  · have hmarks : c.retry.2.marks =
        before.map Item.mark ++ i.mark.pending :: after.map Item.mark := by
      simp [retry, hundo, marks, hundone.mark]
    have hcreated : c.retry.2.created = c.created := by simp [retry, hundo]
    rw [hmarks, hcreated]
    exact .undo (m := i.mark) (by simp [marks, hitems]) hi (by simpa using hafter)

theorem edit_perform {c : Chain} {command : Command} (hopen : c.queue.incognito = false)
    (hnative : ∀ i ∈ c.queue.entries, i.step.Native)
    (hovert : ∀ index kind, command ≠ .retype index kind) :
    Edit c.marks c.created command (c.perform command).2.1.marks
      (c.perform command).2.1.created := by
  have hperforms := c.performs command
  generalize (c.perform command).2.1 = d at hperforms ⊢
  cases hperforms with
  | beside _ _ hsystem hretry => exact .keep hsystem hretry
  | append label step hkind _ hsystem hretry => exact edit_append hopen label hkind hsystem hretry
  | system lines => exact edit_system hopen lines
  | retry => exact edit_retry hnative
  | format schema => exact .keep (by simp) (by simp)
  | retype index kind => exact absurd rfl (hovert index kind)

end Chain

end PromptChain
