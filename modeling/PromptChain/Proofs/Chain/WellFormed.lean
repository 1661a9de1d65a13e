import PromptChain.Proofs.Chain.Marks
import Mathlib.Data.List.Nodup
/-!
# Well-formed chains

The serial numbers in a queue are distinct, and a system prompt stands nowhere
but at the front.  The commands of a chain's own interface keep this order, and
leave the hooks of the queue under any rule that they keep themselves.
-/

namespace PromptChain

structure Orderly (marks : List Mark) (created : Nat) : Prop where
  distinct : (marks.map Mark.serial).Nodup
  fresh : ∀ m ∈ marks, m.serial < created
  front : ∀ m ∈ marks.tail, m.isSystem = false

namespace Orderly

variable {marks marks' : List Mark} {created created' : Nat} {command : Command}

theorem eq_of_serial_eq (h : Orderly marks created) {m n : Mark} (hm : m ∈ marks)
    (hn : n ∈ marks) (hserial : m.serial = n.serial) : m = n :=
  List.inj_on_of_nodup_map h.distinct hm hn hserial

theorem filter (h : Orderly marks created) :
    Orderly (marks.filter fun m => !m.isSystem) created where
  distinct := h.distinct.sublist (List.filter_sublist.map _)
  fresh m hm := h.fresh m ((List.mem_filter.mp hm).1)
  front m hm := by simpa using (List.mem_filter.mp (List.mem_of_mem_tail hm)).2

theorem filter_cases (h : Orderly marks created) :
    (marks.filter fun m => !m.isSystem) = marks ∨
      ∃ m, marks = m :: marks.filter fun m => !m.isSystem := by
  cases marks with
  | nil => exact .inl rfl
  | cons m rest =>
    have hrest : (rest.filter fun m => !m.isSystem) = rest := by
      rw [List.filter_eq_self]
      intro n hn
      simpa using h.front n hn
    cases hm : m.isSystem with
    | false => exact .inl (by simp [hm, hrest])
    | true => exact .inr ⟨m, by simp [hm, hrest]⟩

theorem append (h : Orderly marks created) {kind : Value} (hkind : kind ≠ Step.systemKind) :
    Orderly (marks ++ [⟨created, false, kind⟩]) (created + 1) where
  distinct := by
    rw [List.map_append, List.nodup_append]
    refine ⟨h.distinct, by simp, ?_⟩
    intro serial hserial other hother
    obtain ⟨m, hm, rfl⟩ := List.mem_map.mp hserial
    have hlt := h.fresh m hm
    simp only [List.map_cons, List.map_nil, List.mem_singleton] at hother
    omega
  fresh m hm := by
    rcases List.mem_append.mp hm with hm | hm
    · exact Nat.lt_succ_of_lt (h.fresh m hm)
    · simp only [List.mem_singleton] at hm
      simp [hm]
  front m hm := by
    cases marks with
    | nil => simp at hm
    | cons first rest =>
      simp only [List.cons_append, List.tail_cons, List.mem_append, List.mem_singleton] at hm
      rcases hm with hm | rfl
      · exact h.front m hm
      · simp [Mark.isSystem, hkind]

theorem replace (h : Orderly marks created) :
    Orderly (⟨created, false, Step.systemKind⟩ :: marks.filter fun m => !m.isSystem)
      (created + 1) where
  distinct := by
    rw [List.map_cons, List.nodup_cons]
    refine ⟨?_, h.filter.distinct⟩
    intro hmem
    obtain ⟨m, hm, hserial⟩ := List.mem_map.mp hmem
    have hlt := h.filter.fresh m hm
    simp only at hserial
    omega
  fresh m hm := by
    rcases List.mem_cons.mp hm with rfl | hm
    · exact Nat.lt_succ_self _
    · exact Nat.lt_succ_of_lt (h.filter.fresh m hm)
  front m hm := by simpa using (List.mem_filter.mp hm).2

theorem undo {before after : List Mark} {m : Mark} (h : Orderly (before ++ m :: after) created) :
    Orderly (before ++ m.pending :: after) created where
  distinct := by simpa [Mark.pending] using h.distinct
  fresh n hn := by
    rcases List.mem_append.mp hn with hn | hn
    · exact h.fresh n (by simp [hn])
    · rcases List.mem_cons.mp hn with rfl | hn
      · exact h.fresh m (by simp)
      · exact h.fresh n (by simp [hn])
  front n hn := by
    cases before with
    | nil => exact h.front n hn
    | cons first rest =>
      simp only [List.cons_append, List.tail_cons, List.mem_append, List.mem_cons] at hn
      rcases hn with hn | rfl | hn
      · exact h.front n (by simp [hn])
      · exact h.front m (by simp)
      · exact h.front n (by simp [hn])

/-- An edit keeps the order of the marks. -/
theorem edit (h : Orderly marks created) (hedit : Edit marks created command marks' created') :
    Orderly marks' created' := by
  cases hedit with
  | keep => exact h
  | append kind _ _ hkind => exact h.append hkind
  | evict => exact h.filter
  | replace => exact h.replace
  | stuck => exact h
  | undo hmarks => exact (hmarks ▸ h).undo

end Orderly

theorem Edit.length_le {marks marks' : List Mark} {created created' : Nat} {command : Command}
    (hedit : Edit marks created command marks' created') (horderly : Orderly marks created)
    (hjoin : ∀ lines, command = .system lines → ∃ text, lines.joinInput = .ok text) :
    marks.length ≤ marks'.length := by
  cases hedit with
  | keep => exact Nat.le_refl _
  | append kind => simp
  | @evict lines e herror =>
    obtain ⟨text, htext⟩ := hjoin lines rfl
    rw [herror] at htext
    cases htext
  | replace =>
    rw [List.length_cons]
    rcases horderly.filter_cases with heq | ⟨first, heq⟩
    · rw [heq]
      omega
    · exact Nat.le_of_eq (congrArg List.length heq)
  | stuck => exact Nat.le_refl _
  | undo hmarks => simp [hmarks]

namespace Chain

/-- Whether the hooks of a queue keep a rule: those of all items, or of the pending ones. -/
def Obeys (c : Chain) (rule : Rule) (all : Prop) : Prop :=
  ∀ i ∈ c.queue.entries, all ∨ i.executed = false → i.step.Obeys rule

/-- What holds of a chain that is used through its own interface alone. -/
structure WellFormed (c : Chain) : Prop where
  opened : c.queue.incognito = false
  overt : c.Obeys Rule.overt True
  orderly : Orderly c.marks c.created

section Obeys

variable {rule : Rule} {all : Prop}

theorem Obeys.append {c : Chain} (h : c.Obeys rule all) (label : Value) {step : Step}
    (hstep : step.Obeys rule) : (c.append label step).1.Obeys rule all := by
  intro i hi hwatched
  simp only [Chain.append, Journal.push] at hi
  split at hi
  · exact h i hi hwatched
  · rcases List.mem_append.mp hi with hi | hi
    · exact h i hi hwatched
    · rw [List.mem_singleton.mp hi]
      exact hstep

theorem Obeys.dropSystem {c : Chain} (h : c.Obeys rule all) :
    c.dropSystem.1.Obeys rule all := by
  intro i hi hwatched
  exact h i ((List.mem_filter.mp hi).1) hwatched

theorem Obeys.prependSystem {c : Chain} (h : c.Obeys rule all) (text : String) :
    (c.prependSystem text).1.Obeys rule all := by
  intro i hi hwatched
  simp only [Chain.prependSystem, Journal.unshift] at hi
  split at hi
  · exact h i hi hwatched
  · rcases List.mem_append.mp hi with hi | hi
    · rw [List.mem_singleton.mp hi]
      trivial
    · exact h i hi hwatched

theorem Obeys.system {c : Chain} (h : c.Obeys rule all) (lines : Value) :
    (c.system lines).2.1.Obeys rule all := by
  unfold Chain.system
  cases lines.joinInput with
  | error e => exact h.dropSystem
  | ok text => exact h.dropSystem.prependSystem text

theorem Obeys.retry {c : Chain} (h : c.Obeys rule True) : c.retry.2.Obeys rule True := by
  have hnative : ∀ i ∈ c.queue.entries, i.step.Native :=
    fun i hi => (h i hi (.inl trivial)).native
  unfold Chain.retry
  rcases undoLast_spec hnative with ⟨hundo, -⟩ |
    ⟨before, i, j, after, hitems, hundone, -, -, hundo⟩
  · rw [hundo]
    exact h
  · rw [hundo]
    intro k hk hwatched
    have hobeys : ∀ k ∈ before ++ i :: after, k.step.Obeys rule :=
      fun k hk => h k (hitems ▸ hk) (.inl trivial)
    simp only [List.mem_append, List.mem_cons] at hk
    rcases hk with hk | rfl | hk
    · exact hobeys k (by simp [hk])
    · exact hundone.obeys (hobeys i (by simp))
    · exact hobeys k (by simp [hk])

theorem Obeys.perform {c : Chain} (h : c.Obeys rule all) (command : Command)
    (hcommand : command.Obeys rule) (hovert : ∀ index kind, command ≠ .retype index kind)
    (hretry : command = .retry → all) : (c.perform command).2.1.Obeys rule all := by
  have hperforms := c.performs command
  generalize (c.perform command).2.1 = d at hperforms ⊢
  cases hperforms with
  | beside => exact h
  | append label step _ hobeys => exact h.append label (hobeys hcommand)
  | system lines => exact h.system lines
  | retry =>
    have hall : all = True := eq_true (hretry rfl)
    subst hall
    exact h.retry
  | format schema => exact h
  | retype index kind => exact absurd rfl (hovert index kind)

theorem Obeys.modifyItem {c : Chain} (h : c.Obeys rule all) (serial : Nat) {f : Item → Item}
    (hflag : ∀ i, (f i).executed = false → i.executed = false)
    (hstep : ∀ i, i.step.Obeys rule → (f i).step.Obeys rule) :
    (c.modifyItem serial f).Obeys rule all := by
  intro j hj hwatched
  obtain ⟨i, hi, rfl⟩ := List.mem_map.mp hj
  by_cases hserial : i.serial = serial
  · simp only [hserial, if_true] at hwatched ⊢
    exact hstep i (h i hi (hwatched.imp_right (hflag i)))
  · simp only [hserial, if_false] at hwatched ⊢
    exact h i hi hwatched

end Obeys

theorem incognito_append (c : Chain) (label : Value) (step : Step) :
    (c.append label step).1.queue.incognito = c.queue.incognito := by
  simp only [append, Journal.push]
  split <;> rfl

theorem incognito_perform (c : Chain) (command : Command) :
    (c.perform command).2.1.queue.incognito = c.queue.incognito := by
  have hperforms := c.performs command
  generalize (c.perform command).2.1 = d at hperforms ⊢
  cases hperforms with
  | beside => rfl
  | append label step => exact incognito_append c label step
  | system lines =>
    unfold system
    cases lines.joinInput with
    | error e => rfl
    | ok text =>
      simp only [prependSystem, Journal.unshift]
      split <;> rfl
  | retry =>
    unfold retry
    cases undoLast c.queue.entries with
    | error e => rfl
    | ok undone => cases undone <;> rfl
  | format schema => rfl
  | retype index kind =>
    unfold retype
    cases Value.place "tuple" "tuple index" c.queue.length index <;> rfl

namespace WellFormed

variable {c : Chain}

theorem native (h : c.WellFormed) : ∀ i ∈ c.queue.entries, i.step.Native :=
  fun i hi => (h.overt i hi (.inl trivial)).native

theorem edit (h : c.WellFormed) {command : Command}
    (hovert : ∀ index kind, command ≠ .retype index kind) :
    Edit c.marks c.created command (c.perform command).2.1.marks
      (c.perform command).2.1.created :=
  edit_perform h.opened h.native hovert

theorem perform (h : c.WellFormed) {command : Command}
    (hovert : ∀ index kind, command ≠ .retype index kind)
    (hcommand : command.Obeys Rule.overt) : (c.perform command).2.1.WellFormed where
  opened := (incognito_perform c command).trans h.opened
  overt := h.overt.perform command hcommand hovert fun _ => trivial
  orderly := h.orderly.edit (h.edit hovert)

end WellFormed

structure Holds (c : Chain) (m : Mark) : Prop where
  created : m.serial < c.created
  unique : ∀ n ∈ c.marks, n.serial = m.serial → n = m

theorem WellFormed.holds {c : Chain} (h : c.WellFormed) {i : Item}
    (hi : i ∈ c.queue.entries) : c.Holds i.mark where
  created := h.orderly.fresh _ (List.mem_map_of_mem hi)
  unique _ hn hserial := h.orderly.eq_of_serial_eq hn (List.mem_map_of_mem hi) hserial

theorem Holds.edit {c d : Chain} {m : Mark} {command : Command} (h : c.Holds m)
    (hm : m.executed = false)
    (hedit : Edit c.marks c.created command d.marks d.created) : d.Holds m := by
  obtain ⟨hcreated, hunique⟩ := h
  generalize hmarks : d.marks = marks' at hedit
  generalize hcount : d.created = created' at hedit
  refine ⟨?_, ?_⟩
  · rw [hcount]
    cases hedit <;> omega
  · rw [hmarks]
    intro n hn hserial
    cases hedit with
    | keep => exact hunique n hn hserial
    | stuck => exact hunique n hn hserial
    | evict => exact hunique n (List.mem_filter.mp hn).1 hserial
    | append kind =>
      rcases List.mem_append.mp hn with hn | hn
      · exact hunique n hn hserial
      · rw [List.mem_singleton.mp hn] at hserial
        simp only at hserial
        omega
    | replace =>
      rcases List.mem_cons.mp hn with rfl | hn
      · simp only at hserial
        omega
      · exact hunique n (List.mem_filter.mp hn).1 hserial
    | @undo before after undone hbefore hundo =>
      rw [hbefore] at hunique
      rcases List.mem_append.mp hn with hn | hn
      · exact hunique n (by simp [hn]) hserial
      · rcases List.mem_cons.mp hn with rfl | hn
        · have heq := hunique undone (by simp) hserial
          simp [heq, Mark.isUndoable, hm] at hundo
        · exact hunique n (by simp [hn]) hserial

end Chain

end PromptChain
