import PromptChain.Proofs.Chain.Conversation
import PromptChain.Proofs.Chain.Failure
import PromptChain.Proofs.Chain.Order
/-!
# Undoing executions

A retry looks for the last executed prompt or hook of the queue, and not for the last one in time.
The two are the same as long as no hook retries: the executed prompts and hooks stand before the
pending ones, in the order in which they were last executed.  So retries undo executions from the
last one on, and the next run repeats them in their order.
-/

namespace PromptChain

/-! ## Logs -/

/-- Whether a log names serial numbers in their order for the last time: behind the last entry of
each there is none of those before it. -/
def LastInOrder (log serials : List Nat) : Prop :=
  ∀ front n back, serials = front ++ n :: back →
    ∃ earlier later, log = earlier ++ n :: later ∧ ∀ m ∈ front ++ [n], m ∉ later

namespace LastInOrder

variable {log serials : List Nat}

theorem nil (log : List Nat) : LastInOrder log [] := by
  intro front n back hsplit
  simp at hsplit

theorem init {back : List Nat} (h : LastInOrder log (serials ++ back)) :
    LastInOrder log serials := by
  rintro front n more rfl
  exact h front n (more ++ back) (by simp)

theorem concat (h : LastInOrder log serials) {n : Nat} (hn : n ∉ serials) :
    LastInOrder (log ++ [n]) (serials ++ [n]) := by
  intro front m back hsplit
  rcases List.eq_nil_or_concat back with rfl | ⟨back, last, rfl⟩
  · obtain ⟨rfl, heq⟩ := List.append_inj' hsplit rfl
    cases heq
    exact ⟨log, [], rfl, by simp⟩
  · have hsplit' : serials ++ [n] = (front ++ m :: back) ++ [last] := by simpa using hsplit
    obtain ⟨rfl, heq⟩ := List.append_inj' hsplit' rfl
    obtain ⟨earlier, later, rfl, hlater⟩ := h front m back rfl
    refine ⟨earlier, later ++ [n], by simp, fun k hk hmem => ?_⟩
    rcases List.mem_append.mp hmem with hmem | hmem
    · exact hlater k hk hmem
    · rw [List.mem_singleton.mp hmem] at hk
      simp only [List.mem_append, List.mem_cons, List.not_mem_nil, or_false, not_or] at hk hn
      rcases hk with hk | hk
      · exact hn.1 hk
      · exact hn.2.1 hk

end LastInOrder

/-! ## Marks -/

namespace Mark

def isRepeatable (m : Mark) : Bool :=
  decide (m.kind = Step.promptKind) || decide (m.kind = Step.hookKind)

theorem isUndoable_eq (m : Mark) : m.isUndoable = (m.executed && m.isRepeatable) := rfl

theorem isSystem_of_isRepeatable {m : Mark} (h : m.isRepeatable = true) : m.isSystem = false := by
  simp only [isRepeatable, Bool.or_eq_true, decide_eq_true_eq] at h
  rcases h with h | h <;>
    simp [isSystem, h, Step.promptKind, Step.hookKind, Step.systemKind]

@[simp] theorem isRepeatable_finish (serial : Nat) (m : Mark) :
    (m.finish serial).isRepeatable = m.isRepeatable := by
  unfold finish
  split <;> rfl

end Mark

/-- Whether the prompts and hooks among marks are executed ones in front of pending ones. -/
structure Staged (marks front back : List Mark) : Prop where
  split : marks.filter Mark.isRepeatable = front ++ back
  executed : ∀ m ∈ front, m.executed = true
  pending : ∀ m ∈ back, m.executed = false

section Staged

variable {marks marks' front back : List Mark} {created created' : Nat} {command : Command}

theorem filter_repeatable_tasks (marks : List Mark) :
    (marks.filter fun m => !m.isSystem).filter Mark.isRepeatable =
      marks.filter Mark.isRepeatable := by
  rw [List.filter_filter]
  apply List.filter_congr
  intro m _
  cases hm : m.isRepeatable with
  | false => rfl
  | true => simp [Mark.isSystem_of_isRepeatable hm]

theorem filter_undoable (marks : List Mark) :
    marks.filter Mark.isUndoable = (marks.filter Mark.isRepeatable).filter Mark.executed := by
  rw [List.filter_filter]
  rfl

theorem Staged.filter_undoable (h : Staged marks front back) :
    marks.filter Mark.isUndoable = front := by
  rw [PromptChain.filter_undoable, h.split, List.filter_append, List.filter_eq_self.mpr h.executed,
    List.filter_eq_nil_iff.mpr fun m hm => by simp [h.pending m hm], List.append_nil]

theorem Staged.filter_pending (h : Staged marks front back) :
    (marks.filter Mark.isRepeatable).filter (fun m => !m.executed) = back := by
  rw [h.split, List.filter_append,
    List.filter_eq_nil_iff.mpr fun m hm => by simp [h.executed m hm],
    List.filter_eq_self.mpr fun m hm => by simp [h.pending m hm], List.nil_append]

/-- What is not a retry adds pending ones at the end. -/
theorem Edit.staged (hedit : Edit marks created command marks' created')
    (hretry : command ≠ .retry) (h : Staged marks front back) :
    ∃ new, Staged marks' front (back ++ new) := by
  have hkept : marks'.filter Mark.isRepeatable = marks.filter Mark.isRepeatable →
      Staged marks' front (back ++ []) := fun heq =>
    ⟨by rw [heq, h.split, List.append_nil], h.executed, by simpa using h.pending⟩
  cases hedit with
  | keep => exact ⟨[], hkept rfl⟩
  | append kind =>
    refine ⟨[⟨created, false, kind⟩].filter Mark.isRepeatable, ?_, h.executed, ?_⟩
    · rw [List.filter_append, h.split, List.append_assoc]
    · intro m hm
      rcases List.mem_append.mp hm with hm | hm
      · exact h.pending m hm
      · rw [List.mem_singleton.mp (List.mem_filter.mp hm).1]
  | evict => exact ⟨[], hkept (filter_repeatable_tasks marks)⟩
  | replace =>
    have hsystem : Mark.isRepeatable ⟨created, false, Step.systemKind⟩ = false := by
      simp [Mark.isRepeatable, Step.systemKind, Step.promptKind, Step.hookKind]
    refine ⟨[], hkept ?_⟩
    rw [List.filter_cons, hsystem]
    exact filter_repeatable_tasks marks
  | stuck => exact absurd rfl hretry
  | undo => exact absurd rfl hretry

/-- A retry makes the last of those in front the first of those behind, and leaves the rest. -/
theorem Edit.unstaged (hedit : Edit marks created .retry marks' created')
    (h : Staged marks front back) :
    created' = created ∧ (front = [] ∧ marks' = marks ∨
      ∃ rest m, front = rest ++ [m] ∧ Staged marks' rest (m.pending :: back) ∧
        marks'.filter (fun m => !m.isRepeatable) = marks.filter fun m => !m.isRepeatable) := by
  cases hedit with
  | keep _ hretry => exact absurd rfl hretry
  | append _ _ hretry => exact absurd rfl hretry
  | stuck hnone =>
    refine ⟨rfl, .inl ⟨?_, rfl⟩⟩
    rw [← h.filter_undoable, List.filter_eq_nil_iff]
    exact fun m hm => by simp [hnone m hm]
  | @undo before after m hmarks hm hafter =>
    have hm' : m.executed = true ∧ m.isRepeatable = true := by
      simpa [Mark.isUndoable_eq] using hm
    have hlast : after.filter Mark.isUndoable = [] :=
      List.filter_eq_nil_iff.mpr fun n hn => by simp [hafter n hn]
    have hfront : front = before.filter Mark.isUndoable ++ [m] := by
      rw [← h.filter_undoable, hmarks, List.filter_append, List.filter_cons, hm, if_pos rfl, hlast]
    have hsplit : before.filter Mark.isRepeatable ++ m :: after.filter Mark.isRepeatable =
        before.filter Mark.isUndoable ++ m :: back := by
      have hwhole := h.split
      rw [hmarks, List.filter_append, List.filter_cons, hm'.2, if_pos rfl, hfront] at hwhole
      simpa using hwhole
    have habsent : m ∉ back := fun hmem => by simp [h.pending m hmem] at hm'
    -- The undoable marks before the retried one are all that can be retried there.
    have hbefore : before.filter Mark.isRepeatable = before.filter Mark.isUndoable ∧
        after.filter Mark.isRepeatable = back := by
      have hle : (before.filter Mark.isUndoable).length ≤
          (before.filter Mark.isRepeatable).length := by
        rw [PromptChain.filter_undoable]
        exact List.length_filter_le _ _
      rcases List.append_eq_append_iff.mp hsplit with ⟨more, hmore, hrest⟩ | ⟨more, hmore, hrest⟩
      · have hnil : more = [] := by
          rw [hmore, List.length_append] at hle
          exact List.length_eq_zero_iff.mp (by omega)
        subst hnil
        exact ⟨by simpa using hmore.symm, (List.cons.inj hrest).2⟩
      · cases more with
        | nil => exact ⟨by simpa using hmore, (List.cons.inj hrest).2.symm⟩
        | cons n more =>
          obtain ⟨-, rfl⟩ := List.cons.inj hrest
          exact absurd (by simp) habsent
    have hpending : m.pending.isRepeatable = true := hm'.2
    refine ⟨rfl, .inr ⟨before.filter Mark.isUndoable, m, hfront, ⟨?_, ?_, ?_⟩, ?_⟩⟩
    · rw [List.filter_append, List.filter_cons, hpending, if_pos rfl, hbefore.1, hbefore.2]
    · exact fun n hn => h.executed n (hfront ▸ List.mem_append_left _ hn)
    · intro n hn
      rcases List.mem_cons.mp hn with rfl | hn
      · rfl
      · exact h.pending n hn
    · simp [hmarks, hpending, hm'.2]

theorem map_finish_of_ne {serial : Nat} (h : ∀ m ∈ marks, m.serial ≠ serial) :
    marks.map (Mark.finish serial) = marks := by
  rw [List.map_congr_left fun m hm => show Mark.finish serial m = id m by simp [Mark.finish, h m hm],
    List.map_id]

theorem filter_map_finish (serial : Nat) (marks : List Mark) :
    (marks.map (Mark.finish serial)).filter Mark.isRepeatable =
      (marks.filter Mark.isRepeatable).map (Mark.finish serial) := by
  simp [List.filter_map, Function.comp_def]

theorem Staged.finish (h : Staged marks front back) (hdistinct : (marks.map Mark.serial).Nodup)
    {m : Mark} {rest : List Mark}
    (howing : (marks.filter fun m => !m.isSystem && !m.executed) = m :: rest)
    (hm : m.isRepeatable = true) :
    m.serial ∉ front.map Mark.serial ∧
      ∃ more, Staged (marks.map (Mark.finish m.serial)) (front ++ [m.done]) more := by
  have hback : back = m :: rest.filter Mark.isRepeatable := by
    have hfilter : (marks.filter fun m => !m.isSystem && !m.executed).filter Mark.isRepeatable =
        back := by
      rw [← h.filter_pending, List.filter_filter, List.filter_filter]
      apply List.filter_congr
      intro n _
      cases hn : n.isRepeatable with
      | false => simp
      | true => simp [Mark.isSystem_of_isRepeatable hn]
    rw [← hfilter, howing, List.filter_cons, hm, if_pos rfl]
  generalize rest.filter Mark.isRepeatable = more at hback
  subst hback
  have hserials : ((front ++ m :: more).map Mark.serial).Nodup := by
    rw [← h.split]
    exact hdistinct.sublist (List.filter_sublist.map _)
  rw [List.map_append, List.map_cons, List.nodup_append, List.nodup_cons] at hserials
  obtain ⟨-, ⟨hmore, -⟩, hfront⟩ := hserials
  have hfront' : ∀ n ∈ front, n.serial ≠ m.serial := fun n hn =>
    hfront n.serial (List.mem_map_of_mem hn) m.serial (by simp)
  have hmore' : ∀ n ∈ more, n.serial ≠ m.serial := fun n hn heq =>
    hmore (heq ▸ List.mem_map_of_mem hn)
  refine ⟨fun hmem => ?_, more, ?_, ?_, fun n hn => h.pending n (List.mem_cons_of_mem _ hn)⟩
  · obtain ⟨n, hn, heq⟩ := List.mem_map.mp hmem
    exact hfront' n hn heq
  · have hdone : Mark.finish m.serial m = m.done := by simp [Mark.finish]
    rw [filter_map_finish, h.split, List.map_append, List.map_cons, map_finish_of_ne hfront',
      map_finish_of_ne hmore', hdone]
    simp
  · intro n hn
    rcases List.mem_append.mp hn with hn | hn
    · exact h.executed n hn
    · rw [List.mem_singleton.mp hn]
      rfl

theorem Staged.finish_other (h : Staged marks front back) {serial : Nat}
    (hother : ∀ m ∈ marks, m.serial = serial → m.isRepeatable = false) :
    Staged (marks.map (Mark.finish serial)) front back := by
  refine ⟨?_, h.executed, h.pending⟩
  rw [filter_map_finish, map_finish_of_ne, h.split]
  intro m hm heq
  obtain ⟨hmem, hrepeatable⟩ := List.mem_filter.mp hm
  simp [hother m hmem heq] at hrepeatable

end Staged

/-- Whether the executed prompts and hooks among marks stand before the pending ones, in the order
in which a log names them for the last time. -/
def Recorded (log : List Nat) (marks : List Mark) : Prop :=
  ∃ front back, Staged marks front back ∧ LastInOrder log (front.map Mark.serial)

/-- Every edit keeps the order of executions. -/
theorem Edit.recorded {marks marks' : List Mark} {created created' : Nat} {command : Command}
    {log : List Nat} (hedit : Edit marks created command marks' created')
    (h : Recorded log marks) : Recorded log marks' := by
  obtain ⟨front, back, hstaged, hlog⟩ := h
  by_cases hretry : command = .retry
  · subst hretry
    rcases (hedit.unstaged hstaged).2 with ⟨-, rfl⟩ | ⟨rest, m, rfl, hstaged', -⟩
    · exact ⟨front, back, hstaged, hlog⟩
    · rw [List.map_append] at hlog
      exact ⟨rest, _, hstaged', hlog.init⟩
  · obtain ⟨new, hstaged'⟩ := hedit.staged hretry hstaged
    exact ⟨front, back ++ new, hstaged', hlog⟩

namespace Session

variable {ε : Type} {b : Backend ε}

/-! ## Runs -/

def completions (b : Backend ε) (visited : List (Visit ε)) : List Nat :=
  (visited.filter fun v => v.item.mark.isRepeatable && (v.outcome b).isOk).map fun v =>
    v.item.serial

theorem completions_append (front back : List (Visit ε)) :
    completions b (front ++ back) = completions b front ++ completions b back := by
  simp [completions]

theorem completions_cons (v : Visit ε) (rest : List (Visit ε)) :
    completions b (v :: rest) = completions b [v] ++ completions b rest :=
  completions_append [v] rest

theorem completions_singleton {position : Nat} {i : Item} {s t : Session ε} {v : Value}
    (hrun : s.execute b i = (.ok v, t)) :
    completions b [⟨position, i, s⟩] = if i.mark.isRepeatable then [i.serial] else [] := by
  have hok : ((⟨position, i, s⟩ : Visit ε).outcome b).isOk = true := by
    rw [Visit.outcome, hrun]
    rfl
  rw [completions, List.filter_singleton, hok, Bool.and_true]
  cases i.mark.isRepeatable <;> rfl

/-- A step that is executed is the last one in time, and the last executed one in the queue. -/
theorem recorded_complete {s t : Session ε} {i : Item} {v : Value} {index position : Nat}
    {log : List Nat} (hwf : s.chain.WellFormed) (hpassed : Passed index s.chain.marks)
    (hnext : nextPending? s.chain.queue.entries index = some (position, i))
    (hsteady : i.step.Obeys Rule.steady) (hrun : s.execute b i = (.ok v, t))
    (h : Recorded log s.chain.marks) :
    Recorded (log ++ completions b [⟨position, i, s⟩]) (t.complete i.serial v).chain.marks := by
  have hi := mem_of_nextPending? hnext
  have hpending := pending_of_nextPending? hnext
  obtain ⟨htwf, hholds, front, back, hstaged, hlog⟩ :=
    execute_marks (b := b) (fun marks _ => Recorded log marks) hwf hi hpending h
      fun g hg marks created _ _ hedit hrecorded => hedit.recorded hrecorded
  obtain ⟨-, new, -, howing, -⟩ := execute_account (b := b) hwf hi hpending hsteady
  obtain ⟨rest, hrest, -⟩ := owing_of_nextPending? hwf hpassed hnext
  rw [hrun] at htwf hholds hstaged howing
  rw [completions_singleton hrun, marks_complete]
  cases hrepeatable : i.mark.isRepeatable with
  | false =>
    refine ⟨front, back, hstaged.finish_other fun m hm hserial => ?_, by simpa using hlog⟩
    rw [hholds.unique m hm hserial]
    exact hrepeatable
  | true =>
    -- The step comes first of those that are owing, so that all prompts and hooks before it are
    -- executed.
    have hsystem : i.isSystem = false := Mark.isSystem_of_isRepeatable hrepeatable
    rw [hrest, hsystem] at howing
    obtain ⟨m, more, hfilter, hserial, -⟩ := List.map_eq_cons_iff.mp howing
    have hm : m ∈ t.chain.marks := by
      have hmem : m ∈ t.chain.marks.filter fun m => !m.isSystem && !m.executed := by simp [hfilter]
      exact (List.mem_filter.mp hmem).1
    obtain rfl := hholds.unique m hm hserial
    obtain ⟨habsent, behind, hstaged'⟩ :=
      hstaged.finish htwf.orderly.distinct hfilter hrepeatable
    refine ⟨front ++ [i.mark.done], behind, hstaged', ?_⟩
    rw [List.map_append]
    exact hlog.concat habsent

structure Replayable (log : List Nat) (c : Chain) : Prop where
  wellFormed : c.WellFormed
  steady : c.Obeys Rule.steady True
  recorded : Recorded log c.marks

namespace Replayable

variable {log : List Nat} {s t : Session ε}

theorem step (h : Replayable log s.chain) {i : Item} {v : Value} {index position : Nat}
    (hpassed : Passed index s.chain.marks)
    (hnext : nextPending? s.chain.queue.entries index = some (position, i))
    (hrun : s.execute b i = (.ok v, t)) :
    Replayable (log ++ completions b [⟨position, i, s⟩]) (t.complete i.serial v).chain ∧
      Passed (position + 1) (t.complete i.serial v).chain.marks := by
  have hi := mem_of_nextPending? hnext
  have hsteady : i.step.Obeys Rule.steady := h.steady i hi (.inl trivial)
  have hwf := wellFormed_execute (b := b) h.wellFormed hi (pending_of_nextPending? hnext)
  have hobeys := obeys_execute (b := b) (fun _ _ hrule => ⟨hrule.1.1, fun _ => trivial⟩) h.steady
    hsteady
  have hbehind := execute_passed (b := b) (v := v) h.wellFormed hpassed hnext hsteady
    (by rw [hrun])
  rw [hrun] at hwf hobeys hbehind
  exact ⟨⟨wellFormed_complete hwf _ _, obeys_complete hobeys _ _,
    recorded_complete h.wellFormed hpassed hnext hsteady hrun h.recorded⟩, Passed.complete hbehind v⟩

theorem walks {index last : Nat} {done : List (Visit ε)} (hwalks : Walks b index s done last t)
    (h : Replayable log s.chain) (hpassed : Passed index s.chain.marks) :
    Replayable (log ++ completions b done) t.chain := by
  induction hwalks generalizing log with
  | stay => simpa [completions] using h
  | @step index position last s t u i v done hnext hrun rest ih =>
    obtain ⟨hstep, hpassed'⟩ := h.step hpassed hnext hrun
    rw [completions_cons, ← List.append_assoc]
    exact ih hstep hpassed'

theorem walk (h : Replayable log s.chain) (budget : Nat) :
    Replayable (log ++ completions b (visits b budget 0 s)) (walk b budget 0 s).2.2.chain := by
  obtain ⟨done, last, t, hwalks, hends⟩ := walk_ends b budget 0 s
  have hwalked := h.walks hwalks (by simp [Passed])
  generalize Session.walk b budget 0 s = result, visits b budget 0 s = visited at hends
  cases hends with
  | finished => exact hwalked
  | paused => exact hwalked
  | @failed position i e u hnext hrun =>
    have hi := mem_of_nextPending? hnext
    have hpending := pending_of_nextPending? hnext
    have hobeys := obeys_execute (b := b) (fun _ _ hrule => ⟨hrule.1.1, fun _ => trivial⟩)
      hwalked.steady (hwalked.steady i hi (.inl trivial))
    obtain ⟨hwf, -, hrecorded⟩ :=
      execute_marks (b := b) (fun marks _ => Recorded (log ++ completions b done) marks)
        hwalked.wellFormed hi hpending hwalked.recorded
        fun g hg marks created _ _ hedit hrecorded => hedit.recorded hrecorded
    have hfailed : completions b [⟨position, i, t⟩] = [] := by
      simp [completions, Visit.outcome, hrun, Except.isOk, Except.toBool]
    rw [hrun] at hobeys hwf hrecorded
    rw [completions_append, hfailed, List.append_nil]
    exact ⟨hwf, hobeys, hrecorded⟩

theorem process (h : Replayable log s.chain) (limit : Limit) (returnKey : Value) :
    Replayable (log ++ completions b (visits b limit.budget 0 s))
      (process b limit returnKey s).2.chain := by
  obtain ⟨result, formatted, hchain⟩ := chain_process b limit returnKey s
  have hwalked := h.walk (b := b) limit.budget
  rw [hchain]
  exact ⟨⟨hwalked.wellFormed.opened, hwalked.wellFormed.overt, hwalked.wellFormed.orderly⟩,
    hwalked.steady, hwalked.recorded⟩

theorem perform (h : Replayable log s.chain) {command : Command}
    (hovert : ∀ index kind, command ≠ .retype index kind)
    (hcommand : command.Obeys Rule.steady) : Replayable log (s.perform b command).2.chain := by
  rw [chain_perform]
  exact ⟨h.wellFormed.perform hovert (hcommand.mono fun _ _ hrule => hrule.1.1),
    h.steady.perform command hcommand hovert fun _ => trivial,
    (h.wellFormed.edit hovert).recorded h.recorded⟩

end Replayable

/-- Whether a move is one of a user who changes no item by hand and whose hooks do not retry. -/
def Move.Steady : Move → Prop
  | command c => (∀ index kind, c ≠ .retype index kind) ∧ c.Obeys Rule.steady
  | process .. => True

theorem Replayable.play {moves : List Move} {log : List Nat} {s : Session ε}
    (h : Replayable log s.chain) (hmoves : ∀ move ∈ moves, move.Steady) :
    Replayable (log ++ completions b (visited b moves s)) (play b moves s).chain := by
  induction moves generalizing log s with
  | nil => simpa [visited, completions, Session.play] using h
  | cons move rest ih =>
    have hrest : ∀ other ∈ rest, other.Steady := fun other hother =>
      hmoves other (List.mem_cons_of_mem _ hother)
    have hmove := hmoves move List.mem_cons_self
    rw [visited, completions_append, ← List.append_assoc]
    refine ih ?_ hrest
    cases move with
    | command c =>
      have hnone : completions b ((Move.command c).visits b s) = [] := rfl
      rw [hnone, List.append_nil]
      exact h.perform hmove.1 hmove.2
    | process limit returnKey => exact h.process limit returnKey

/-! ## Retrying -/

theorem perform_retry (s : Session ε) :
    s.perform b .retry = (s.chain.retry.1, { s with chain := s.chain.retry.2 }) := by
  obtain ⟨chain, channel, env⟩ := s
  cases channel <;> rfl

end Session

namespace Chain

def repeatables (c : Chain) : List Nat := (c.marks.filter Mark.isRepeatable).map Mark.serial

def performed (c : Chain) : List Nat := (c.marks.filter Mark.isUndoable).map Mark.serial

def waiting (c : Chain) : List Nat := (c.marks.filter fun m => !m.executed).map Mark.serial

/-- A retry undoes the last executed prompt or hook of the queue, or is refused if there is none. -/
theorem retry_cases {c : Chain} (hwf : c.WellFormed) :
    (c.performed = [] ∧ c.retry = (.error .noPriorStep, c)) ∨
      ∃ front before i j after, c.performed = front ++ [i.serial] ∧
        c.queue.entries = before ++ i :: after ∧ i.Undone j ∧
        c.retry = (.ok .done,
          { c with queue := { c.queue with entries := before ++ j :: after } }) := by
  unfold performed marks retry
  rcases undoLast_spec hwf.native with ⟨hundo, hnone⟩ |
    ⟨before, i, j, after, hitems, hundone, hi, hafter, hundo⟩
  · left
    rw [hundo, List.filter_eq_nil_iff.mpr (by simpa using hnone)]
    exact ⟨rfl, rfl⟩
  · right
    refine ⟨((before.map Item.mark).filter Mark.isUndoable).map Mark.serial, before, i, j, after,
      ?_, hitems, hundone, by rw [hundo]⟩
    have hlast : (after.map Item.mark).filter Mark.isUndoable = [] :=
      List.filter_eq_nil_iff.mpr (by simpa using hafter)
    rw [hitems, List.map_append, List.map_cons, List.filter_append, List.filter_cons, hi, if_pos rfl,
      hlast, List.map_append]
    rfl

end Chain

theorem Recorded.performed {log : List Nat} {c : Chain} (h : Recorded log c.marks) :
    c.performed <+: c.repeatables ∧ LastInOrder log c.performed := by
  obtain ⟨front, back, hstaged, hlog⟩ := h
  have hperformed : c.performed = front.map Mark.serial := by
    rw [Chain.performed, hstaged.filter_undoable]
  rw [hperformed]
  refine ⟨⟨back.map Mark.serial, ?_⟩, hlog⟩
  rw [Chain.repeatables, hstaged.split, List.map_append]

namespace Session

variable {ε : Type} {b : Backend ε} {log : List Nat} {s : Session ε}

theorem exists_staged_retries (h : Replayable log s.chain)
    (hidle : ∀ m ∈ s.chain.marks, m.executed = true) {k : Nat}
    (hk : k ≤ s.chain.repeatables.length) :
    let u := play b (List.replicate k (.command .retry)) s
    Replayable log u.chain ∧ u.chain.created = s.chain.created ∧
      ∃ front back, Staged u.chain.marks front back ∧ back.length = k ∧
        (front ++ back).map Mark.serial = s.chain.repeatables ∧
        ∀ m ∈ u.chain.marks, m.isRepeatable = false → m.executed = true := by
  induction k with
  | zero =>
    refine ⟨h, rfl, s.chain.marks.filter Mark.isRepeatable, [], ⟨by simp [play], ?_, by simp⟩, rfl,
      by rw [List.append_nil, Chain.repeatables], fun m hm _ => hidle m hm⟩
    exact fun m hm => hidle m (List.mem_filter.mp hm).1
  | succ k ih =>
    obtain ⟨hu, hcreated, front, back, hstaged, hlength, hserials, hothers⟩ := ih (by omega)
    have hplay : play b (List.replicate (k + 1) (.command .retry)) s =
        ((play b (List.replicate k (.command .retry)) s).perform b .retry).2 := by
      simp [play, List.replicate_succ', Move.make]
    rw [hplay]
    generalize play b (List.replicate k (.command .retry)) s = u at hu hcreated hstaged hothers
    have hovert : ∀ index kind, Command.retry ≠ .retype index kind := by simp
    have hedit := hu.wellFormed.edit hovert
    rw [← chain_perform (b := b)] at hedit
    obtain ⟨hcreated', ⟨rfl, -⟩ | ⟨rest, m, rfl, hstaged', hfilter⟩⟩ := hedit.unstaged hstaged
    · rw [← hserials, List.nil_append, List.length_map, hlength] at hk
      omega
    refine ⟨hu.perform (by simp) (by simp [Command.Obeys]), hcreated'.trans hcreated, rest,
      m.pending :: back, hstaged', by simp [hlength], ?_, fun n hn hother => ?_⟩
    · rw [← hserials]
      simp [Mark.pending]
    · have hmem : n ∈ u.chain.marks.filter fun m => !m.isRepeatable := by
        rw [← hfilter]
        simp [hn, hother]
      exact hothers n (List.mem_filter.mp hmem).1 hother

theorem waiting_of_staged {c : Chain} {front back : List Mark} (h : Staged c.marks front back)
    (hothers : ∀ m ∈ c.marks, m.isRepeatable = false → m.executed = true) :
    c.waiting = back.map Mark.serial ∧ owing c.marks = back.map Mark.serial := by
  rw [Chain.waiting, owing, ← h.filter_pending, List.filter_filter]
  refine ⟨congrArg _ (List.filter_congr fun m hm => ?_),
    congrArg _ (List.filter_congr fun m hm => ?_)⟩
  · cases hrepeatable : m.isRepeatable with
    | false => simp [hothers m hm hrepeatable]
    | true => simp
  · cases hrepeatable : m.isRepeatable with
    | false => simp [hothers m hm hrepeatable]
    | true => simp [Mark.isSystem_of_isRepeatable hrepeatable]

theorem owing_commands (h : Replayable log s.chain) {more : List Command}
    (hmore : ∀ c ∈ more, (Move.command c).Steady ∧ c ≠ .retry) :
    let w := play b (more.map .command) s
    Replayable log w.chain ∧ s.chain.created ≤ w.chain.created ∧
      (∃ new, owing w.chain.marks = owing s.chain.marks ++ new ∧ ∀ n ∈ new, s.chain.created ≤ n) ∧
      ∀ n, PromptChain.Spent n s.chain.marks s.chain.created →
        PromptChain.Spent n w.chain.marks w.chain.created := by
  induction more generalizing s with
  | nil => exact ⟨h, Nat.le_refl _, ⟨[], by simp [play], by simp⟩, fun _ hn => hn⟩
  | cons c rest ih =>
    obtain ⟨⟨hovert, hobeys⟩, hretry⟩ := hmore c List.mem_cons_self
    have hedit := h.wellFormed.edit hovert
    rw [← chain_perform (b := b)] at hedit
    obtain ⟨hle, new, -, howing, hnew⟩ := hedit.tasks hretry
    obtain ⟨hw, hle', ⟨later, howing', hlater⟩, hspent⟩ :=
      ih (h.perform (b := b) hovert hobeys) fun c hc => hmore c (List.mem_cons_of_mem _ hc)
    refine ⟨hw, Nat.le_trans hle hle', ⟨new ++ later, ?_, ?_⟩, fun n hn => ?_⟩
    · rw [← List.append_assoc, ← howing]
      exact howing'
    · intro n hn
      rcases List.mem_append.mp hn with hn | hn
      · exact hnew n hn
      · exact Nat.le_trans hle (hlater n hn)
    · exact hspent n (hedit.spent hretry hn)

theorem owed_walk (hwf : s.chain.WellFormed) (hsteady : s.chain.Obeys Rule.steady False)
    (budget : Nat) :
    ∃ new, s.chain.owed (walk b budget 0 s).2.2.chain = owing s.chain.marks ++ new ∧
      ∀ n ∈ new, s.chain.created ≤ n := by
  obtain ⟨done, last, t, hwalks, hends⟩ := walk_ends b budget 0 s
  obtain ⟨htwf, htsteady, -, hle, new, htasks, -, hnew⟩ :=
    walks_account hwalks hwf hsteady (by simp [Passed])
  generalize walk b budget 0 s = result, visits b budget 0 s = visited at hends
  cases hends with
  | finished => exact ⟨new, owed_eq hwf htasks hnew, hnew⟩
  | paused => exact ⟨new, owed_eq hwf htasks hnew, hnew⟩
  | @failed position i e u hnext hrun =>
    have hi := mem_of_nextPending? hnext
    have hpending := pending_of_nextPending? hnext
    obtain ⟨-, more, htasks', -, hmore⟩ :=
      execute_account (b := b) htwf hi hpending (htsteady i hi (.inr hpending))
    rw [hrun, htasks, List.append_assoc] at htasks'
    have hnew' : ∀ n ∈ new ++ more, s.chain.created ≤ n := by
      intro n hn
      rcases List.mem_append.mp hn with hn | hn
      · exact hnew n hn
      · exact Nat.le_trans hle (hmore n hn)
    exact ⟨new ++ more, owed_eq hwf htasks' hnew', hnew'⟩

theorem visits_unspent {n : Nat} (budget index : Nat) (hwf : s.chain.WellFormed)
    (honward : s.chain.Obeys Rule.onward False)
    (h : PromptChain.Spent n s.chain.marks s.chain.created) :
    ∀ v ∈ visits b budget index s, v.item.serial ≠ n := by
  induction budget generalizing index s with
  | zero =>
    rw [visits]
    split <;> simp
  | succ budget ih =>
    rw [visits]
    split
    · simp
    next position i hnext =>
    have hi := mem_of_nextPending? hnext
    have hpending := pending_of_nextPending? hnext
    have hstep : i.step.Obeys Rule.onward := honward i hi (.inr hpending)
    have hfirst : i.serial ≠ n := by
      intro heq
      have hexecuted := h.2 i.mark (List.mem_map_of_mem hi) heq
      rw [show i.mark.executed = false from hpending] at hexecuted
      cases hexecuted
    have hspent := spent_execute (b := b) hwf hi hpending hstep h
    have hwf' := wellFormed_execute (b := b) hwf hi hpending
    have honward' := obeys_execute (b := b) (fun _ _ hrule => ⟨hrule.1, hrule.2⟩) honward hstep
    intro v hv
    rcases List.mem_cons.mp hv with rfl | hv
    · exact hfirst
    · split at hv
      · cases hv
      · next w t hrun =>
        rw [hrun] at hspent hwf' honward'
        exact ih (position + 1) (wellFormed_complete hwf' _ _) (obeys_complete honward' _ _)
          ⟨hspent.1, spent_complete (.inr hspent.2) w⟩ v hv

/-- Retries of a chain at rest, further commands and a run: the run executes what was retried, in
order, and else only what came since. -/
theorem rerun (h : Replayable log s.chain) (hidle : ∀ i ∈ s.chain.queue.entries, i.executed = true)
    {k : Nat} (hk : k ≤ s.chain.performed.length) :
    let u := play b (List.replicate k (.command .retry)) s
    let retried := s.chain.repeatables.drop (s.chain.performed.length - k)
    u.chain.waiting = retried ∧
      ∀ (more : List Command), (∀ c ∈ more, (Move.command c).Steady ∧ c ≠ .retry) →
        ∀ limit : Limit,
          let w := play b (more.map .command) u
          ∃ new, (∀ n ∈ new, s.chain.created ≤ n) ∧
            executions b limit w <+: retried ++ new ∧
            ((walk b limit.budget 0 w).1 = .finished → executions b limit w = retried ++ new) ∧
            ∀ v ∈ visits b limit.budget 0 w,
              v.item.serial ∈ retried ∨ s.chain.created ≤ v.item.serial := by
  intro u retried
  have hidle' : ∀ m ∈ s.chain.marks, m.executed = true := by
    intro m hm
    obtain ⟨i, hi, rfl⟩ := List.mem_map.mp hm
    exact hidle i hi
  have hlength : s.chain.performed.length = s.chain.repeatables.length := by
    rw [Chain.performed, Chain.repeatables, filter_undoable, List.filter_eq_self.mpr]
    exact fun m hm => hidle' m (List.mem_filter.mp hm).1
  obtain ⟨hu, hcreated, front, back, hstaged, hback, hserials, hothers⟩ :=
    exists_staged_retries (b := b) h hidle' (hlength ▸ hk)
  obtain ⟨hwaiting, howing⟩ := waiting_of_staged hstaged hothers
  have hretried : back.map Mark.serial = retried := by
    have hfront : (front.map Mark.serial).length = s.chain.performed.length - k := by
      rw [hlength, ← hserials]
      simp [hback]
    rw [List.map_append] at hserials
    show back.map Mark.serial = s.chain.repeatables.drop _
    rw [← hserials]
    exact (List.drop_left' hfront).symm
  rw [hretried] at hwaiting howing
  refine ⟨hwaiting, fun more hmore limit => ?_⟩
  intro w
  obtain ⟨hw, hle, ⟨later, howing', hlater⟩, hspent⟩ := owing_commands (b := b) hu hmore
  have hsteady : w.chain.Obeys Rule.steady False := fun i hi _ => hw.steady i hi (.inl trivial)
  obtain ⟨new, howed, hnew⟩ := owed_walk (b := b) hw.wellFormed hsteady limit.budget
  obtain ⟨hleading, hall⟩ := walk_account (b := b) hw.wellFormed hsteady limit.budget
  have hsplit : w.chain.owed (walk b limit.budget 0 w).2.2.chain = retried ++ (later ++ new) := by
    rw [howed, howing', howing, List.append_assoc]
  rw [hsplit] at hleading hall
  refine ⟨later ++ new, fun n hn => ?_, hleading, fun hfinished => (hall hfinished).1, ?_⟩
  · rw [← hcreated]
    rcases List.mem_append.mp hn with hn | hn
    · exact hlater n hn
    · exact Nat.le_trans hle (hnew n hn)
  · intro v hv
    by_cases hmem : v.item.serial ∈ retried
    · exact .inl hmem
    refine .inr (Nat.le_of_not_lt fun hlt => ?_)
    have hdone : PromptChain.Spent v.item.serial u.chain.marks u.chain.created := by
      refine ⟨hcreated ▸ hlt, fun m hm heq => ?_⟩
      by_contra hpending
      have hmem' : m.serial ∈ u.chain.waiting :=
        List.mem_map_of_mem (List.mem_filter.mpr ⟨hm, by simpa using hpending⟩)
      rw [hwaiting, heq] at hmem'
      exact hmem hmem'
    have honward : w.chain.Obeys Rule.onward False :=
      fun i hi hwatched => (hsteady i hi hwatched).mono fun _ _ hrule => ⟨hrule.1.1, hrule.2⟩
    exact visits_unspent limit.budget 0 hw.wellFormed honward (hspent _ hdone) v hv rfl

/-- **Retries undo executions from the last one on.**  Let a user give commands, retries among them,
and run the chain as often as wanted, and let no hook retry.  Then the executed prompts and hooks
come first among the prompts and hooks of the queue, in the order in which they were last executed.
A retry undoes the last of them, and nothing after the last execution of this one is still executed;
it is refused exactly if there is none, and changes nothing then.  If nothing is pending, then some
retries leave exactly as many prompts and hooks pending, the last ones of the queue, and the next
run executes them in order, then what was added since, and else nothing that was there before. -/
theorem retry_undoes_last {providers : List Value} {active system formatKey : Value}
    {s : Session ε} (hstart : Chain.start providers active system formatKey = .ok s.chain)
    (b : Backend ε) {moves : List Move} (hmoves : ∀ move ∈ moves, move.Steady) :
    let t := play b moves s
    let log := completions b (visited b moves s)
    (t.chain.performed <+: t.chain.repeatables ∧ LastInOrder log t.chain.performed ∧
      ∀ front n, t.chain.performed = front ++ [n] →
        (∃ earlier later, log = earlier ++ n :: later ∧ ∀ m ∈ t.chain.performed, m ∉ later) ∧
        ∃ before i j after, t.chain.queue.entries = before ++ i :: after ∧ i.serial = n ∧
          i.Undone j ∧ t.perform b .retry = (.ok .done,
            { t with chain := { t.chain with queue := { t.chain.queue with
              entries := before ++ j :: after } } })) ∧
    (((t.perform b .retry).1 = .error .noPriorStep ↔ t.chain.performed = []) ∧
      (t.chain.performed = [] → t.perform b .retry = (.error .noPriorStep, t))) ∧
    ((∀ i ∈ t.chain.queue.entries, i.executed = true) →
      ∀ k ≤ t.chain.performed.length,
        let u := play b (List.replicate k (.command .retry)) t
        let retried := t.chain.repeatables.drop (t.chain.performed.length - k)
        u.chain.waiting = retried ∧
          ∀ (more : List Command), (∀ c ∈ more, (Move.command c).Steady ∧ c ≠ .retry) →
            ∀ limit : Limit,
              let w := play b (more.map .command) u
              ∃ new, (∀ n ∈ new, t.chain.created ≤ n) ∧
                executions b limit w <+: retried ++ new ∧
                ((walk b limit.budget 0 w).1 = .finished →
                  executions b limit w = retried ++ new) ∧
                ∀ v ∈ visits b limit.budget 0 w,
                  v.item.serial ∈ retried ∨ t.chain.created ≤ v.item.serial) := by
  intro t log
  have hnew : Replayable [] s.chain := by
    refine ⟨wellFormed_start hstart, ?_, [], [], ?_, .nil _⟩
    all_goals
      obtain ⟨formatKey, hchain⟩ := start_eq hstart
      rw [hchain]
    · exact fun i hi => absurd hi (by simp)
    · exact ⟨rfl, by simp, by simp⟩
  have ht : Replayable log t.chain := by
    have hplayed := hnew.play (b := b) hmoves
    rwa [List.nil_append] at hplayed
  obtain ⟨hleading, hlog⟩ := ht.recorded.performed
  refine ⟨⟨hleading, hlog, fun front n hperformed => ⟨?_, ?_⟩⟩, ⟨?_, ?_⟩,
    fun hidle k hk => rerun ht hidle hk⟩
  · obtain ⟨earlier, later, hsplit, hlater⟩ := hlog front n [] hperformed
    exact ⟨earlier, later, hsplit, hperformed ▸ hlater⟩
  · rcases Chain.retry_cases ht.wellFormed with ⟨hnone, -⟩ |
      ⟨front', before, i, j, after, hlast, hentries, hundone, hretry⟩
    · rw [hnone] at hperformed
      simp at hperformed
    · rw [hlast] at hperformed
      obtain ⟨-, hserial⟩ := List.append_inj' hperformed rfl
      exact ⟨before, i, j, after, hentries, by simpa using hserial, hundone,
        by rw [perform_retry, hretry]⟩
  · rw [perform_retry]
    rcases Chain.retry_cases ht.wellFormed with ⟨hnone, hretry⟩ |
      ⟨front', before, i, j, after, hlast, hentries, hundone, hretry⟩
    · exact iff_of_true (by rw [hretry]) hnone
    · exact iff_of_false (by rw [hretry]; simp) (by rw [hlast]; simp)
  · intro hnone
    rw [perform_retry]
    rcases Chain.retry_cases ht.wellFormed with ⟨-, hretry⟩ | ⟨front', before, i, j, after, hlast, -⟩
    · rw [hretry]
    · rw [hlast] at hnone
      simp at hnone

/-- A hook that sets a system prompt and appends a prompt runs before another prompt; the system
prompt has a run of its own; the last prompt is sent once more. -/
def rounds : List Move :=
  [.command (.hook (.text "briefing") "briefing" briefing), .command (.prompt (.text "Hello")),
    .process (.all 3) .null, .process (.all 1) .null, .command .retry, .process (.all 1) .null]

/-- Two retries after these rounds leave the two prompts pending, of which one was sent twice. -/
theorem retry_undoes_last_rounds :
    let t := play Backend.scripted rounds (scripted [.text "one", .text "two", .text "three"])
    let u := play Backend.scripted (List.replicate 2 (.command .retry)) t
    t.chain.performed = [0, 1, 3] ∧
      LastInOrder [0, 1, 3, 3] [0, 1, 3] ∧
      (t.perform Backend.scripted .retry).1 ≠ .error .noPriorStep ∧
      u.chain.waiting = [1, 3] ∧
      ∀ limit : Limit, ∃ new, (∀ n ∈ new, t.chain.created ≤ n) ∧
        executions Backend.scripted limit u <+: [1, 3] ++ new := by
  have hstart : Chain.start [Chain.fastKey] Chain.fastKey = .ok (scripted
      [.text "one", .text "two", .text "three"]).chain := by rfl
  have hbriefing : ∀ runs, (briefing runs).Obeys Rule.steady := by
    intro runs
    simp only [briefing, Script.Obeys, Command.Obeys, Rule.steady, Rule.frank, Rule.overt]
    refine ⟨⟨⟨by simp, ?_⟩, by simp⟩, by simp⟩
    rintro lines e ⟨⟩ hjoin
    cases hjoin
  have hmoves : ∀ move ∈ rounds, move.Steady := by
    simpa [rounds, Move.Steady, Command.Obeys] using hbriefing
  have hcompletions : completions Backend.scripted (visited Backend.scripted rounds
      (scripted [.text "one", .text "two", .text "three"])) = [0, 1, 3, 3] := by decide +kernel
  have hperformed : (play Backend.scripted rounds (scripted
      [.text "one", .text "two", .text "three"])).chain.performed = [0, 1, 3] := by decide +kernel
  have hrepeatables : (play Backend.scripted rounds (scripted
      [.text "one", .text "two", .text "three"])).chain.repeatables = [0, 1, 3] := by
    decide +kernel
  have hall : (play Backend.scripted rounds (scripted
      [.text "one", .text "two", .text "three"])).chain.queue.entries.all Item.executed = true := by
    decide +kernel
  have hretries := retry_undoes_last hstart Backend.scripted hmoves
  rw [hcompletions] at hretries
  generalize play Backend.scripted rounds (scripted [.text "one", .text "two", .text "three"]) = t
    at hperformed hrepeatables hall hretries ⊢
  obtain ⟨⟨-, hlog, -⟩, ⟨hrefused, -⟩, hrerun⟩ := hretries
  obtain ⟨hwaiting, hrun⟩ := hrerun (List.all_eq_true.mp hall) 2 (by rw [hperformed]; decide)
  have hretried : t.chain.repeatables.drop (t.chain.performed.length - 2) = [1, 3] := by
    rw [hperformed, hrepeatables]
    rfl
  rw [hretried] at hwaiting hrun
  refine ⟨hperformed, hperformed ▸ hlog, fun heq => ?_, hwaiting, fun limit => ?_⟩
  · have hnone := hrefused.mp heq
    rw [hperformed] at hnone
    cases hnone
  · obtain ⟨new, hnew, hleading, -⟩ := hrun [] (by simp) limit
    exact ⟨new, hnew, hleading⟩

end Session

end PromptChain
