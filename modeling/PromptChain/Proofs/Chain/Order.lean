import PromptChain.Proofs.Chain.Reachable
/-!
# The order of execution

Hooks may put a system prompt at the front of the queue or append steps while
the queue is walked, and so move every item under the position of the walk.
Still a run executes exactly the steps that are owed, each once and in the order
of the queue.
-/

namespace PromptChain

def tasks (marks : List Mark) : List Nat :=
  (marks.filter fun m => !m.isSystem).map Mark.serial

def owing (marks : List Mark) : List Nat :=
  (marks.filter fun m => !m.isSystem && !m.executed).map Mark.serial

/-- The serial numbers of the steps, system prompts apart, that stand in a queue later and were not
executed before. -/
def Chain.owed (before after : Chain) : List Nat :=
  (after.queue.entries.filter fun i =>
    !i.isSystem && !before.queue.entries.any fun j => j.serial == i.serial && j.executed).map
      Item.serial

def Session.taskSerials {ε : Type} (done : List (Session.Visit ε)) : List Nat :=
  (done.filter fun v => !v.item.isSystem).map fun v => v.item.serial

/-- The serial numbers of the steps, system prompts apart, that a run executes, in order. -/
def Session.executions {ε : Type} (b : Backend ε) (limit : Session.Limit) (s : Session ε) :
    List Nat :=
  Session.taskSerials (Session.visits b limit.budget 0 s)

/-! ## Edits -/

theorem owing_append (front back : List Mark) :
    owing (front ++ back) = owing front ++ owing back := by
  simp [owing]

theorem owing_cons (m : Mark) (rest : List Mark) :
    owing (m :: rest) =
      (if !m.isSystem && !m.executed then [m.serial] else []) ++ owing rest := by
  cases hm : !m.isSystem && !m.executed <;> simp [owing, hm]

theorem owing_eq_nil {marks : List Mark}
    (h : ∀ m ∈ marks, m.isSystem = true ∨ m.executed = true) : owing marks = [] := by
  simp only [owing, List.map_eq_nil_iff, List.filter_eq_nil_iff]
  intro m hm
  rcases h m hm with h | h <;> simp [h]

theorem owing_finish (marks : List Mark) (serial : Nat) :
    owing (marks.map (Mark.finish serial)) = (owing marks).filter fun n => n ≠ serial := by
  induction marks with
  | nil => rfl
  | cons m rest ih =>
    rw [List.map_cons, owing_cons, owing_cons m, List.filter_append, ih]
    congr 1
    by_cases hserial : m.serial = serial
    · have hdone : (m.finish serial).executed = true := by
        simp [Mark.finish, hserial, Mark.done]
      cases hm : !m.isSystem && !m.executed <;> simp [hdone, hserial]
    · have hsame : m.finish serial = m := by simp [Mark.finish, hserial]
      rw [hsame]
      cases hm : !m.isSystem && !m.executed <;> simp [hserial]

theorem Edit.tasks {marks marks' : List Mark} {created created' : Nat} {command : Command}
    (hedit : Edit marks created command marks' created') (hretry : command ≠ .retry) :
    created ≤ created' ∧ ∃ new, PromptChain.tasks marks' = PromptChain.tasks marks ++ new ∧
      owing marks' = owing marks ++ new ∧ ∀ n ∈ new, created ≤ n := by
  cases hedit with
  | keep => exact ⟨Nat.le_refl _, [], by simp, by simp, by simp⟩
  | append kind _ _ hkind =>
    refine ⟨Nat.le_succ _, [created], ?_, ?_, by simp⟩
    · simp [PromptChain.tasks, Mark.isSystem, hkind]
    · simp [owing, Mark.isSystem, hkind]
  | evict =>
    refine ⟨Nat.le_refl _, [], ?_, ?_, by simp⟩
    · simp [PromptChain.tasks]
    · simp [owing, Bool.and_comm, Bool.and_left_comm]
  | replace =>
    refine ⟨Nat.le_succ _, [], ?_, ?_, by simp⟩
    · simp [PromptChain.tasks, Mark.isSystem]
    · simp [owing, Mark.isSystem, Bool.and_comm, Bool.and_left_comm]
  | stuck => exact absurd rfl hretry
  | undo => exact absurd rfl hretry

/-- Whether the steps before a position are executed, except system prompts and perhaps the step
with a serial number. -/
def PassedBut (index serial : Nat) (marks : List Mark) : Prop :=
  ∀ m ∈ marks.take index, m.isSystem = true ∨ m.executed = true ∨ m.serial = serial

def Passed (index : Nat) (marks : List Mark) : Prop :=
  ∀ m ∈ marks.take index, m.isSystem = true ∨ m.executed = true

/-- An edit shifts no step over a position but a system prompt, unless it takes one away without
putting another in its place. -/
theorem Edit.passedBut {marks marks' : List Mark} {created created' index serial : Nat}
    {command : Command} (hedit : Edit marks created command marks' created')
    (horderly : Orderly marks created) (hretry : command ≠ .retry)
    (hjoin : ∀ lines, command = .system lines → ∃ text, lines.joinInput = .ok text)
    (h : index ≤ marks.length ∧ PassedBut index serial marks) :
    index ≤ marks'.length ∧ PassedBut index serial marks' := by
  obtain ⟨hlength, hpassed⟩ := h
  refine ⟨Nat.le_trans hlength (hedit.length_le horderly hjoin), ?_⟩
  cases hedit with
  | keep => exact hpassed
  | append kind =>
    rw [PassedBut, List.take_append_of_le_length hlength]
    exact hpassed
  | @evict lines e herror =>
    obtain ⟨text, htext⟩ := hjoin lines rfl
    rw [herror] at htext
    cases htext
  | replace =>
    -- The new system prompt takes the place of an old one, or moves every step back by one.
    have htake : ∀ m ∈ (marks.filter fun m => !m.isSystem).take (index - 1),
        m ∈ marks.take index := by
      intro m hm
      rcases horderly.filter_cases with heq | ⟨first, heq⟩
      · rw [heq] at hm
        exact List.take_subset_take_left _ (Nat.sub_le index 1) hm
      · rw [heq]
        cases index with
        | zero => simp at hm
        | succ index =>
          rw [List.take_succ_cons]
          exact List.mem_cons_of_mem _ hm
    intro m hm
    cases index with
    | zero => simp at hm
    | succ index =>
      rw [List.take_succ_cons] at hm
      rcases List.mem_cons.mp hm with rfl | hm
      · exact .inl (by simp [Mark.isSystem])
      · exact hpassed m (htake m hm)
  | stuck => exact absurd rfl hretry
  | undo => exact absurd rfl hretry

namespace Session

variable {ε : Type} {b : Backend ε}

/-! ## Walks -/

/-- What walks execute and what they leave pending is what was pending and what they add. -/
theorem execute_account {s : Session ε} {i : Item} (hwf : s.chain.WellFormed)
    (hi : i ∈ s.chain.queue.entries) (hpending : i.executed = false)
    (hsteady : i.step.Obeys Rule.steady) :
    s.chain.created ≤ (s.execute b i).2.chain.created ∧
      ∃ new, tasks (s.execute b i).2.chain.marks = tasks s.chain.marks ++ new ∧
        owing (s.execute b i).2.chain.marks = owing s.chain.marks ++ new ∧
        ∀ n ∈ new, s.chain.created ≤ n := by
  refine (execute_marks (b := b) (fun marks created => s.chain.created ≤ created ∧
    ∃ new, tasks marks = tasks s.chain.marks ++ new ∧ owing marks = owing s.chain.marks ++ new ∧
      ∀ n ∈ new, s.chain.created ≤ n) hwf hi hpending ?_ ?_).2.2
  · exact ⟨Nat.le_refl _, [], by simp, by simp, by simp⟩
  · intro g hg marks created hc hholds hedit ⟨hle, new, htasks, howing, hnew⟩
    obtain ⟨⟨next, hrule⟩, -⟩ := orders_obey hsteady g hg
    obtain ⟨hle', more, htasks', howing', hmore⟩ := hedit.tasks hrule.2
    refine ⟨Nat.le_trans hle hle', new ++ more, ?_, ?_, ?_⟩
    · rw [htasks', htasks, List.append_assoc]
    · rw [howing', howing, List.append_assoc]
    · intro n hn
      rcases List.mem_append.mp hn with hn | hn
      · exact hnew n hn
      · exact Nat.le_trans hle (hmore n hn)

theorem execute_passed {s : Session ε} {i : Item} {v : Value} {index position : Nat}
    (hwf : s.chain.WellFormed) (hpassed : Passed index s.chain.marks)
    (hnext : nextPending? s.chain.queue.entries index = some (position, i))
    (hsteady : i.step.Obeys Rule.steady) (hrun : (s.execute b i).1 = .ok v) :
    PassedBut (position + 1) i.serial (s.execute b i).2.chain.marks := by
  obtain ⟨skipped, rest, hmarks, htake, hlength, hskipped⟩ := marks_of_nextPending? hnext
  have hjoined := joined_of_execute (b := b) (hsteady.mono fun _ _ h => h.1) hrun
  refine (execute_marks (b := b)
    (fun marks _ => position + 1 ≤ marks.length ∧
      PassedBut (position + 1) i.serial marks) hwf (mem_of_nextPending? hnext)
    (pending_of_nextPending? hnext) ?_ ?_).2.2.2
  · refine ⟨hlength, ?_⟩
    rw [PassedBut, htake]
    intro m hm
    simp only [List.mem_append, List.mem_singleton] at hm
    rcases hm with (hm | hm) | rfl
    · exact (hpassed m hm).imp_right .inl
    · exact .inr (.inl (hskipped m hm))
    · exact .inr (.inr rfl)
  · intro g hg marks created hc hholds hedit h
    obtain ⟨⟨next, hrule⟩, -⟩ := orders_obey hsteady g hg
    exact hedit.passedBut hc.orderly hrule.2 (hjoined g hg) h

theorem Passed.complete {s : Session ε} {index serial : Nat}
    (h : PassedBut index serial s.chain.marks) (v : Value) :
    Passed index (s.complete serial v).chain.marks := by
  rw [marks_complete, Passed, ← List.map_take]
  intro m hm
  obtain ⟨n, hn, rfl⟩ := List.mem_map.mp hm
  rcases h n hn with hsystem | hexecuted | hserial
  · exact .inl (by simpa using hsystem)
  · right
    unfold Mark.finish
    split
    · rfl
    · exact hexecuted
  · exact .inr (by simp [Mark.finish, hserial, Mark.done])

theorem taskSerials_cons (v : Visit ε) (done : List (Visit ε)) :
    taskSerials (v :: done) =
      (if !v.item.isSystem then [v.item.serial] else []) ++ taskSerials done := by
  cases hv : !v.item.isSystem <;> simp [taskSerials, hv]

theorem taskSerials_append (front back : List (Visit ε)) :
    taskSerials (front ++ back) = taskSerials front ++ taskSerials back := by
  simp [taskSerials]

theorem owing_of_nextPending? {s : Session ε} {index position : Nat} {i : Item}
    (hwf : s.chain.WellFormed) (hpassed : Passed index s.chain.marks)
    (hnext : nextPending? s.chain.queue.entries index = some (position, i)) :
    ∃ rest, owing s.chain.marks = (if !i.isSystem then [i.serial] else []) ++ rest ∧
      i.serial ∉ rest := by
  obtain ⟨skipped, rest, hmarks, -, -, hskipped⟩ := marks_of_nextPending? hnext
  have hpending := pending_of_nextPending? hnext
  have hdistinct := hwf.orderly.distinct
  refine ⟨owing rest, ?_, ?_⟩
  · have hfront := owing_eq_nil hpassed
    have hmiddle := owing_eq_nil fun m hm => .inr (hskipped m hm)
    have hhead : (!i.mark.isSystem && !i.mark.executed) = !i.isSystem := by
      rw [Item.isSystem_mark, show i.mark.executed = false from hpending]
      simp
    rw [hmarks, owing_append, owing_append, hfront, hmiddle, owing_cons, hhead]
    rfl
  · rw [hmarks, List.map_append, List.map_cons, List.nodup_append, List.nodup_cons] at hdistinct
    intro hmem
    obtain ⟨m, hm, hserial⟩ := List.mem_map.mp hmem
    exact hdistinct.2.1.1 (List.mem_map.mpr ⟨m, (List.mem_filter.mp hm).1, hserial⟩)

theorem tasks_finish (marks : List Mark) (serial : Nat) :
    tasks (marks.map (Mark.finish serial)) = tasks marks := by
  simp [tasks, List.filter_map, Function.comp_def]

/-- What a step executes and what it leaves pending is what was pending and what it adds. -/
theorem step_account {s t : Session ε} {i : Item} {v : Value} {index position : Nat}
    (hwf : s.chain.WellFormed) (hpassed : Passed index s.chain.marks)
    (hnext : nextPending? s.chain.queue.entries index = some (position, i))
    (hsteady : i.step.Obeys Rule.steady) (hrun : s.execute b i = (.ok v, t)) :
    s.chain.created ≤ (t.complete i.serial v).chain.created ∧
      ∃ new, tasks (t.complete i.serial v).chain.marks = tasks s.chain.marks ++ new ∧
        (if !i.isSystem then [i.serial] else []) ++ owing (t.complete i.serial v).chain.marks =
          owing s.chain.marks ++ new ∧
        ∀ n ∈ new, s.chain.created ≤ n := by
  have hi := mem_of_nextPending? hnext
  obtain ⟨hle, new, htasks, howing, hnew⟩ :=
    execute_account (b := b) hwf hi (pending_of_nextPending? hnext) hsteady
  obtain ⟨rest, hrest, habsent⟩ := owing_of_nextPending? hwf hpassed hnext
  have hfresh : i.serial < s.chain.created := (hwf.holds hi).created
  rw [hrun] at hle htasks howing
  refine ⟨hle, new, ?_, ?_, hnew⟩
  · rw [marks_complete, tasks_finish, htasks]
  · have hkeep : (rest.filter fun n => n ≠ i.serial) = rest := by
      rw [List.filter_eq_self]
      intro n hn
      simpa using fun heq : n = i.serial => habsent (heq ▸ hn)
    have hkeepNew : (new.filter fun n => n ≠ i.serial) = new := by
      rw [List.filter_eq_self]
      intro n hn
      have hlt := hnew n hn
      simp only [decide_eq_true_eq]
      omega
    have hdrop : ((if !i.isSystem then [i.serial] else []).filter fun n => n ≠ i.serial) = [] := by
      cases i.isSystem <;> simp
    rw [marks_complete, owing_finish, howing, hrest, List.filter_append, List.filter_append,
      hdrop, hkeep, hkeepNew, List.nil_append, List.append_assoc]

theorem walks_account {index last : Nat} {s t : Session ε} {done : List (Visit ε)}
    (h : Walks b index s done last t) (hwf : s.chain.WellFormed)
    (hsteady : s.chain.Obeys Rule.steady False) (hpassed : Passed index s.chain.marks) :
    t.chain.WellFormed ∧ t.chain.Obeys Rule.steady False ∧ Passed last t.chain.marks ∧
      s.chain.created ≤ t.chain.created ∧
      ∃ new, tasks t.chain.marks = tasks s.chain.marks ++ new ∧
        taskSerials done ++ owing t.chain.marks = owing s.chain.marks ++ new ∧
        ∀ n ∈ new, s.chain.created ≤ n := by
  induction h with
  | stay =>
    exact ⟨hwf, hsteady, hpassed, Nat.le_refl _, [], by simp, by simp [taskSerials], by simp⟩
  | @step index position last s t u i v done hnext hrun rest ih =>
    have hi := mem_of_nextPending? hnext
    have hpending := pending_of_nextPending? hnext
    have hstep : i.step.Obeys Rule.steady := hsteady i hi (.inr hpending)
    have htwf := wellFormed_execute (b := b) hwf hi hpending
    have htsteady := obeys_execute (b := b)
      (fun _ _ h => ⟨h.1.1, h.2⟩) hsteady hstep
    have htpassed := execute_passed (b := b) (v := v) hwf hpassed hnext hstep (by rw [hrun])
    rw [hrun] at htwf htsteady htpassed
    obtain ⟨hle, new, htasks, howing, hnew⟩ := step_account hwf hpassed hnext hstep hrun
    obtain ⟨hwf', hsteady', hpassed', hle', more, htasks', howing', hmore⟩ :=
      ih (wellFormed_complete htwf _ _) (obeys_complete htsteady _ _)
        (Passed.complete htpassed v)
    -- What the first step adds stands before what the others add.
    refine ⟨hwf', hsteady', hpassed', Nat.le_trans hle hle', new ++ more, ?_, ?_, ?_⟩
    · rw [htasks', htasks, List.append_assoc]
    · rw [taskSerials_cons, List.append_assoc, howing', ← List.append_assoc, howing,
        List.append_assoc]
    · intro n hn
      rcases List.mem_append.mp hn with hn | hn
      · exact hnew n hn
      · exact Nat.le_trans hle (hmore n hn)

/-! ## What is owed -/

theorem owed_eq_filter (before after : Chain) :
    before.owed after = (tasks after.marks).filter fun n =>
      !before.marks.any fun m => m.serial == n && m.executed := by
  simp only [Chain.owed, tasks, Chain.marks, List.filter_map, List.map_map, List.filter_filter,
    List.any_map]
  congr 1
  apply List.filter_congr
  intro i _
  exact Bool.and_comm _ _

theorem owed_eq {before after : Chain} {new : List Nat} (hwf : before.WellFormed)
    (htasks : tasks after.marks = tasks before.marks ++ new)
    (hnew : ∀ n ∈ new, before.created ≤ n) : before.owed after = owing before.marks ++ new := by
  rw [owed_eq_filter, htasks, List.filter_append]
  congr 1
  · rw [tasks, owing, List.filter_map, List.filter_filter]
    congr 1
    apply List.filter_congr
    intro m hm
    have hany : (before.marks.any fun n => n.serial == m.serial && n.executed) = m.executed := by
      rw [Bool.eq_iff_iff, List.any_eq_true]
      constructor
      · rintro ⟨n, hn, hmatch⟩
        simp only [Bool.and_eq_true, beq_iff_eq] at hmatch
        rw [← hwf.orderly.eq_of_serial_eq hn hm hmatch.1]
        exact hmatch.2
      · intro hexecuted
        exact ⟨m, hm, by simp [hexecuted]⟩
    simp only [Function.comp_apply, hany]
    exact Bool.and_comm _ _
  · rw [List.filter_eq_self]
    intro n hn
    have hle := hnew n hn
    simp only [Bool.not_eq_true', List.any_eq_false, Bool.and_eq_true, beq_iff_eq, not_and]
    intro m hm hserial
    have hlt := hwf.orderly.fresh m hm
    omega

theorem owed_nodup {before after : Chain} (h : after.WellFormed) : (before.owed after).Nodup := by
  rw [owed_eq_filter]
  exact (h.orderly.distinct.sublist (List.filter_sublist.map _)).filter _

theorem owed_sublist (before after : Chain) :
    (before.owed after).Sublist (after.queue.entries.map Item.serial) :=
  List.filter_sublist.map _

/-- The steps that a walk executes come first among those that are owed after it, and are all of
them if no step fails. -/
theorem walk_account {s : Session ε} (hwf : s.chain.WellFormed)
    (hsteady : s.chain.Obeys Rule.steady False) (budget : Nat) :
    let walked := (walk b budget 0 s).2.2.chain
    taskSerials (visits b budget 0 s) <+: s.chain.owed walked ∧
      ((walk b budget 0 s).1 = .finished →
        taskSerials (visits b budget 0 s) = s.chain.owed walked ∧
          ∀ i ∈ walked.queue.entries, i.isSystem = false → i.executed = true) := by
  obtain ⟨done, last, t, hwalks, hends⟩ := walk_ends b budget 0 s
  obtain ⟨htwf, htsteady, hpassed, hle, new, htasks, howing, hnew⟩ :=
    walks_account hwalks hwf hsteady (by simp [Passed])
  generalize walk b budget 0 s = result, visits b budget 0 s = visited at hends
  cases hends with
  | finished hnext =>
    have hexecuted : ∀ m ∈ t.chain.marks, m.isSystem = true ∨ m.executed = true := by
      intro m hm
      rw [← List.take_append_drop last t.chain.marks] at hm
      rcases List.mem_append.mp hm with hm | hm
      · exact hpassed m hm
      · rw [Chain.marks, ← List.map_drop] at hm
        obtain ⟨i, hi, rfl⟩ := List.mem_map.mp hm
        exact .inr (of_nextPending?_eq_none hnext i hi)
    have howed : taskSerials done = s.chain.owed t.chain := by
      rw [owed_eq hwf htasks hnew, ← howing, owing_eq_nil hexecuted, List.append_nil]
    refine ⟨howed ▸ List.prefix_refl _, fun _ => ⟨howed, ?_⟩⟩
    intro i hi hsystem
    rcases hexecuted i.mark (List.mem_map_of_mem hi) with h | h
    · rw [Item.isSystem_mark, hsystem] at h
      cases h
    · exact h
  | paused hnext hbudget =>
    refine ⟨⟨owing t.chain.marks, ?_⟩, by simp⟩
    rw [howing, owed_eq hwf htasks hnew]
  | @failed position i e u hnext hrun =>
    have hi := mem_of_nextPending? hnext
    have hpending := pending_of_nextPending? hnext
    obtain ⟨-, more, htasks', -, hmore⟩ :=
      execute_account (b := b) htwf hi hpending (htsteady i hi (.inr hpending))
    obtain ⟨rest, hrest, -⟩ := owing_of_nextPending? htwf hpassed hnext
    rw [hrun, htasks, List.append_assoc] at htasks'
    refine ⟨⟨rest ++ more, ?_⟩, by simp⟩
    have howed : s.chain.owed u.chain = owing s.chain.marks ++ (new ++ more) := by
      apply owed_eq hwf htasks'
      intro n hn
      rcases List.mem_append.mp hn with hn | hn
      · exact hnew n hn
      · exact Nat.le_trans hle (hmore n hn)
    rw [howed, ← List.append_assoc (owing s.chain.marks), ← howing, hrest, taskSerials_append]
    simp only [taskSerials_cons, List.append_assoc]
    rfl

/-- **Exactly once, in order.** A run of a chain whose pending hooks neither retry nor hide that
they were refused a system prompt executes steps from the front of what is owed: the prompts,
changes of the provider and hooks that were pending at its start or were appended since, in the
order of the queue.  It executes all of them if it comes to its end and no step fails. -/
theorem executions_prefix_owed {s : Session ε} (hs : Reachable s)
    (hsteady : s.chain.Obeys Rule.steady False) (b : Backend ε) (fuel : Nat) (returnKey : Value) :
    let t := (process b (.all fuel) returnKey s).2
    executions b (.all fuel) s <+: s.chain.owed t.chain ∧
      (s.chain.owed t.chain).Nodup ∧
      (s.chain.owed t.chain).Sublist (t.chain.queue.entries.map Item.serial) ∧
      ((walk b fuel 0 s).1 = .finished →
        executions b (.all fuel) s = s.chain.owed t.chain ∧
          ∀ i ∈ t.chain.queue.entries, i.isSystem = false → i.executed = true) := by
  obtain ⟨result, formatted, hchain⟩ := chain_process b (.all fuel) returnKey s
  have htwf := wellFormed_process hs.wellFormed b (.all fuel) returnKey
  have haccount := walk_account (b := b) hs.wellFormed hsteady fuel
  have howed : s.chain.owed (process b (.all fuel) returnKey s).2.chain =
      s.chain.owed (walk b fuel 0 s).2.2.chain := by
    rw [hchain]
    rfl
  refine ⟨?_, owed_nodup htwf, owed_sublist _ _, ?_⟩
  · rw [howed]
    exact haccount.1
  · intro hfinished
    obtain ⟨hall, hexecuted⟩ := haccount.2 hfinished
    refine ⟨howed ▸ hall, ?_⟩
    rw [hchain]
    exact hexecuted

def briefing : Hook := fun _ =>
  .call (.system (.text "Be terse")) fun _ =>
    .call (.prompt (.text "Sum up")) fun _ => .finish (.ok .null)

/-- A system prompt at the front of the queue moves the items that a walk has still to come to, and
still each is executed once. -/
theorem executions_briefing :
    let s := (((scripted [.text "one", .text "two"]).perform Backend.scripted
      (.hook (.text "briefing") "briefing" briefing)).2.perform Backend.scripted
      (.prompt (.text "Hello"))).2
    let t := (process Backend.scripted (.all 3) .null s).2
    t.chain.queue.entries.map Item.serial = [2, 0, 1, 3] ∧
      s.chain.owed t.chain = [0, 1, 3] ∧
      executions Backend.scripted (.all 3) s = [0, 1, 3] := by
  intro s t
  have hbriefing : ∀ runs, (briefing runs).Obeys Rule.steady := by
    intro runs
    simp only [briefing, Script.Obeys, Command.Obeys, Rule.steady, Rule.frank, Rule.overt]
    refine ⟨⟨⟨by simp, ?_⟩, by simp⟩, by simp⟩
    rintro lines e ⟨⟩ hjoin
    cases hjoin
  have hs : Reachable s := by
    apply Reachable.perform
    · apply (reachable_scripted _).perform
      · simp
      · rw [Command.Obeys]
        exact fun runs => (hbriefing runs).mono fun _ _ h => h.1.1
    · simp
    · simp [Command.Obeys]
  have hsteady : s.chain.Obeys Rule.steady False := by
    have hnew : (scripted [.text "one", .text "two"]).chain.Obeys Rule.steady False :=
      fun i hi => absurd hi (by simp [scripted])
    have hhook := hnew.perform (.hook (.text "briefing") "briefing" briefing)
      (by rw [Command.Obeys]; exact hbriefing) (by simp) (by simp)
    exact hhook.perform (.prompt (.text "Hello")) (by simp [Command.Obeys]) (by simp) (by simp)
  have howed : s.chain.owed t.chain = [0, 1, 3] := by decide +kernel
  obtain ⟨-, -, -, hall⟩ := executions_prefix_owed hs hsteady Backend.scripted 3 .null
  have hfinished : (walk Backend.scripted 3 0 s).1 = .finished := by decide +kernel
  refine ⟨by decide +kernel, howed, ?_⟩
  rw [← howed]
  exact (hall hfinished).1

end Session

end PromptChain
