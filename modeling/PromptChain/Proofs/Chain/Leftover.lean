import PromptChain.Proofs.Chain.Reachable
/-!
# What a run leaves pending

The position of a walk never moves back.  So a hook leaves a step behind when it
sets a system prompt, which goes to the front of the queue, and when it retries a
step that the walk has passed.  In no other way does a run without a limit return
with a step pending.
-/

namespace PromptChain

/-- Whether a command makes a step pending that stands at a position of the queue or before it: any
system prompt does, and so does a retry of a step that stands there. -/
def Command.GoesBack (position : Nat) (marks : List Mark) : Command → Prop
  | .system lines => ∃ text, lines.joinInput = .ok text
  | .retry =>
    (∃ m ∈ marks.take (position + 1), m.isUndoable = true) ∧
      ∀ m ∈ marks.drop (position + 1), m.isUndoable = false
  | _ => False

/-- Whether the hook that a visit runs makes a step pending that the walk has passed. -/
def Session.Visit.GoesBack {ε : Type} (b : Backend ε) (v : Session.Visit ε) : Prop :=
  ∃ g ∈ v.orders b, g.2.GoesBack v.position g.1.chain.marks

def Behind (index : Nat) (marks : List Mark) : Prop :=
  ∃ m ∈ marks.take index, m.executed = false

def BehindBut (index serial : Nat) (marks : List Mark) : Prop :=
  ∃ m ∈ marks.take index, m.executed = false ∧ m.serial ≠ serial

/-! ## Edits -/

theorem take_append_cons (before after : List Mark) (m : Mark) (index : Nat) :
    (before ++ m :: after).take index =
      before.take index ++
        if before.length < index then m :: after.take (index - before.length - 1) else [] := by
  rw [List.take_append]
  congr 1
  split
  · next hlt =>
    obtain ⟨rest, hrest⟩ := Nat.exists_eq_add_of_lt hlt
    have hsub : index - before.length = rest + 1 := by omega
    rw [hsub, List.take_succ_cons]
    simp
  · next hle =>
    have hsub : index - before.length = 0 := by omega
    rw [hsub, List.take_zero]

theorem Command.not_goesBack {command : Command} (hsystem : ∀ lines, command ≠ .system lines)
    (hretry : command ≠ .retry) (position : Nat) (marks : List Mark) :
    ¬command.GoesBack position marks := by
  cases command with
  | system lines => exact absurd rfl (hsystem lines)
  | retry => exact absurd rfl hretry
  | _ => exact id

theorem goesBack_retry_iff {before after : List Mark} {m : Mark} (hm : m.isUndoable = true)
    (hafter : ∀ n ∈ after, n.isUndoable = false) (position : Nat) :
    Command.retry.GoesBack position (before ++ m :: after) ↔ before.length < position + 1 := by
  constructor
  · rintro ⟨-, hdrop⟩
    by_contra hle
    have hmem : m ∈ (before ++ m :: after).drop (position + 1) := by
      rw [List.drop_append_of_le_length (by omega)]
      simp
    simp [hdrop m hmem] at hm
  · intro hlt
    refine ⟨⟨m, ?_, hm⟩, ?_⟩
    · rw [take_append_cons, if_pos hlt]
      simp
    · intro n hn
      have hsub : position + 1 - before.length = position - before.length + 1 := by omega
      rw [List.drop_append, List.drop_of_length_le (by omega), List.nil_append, hsub,
        List.drop_succ_cons] at hn
      exact hafter n (List.mem_of_mem_drop hn)

/-- An edit leaves a step pending behind a position if one is already there, or if the command goes
back. -/
theorem Edit.behindBut_iff {marks marks' : List Mark} {created created' position serial : Nat}
    {command : Command} (hedit : Edit marks created command marks' created')
    (hjoin : ∀ lines, command = .system lines → ∃ text, lines.joinInput = .ok text)
    (hserial : serial < created) (hlength : position + 1 ≤ marks.length)
    (hpending : ∀ m ∈ marks, m.serial = serial → m.executed = false) :
    BehindBut (position + 1) serial marks' ↔
      BehindBut (position + 1) serial marks ∨ command.GoesBack position marks := by
  cases hedit with
  | keep hsystem hretry =>
    simp [Command.not_goesBack hsystem hretry]
  | append kind hsystem hretry =>
    simp [Command.not_goesBack hsystem hretry, BehindBut,
      List.take_append_of_le_length hlength]
  | @evict lines e herror =>
    obtain ⟨text, htext⟩ := hjoin lines rfl
    rw [herror] at htext
    cases htext
  | @replace lines text hok =>
    have hback : (Command.system lines).GoesBack position marks := ⟨text, hok⟩
    refine iff_of_true ⟨⟨created, false, Step.systemKind⟩, by simp, rfl, ?_⟩ (.inr hback)
    exact Nat.ne_of_gt hserial
  | stuck hnone =>
    have hback : ¬Command.retry.GoesBack position marks := by
      rintro ⟨⟨m, hm, hundo⟩, -⟩
      simp [hnone m (List.mem_of_mem_take hm)] at hundo
    simp [hback]
  | @undo before after m hmarks hundo hafter =>
    -- The step that is retried was executed, so it is not the running one.
    subst hmarks
    have hexecuted : m.executed = true := by
      simp only [Mark.isUndoable, Bool.and_eq_true] at hundo
      exact hundo.1
    rw [goesBack_retry_iff hundo hafter]
    by_cases hlt : before.length < position + 1
    · refine iff_of_true ⟨m.pending, ?_, rfl, ?_⟩ (.inr hlt)
      · rw [take_append_cons, if_pos hlt]
        simp
      · intro heq
        have hm := hpending m (by simp) heq
        rw [hexecuted] at hm
        cases hm
    · simp [BehindBut, take_append_cons, hlt]

namespace Session

variable {ε : Type} {b : Backend ε}

/-! ## Visits -/

theorem behindBut_runScript {s : Session ε} {i : Item} {position : Nat} {script : Script}
    {v : Value} (hwf : s.chain.WellFormed) (hholds : s.chain.Holds i.mark)
    (hpending : i.executed = false) (hlength : position + 1 ≤ s.chain.marks.length)
    (hfrank : script.Obeys Rule.frank) (hrun : (runScript b script s).1 = .ok v) :
    (runScript b script s).2.chain.Holds i.mark ∧
      (BehindBut (position + 1) i.serial (runScript b script s).2.chain.marks ↔
        BehindBut (position + 1) i.serial s.chain.marks ∨
          ∃ g ∈ given b script s, g.2.GoesBack position g.1.chain.marks) := by
  have hjoined := joined_of_frank (b := b) hfrank hrun
  have hran := runScript_effect_iff (b := b)
    (fun t => t.chain.WellFormed ∧ t.chain.Holds i.mark ∧ position + 1 ≤ t.chain.marks.length)
    (fun t => BehindBut (position + 1) i.serial t.chain.marks)
    (fun g => g.2.GoesBack position g.1.chain.marks) script ⟨hwf, hholds, hlength⟩ ?_
  · exact ⟨hran.1.2.1, hran.2⟩
  · intro g hg ⟨hc, hc', hle⟩
    obtain ⟨⟨next, ⟨hovert, -⟩⟩, hcommand⟩ := given_obeys hfrank g hg
    have hedit := hc.edit hovert
    rw [chain_perform]
    refine ⟨⟨hc.perform hovert (hcommand.mono fun _ _ h => h.1), hc'.edit hpending hedit,
      Nat.le_trans hle (hedit.length_le hc.orderly (hjoined g hg))⟩, ?_⟩
    apply hedit.behindBut_iff (hjoined g hg) hc'.created hle
    intro m hm hserial
    rw [hc'.unique m hm hserial]
    exact hpending

/-- What stands pending behind the position of an item that is executed, other than the item itself,
stood there before or is there because the execution goes back. -/
theorem behindBut_execute {s : Session ε} {index position : Nat} {i : Item} {v : Value}
    (hwf : s.chain.WellFormed)
    (hnext : nextPending? s.chain.queue.entries index = some (position, i))
    (hfrank : i.step.Obeys Rule.frank) (hrun : (s.execute b i).1 = .ok v) :
    BehindBut (position + 1) i.serial (s.execute b i).2.chain.marks ↔
      BehindBut (position + 1) i.serial s.chain.marks ∨ (Visit.mk position i s).GoesBack b := by
  obtain ⟨-, -, -, -, hlength, -⟩ := marks_of_nextPending? hnext
  have hi := mem_of_nextPending? hnext
  have hpending := pending_of_nextPending? hnext
  by_cases hhook : ∃ shown run runs last, i.step = .hook shown run runs last
  · obtain ⟨shown, run, runs, last, hstep⟩ := hhook
    have hrunning := Item.Touch.running shown run runs last
    have hfinished := Item.Touch.finished shown run runs last v
    rw [← hstep] at hrunning hfinished
    rw [hstep] at hfrank
    -- What the hook does to its own item, before and after its commands, changes no mark.
    obtain ⟨hwf', hholds', hmarks⟩ := hwf.touch (hwf.holds hi) hrunning
    obtain ⟨hran, hend⟩ := execute_hook hstep hrun
    obtain ⟨hheld, hiff⟩ := behindBut_runScript hwf' hholds' hpending (hmarks ▸ hlength)
      (hfrank (runs + 1)) hran
    have hend' := Chain.marks_touch hheld hfinished
    have horders : orders b s i =
        given b (run (runs + 1)) (s.modifyItem i.serial Item.running) := by
      simp only [orders, hstep]
    rw [hend, Visit.GoesBack, Visit.orders, horders, ← hmarks]
    exact (iff_of_eq (congrArg (BehindBut (position + 1) i.serial) hend')).trans hiff
  · have horders : orders b s i = [] := by
      unfold orders
      split
      · next shown run runs last hstep => exact absurd ⟨shown, run, runs, last, hstep⟩ hhook
      · rfl
    have hmarks : (s.execute b i).2.chain.marks = s.chain.marks :=
      (execute_marks (b := b) (fun marks _ => marks = s.chain.marks) hwf hi hpending rfl
        (by simp [horders])).2.2
    simp [hmarks, Visit.GoesBack, Visit.orders, horders]

theorem behind_complete (s : Session ε) (index serial : Nat) (v : Value) :
    Behind index (s.complete serial v).chain.marks ↔ BehindBut index serial s.chain.marks := by
  rw [marks_complete, Behind, ← List.map_take]
  constructor
  · rintro ⟨n, hn, hpending⟩
    obtain ⟨m, hm, rfl⟩ := List.mem_map.mp hn
    by_cases hserial : m.serial = serial
    · simp [Mark.finish, hserial, Mark.done] at hpending
    · exact ⟨m, hm, by simpa [Mark.finish, hserial] using hpending, hserial⟩
  · rintro ⟨m, hm, hpending, hserial⟩
    exact ⟨m.finish serial, List.mem_map_of_mem hm, by simpa [Mark.finish, hserial] using hpending⟩

theorem behindBut_nextPending?_iff {s : Session ε} {index position : Nat} {i : Item}
    (hwf : s.chain.WellFormed)
    (hnext : nextPending? s.chain.queue.entries index = some (position, i)) :
    BehindBut (position + 1) i.serial s.chain.marks ↔ Behind index s.chain.marks := by
  obtain ⟨skipped, rest, hmarks, htake, -, hskipped⟩ := marks_of_nextPending? hnext
  rw [BehindBut, htake, Behind]
  constructor
  · rintro ⟨m, hm, hpending, hserial⟩
    simp only [List.mem_append, List.mem_singleton] at hm
    rcases hm with (hm | hm) | rfl
    · exact ⟨m, hm, hpending⟩
    · rw [hskipped m hm] at hpending
      cases hpending
    · exact absurd rfl hserial
  · rintro ⟨m, hm, hpending⟩
    refine ⟨m, by simp [hm], hpending, ?_⟩
    intro hserial
    have hdistinct := hwf.orderly.distinct
    rw [hmarks, List.append_assoc, List.map_append, List.nodup_append] at hdistinct
    exact hdistinct.2.2 m.serial (List.mem_map_of_mem hm) i.serial (by simp [Item.mark]) hserial

/-! ## Walks -/

theorem behind_walks {index last : Nat} {s t : Session ε} {done : List (Visit ε)}
    (h : Walks b index s done last t) (hwf : s.chain.WellFormed)
    (hfrank : s.chain.Obeys Rule.frank True) :
    Behind last t.chain.marks ↔ Behind index s.chain.marks ∨ ∃ v ∈ done, v.GoesBack b := by
  induction h with
  | stay => simp
  | @step index position last s t u i v done hnext hrun rest ih =>
    have hi := mem_of_nextPending? hnext
    have hstep := hfrank i hi (.inl trivial)
    have hbehind := behindBut_execute (b := b) (v := v) hwf hnext hstep (by rw [hrun])
    have htwf := wellFormed_execute (b := b) hwf hi (pending_of_nextPending? hnext)
    have htfrank := obeys_execute (b := b) (fun _ _ h => ⟨h.1, fun _ => trivial⟩) hfrank hstep
    rw [hrun] at hbehind htwf htfrank
    rw [ih (wellFormed_complete htwf _ _) (obeys_complete htfrank _ _), behind_complete, hbehind,
      behindBut_nextPending?_iff hwf hnext, or_assoc]
    simp only [List.mem_cons, exists_eq_or_imp]

theorem pending_iff_behind {s : Session ε} {index : Nat}
    (h : nextPending? s.chain.queue.entries index = none) :
    (∃ i ∈ s.chain.queue.entries, i.executed = false) ↔ Behind index s.chain.marks := by
  rw [Behind, Chain.marks, ← List.map_take]
  constructor
  · rintro ⟨i, hi, hpending⟩
    rw [← List.take_append_drop index s.chain.queue.entries] at hi
    rcases List.mem_append.mp hi with hi | hi
    · exact ⟨i.mark, List.mem_map_of_mem hi, hpending⟩
    · rw [of_nextPending?_eq_none h i hi] at hpending
      cases hpending
  · rintro ⟨m, hm, hpending⟩
    obtain ⟨i, hi, rfl⟩ := List.mem_map.mp hm
    exact ⟨i, List.mem_of_mem_take hi, hpending⟩

theorem pending_walk_iff {s : Session ε} (hwf : s.chain.WellFormed)
    (hfrank : s.chain.Obeys Rule.frank True) {budget : Nat}
    (hfinished : (walk b budget 0 s).1 = .finished) :
    (∃ i ∈ (walk b budget 0 s).2.2.chain.queue.entries, i.executed = false) ↔
      ∃ v ∈ visits b budget 0 s, v.GoesBack b := by
  obtain ⟨done, last, t, hwalks, hends⟩ := walk_ends b budget 0 s
  have hbehind := behind_walks hwalks hwf hfrank
  generalize walk b budget 0 s = result, visits b budget 0 s = visited at hends hfinished ⊢
  cases hends with
  | finished hnext =>
    rw [pending_iff_behind hnext, hbehind]
    simp [Behind]
  | paused => cases hfinished
  | failed => cases hfinished

theorem visits_ne_nil_iff (s : Session ε) (budget : Nat) :
    visits b (budget + 1) 0 s ≠ [] ↔ ∃ i ∈ s.chain.queue.entries, i.executed = false := by
  rw [visits]
  cases hnext : nextPending? s.chain.queue.entries 0 with
  | none => simpa using of_nextPending?_eq_none hnext
  | some found =>
    exact iff_of_true (by simp) ⟨found.2, mem_of_nextPending? hnext, pending_of_nextPending? hnext⟩

/-- **No step is left behind, except behind the walk.** A run without a limit that returns leaves a
step pending, which a further run would execute, if and only if one of the hooks that it ran went
back: it set a system prompt, or retried a step that the walk had passed.  (A hook that offers for a
system prompt what makes no text is taken to fail.) -/
theorem exists_pending_iff {s t : Session ε} (hs : Reachable s)
    (hfrank : s.chain.Obeys Rule.frank True) {b : Backend ε} {fuel : Nat} {returnKey w : Value}
    (hreturn : process b (.all fuel) returnKey s = (some (.ok w), t)) :
    ((∃ i ∈ t.chain.queue.entries, i.executed = false) ↔
      ∃ v ∈ visits b fuel 0 s, v.GoesBack b) ∧
    ∀ more, visits b (more + 1) 0 t ≠ [] ↔ ∃ i ∈ t.chain.queue.entries, i.executed = false := by
  obtain ⟨result, formatted, hchain⟩ := chain_process b (.all fuel) returnKey s
  have hfinished : (walk b fuel 0 s).1 = .finished :=
    finished_of_process (congrArg Prod.fst hreturn)
  have hwalk := pending_walk_iff hs.wellFormed hfrank hfinished
  rw [hreturn] at hchain
  refine ⟨?_, visits_ne_nil_iff t⟩
  rw [hchain]
  exact hwalk

def tone : Hook := fun _ =>
  .call (.system (.text "Be terse")) fun _ => .finish (.ok (.text "done"))

/-- A new chain that runs a hook which sets a system prompt returns with this one pending. -/
theorem pending_tone :
    let s := ((scripted []).perform Backend.scripted (.hook (.text "tone") "tone" tone)).2
    let t := (process Backend.scripted (.all 1) .null s).2
    process Backend.scripted (.all 1) .null s = (some (.ok (.text "done")), t) ∧
      t.chain.queue.entries.map Item.executed = [false, true] ∧
      ∃ v ∈ visits Backend.scripted 1 0 s, v.GoesBack Backend.scripted := by
  intro s t
  have htone : ∀ runs, (tone runs).Obeys Rule.frank := by
    intro runs
    simp only [tone, Script.Obeys, Command.Obeys, Rule.frank, Rule.overt]
    refine ⟨⟨by simp, ?_⟩, by simp⟩
    rintro lines e ⟨⟩ hjoin
    cases hjoin
  have hs : Reachable s := by
    apply (reachable_scripted []).perform
    · simp
    · rw [Command.Obeys]
      exact fun runs => (htone runs).mono fun _ _ h => h.1
  have hfrank : s.chain.Obeys Rule.frank True := by
    intro i hi _
    rw [List.mem_singleton.mp hi]
    exact htone
  have hreturn : process Backend.scripted (.all 1) .null s = (some (.ok (.text "done")), t) := rfl
  have hexecuted : t.chain.queue.entries.map Item.executed = [false, true] := rfl
  refine ⟨hreturn, hexecuted, (exists_pending_iff hs hfrank hreturn).1.mp ?_⟩
  have hfalse : false ∈ t.chain.queue.entries.map Item.executed := by simp [hexecuted]
  obtain ⟨i, hi, hpending⟩ := List.mem_map.mp hfalse
  exact ⟨i, hi, hpending⟩

end Session

end PromptChain
