import PromptChain.Proofs.Chain.Drain
import PromptChain.Proofs.Chain.WellFormed
/-!
# Reachable sessions

Executing steps and running chains keeps chains well formed, and so does whatever
else a user may do through the interface of a chain.
-/

namespace PromptChain

/-! ## Executions -/

theorem Item.Touch.executed {step : Step} {f : Item → Item} (h : Item.Touch step f) (i : Item) :
    (f i).executed = i.executed := by
  cases h with
  | answered => rfl
  | running =>
    unfold Item.running
    split <;> rfl
  | finished =>
    unfold Item.finished
    split <;> rfl

theorem Item.Touch.serial {step : Step} {f : Item → Item} (h : Item.Touch step f) (i : Item) :
    (f i).serial = i.serial := by
  cases h with
  | answered => rfl
  | running =>
    unfold Item.running
    split <;> rfl
  | finished =>
    unfold Item.finished
    split <;> rfl

theorem Item.Touch.mark {step : Step} {f : Item → Item} (h : Item.Touch step f) {i : Item}
    (hkind : i.step.kind = step.kind) : (f i).mark = i.mark := by
  cases h with
  | answered p q => exact congrArg (Mark.mk i.serial i.executed) hkind.symm
  | running =>
    unfold Item.running
    split
    · next hstep => simp [Item.mark, hstep, Step.kind]
    · rfl
  | finished =>
    unfold Item.finished
    split
    · next hstep => simp [Item.mark, hstep, Step.kind]
    · next hstep => simp [Item.mark, hstep, Step.kind]
    · rfl

theorem Item.Touch.obeys {rule : Rule} {step : Step} {f : Item → Item}
    (h : Item.Touch step f) {i : Item} (hi : i.step.Obeys rule) : (f i).step.Obeys rule := by
  cases h with
  | answered => trivial
  | running =>
    unfold Item.running
    split
    · next hstep =>
      rw [hstep] at hi
      exact hi
    · exact hi
  | finished =>
    unfold Item.finished
    split
    · next hstep =>
      rw [hstep] at hi
      exact hi
    · next hstep =>
      rw [hstep] at hi
      exact hi.elim
    · exact hi

theorem Chain.marks_modifyItem {c : Chain} {serial : Nat} {step : Step} {f : Item → Item}
    (hf : Item.Touch step f)
    (hkind : ∀ i ∈ c.queue.entries, i.serial = serial → i.step.kind = step.kind) :
    (c.modifyItem serial f).marks = c.marks := by
  simp only [Chain.marks, Chain.modifyItem, List.map_map]
  apply List.map_congr_left
  intro i hi
  by_cases hserial : i.serial = serial
  · simp only [Function.comp_apply, hserial, if_true]
    exact hf.mark (hkind i hi hserial)
  · simp [hserial]

theorem Chain.Holds.kind {c : Chain} {i j : Item} (h : c.Holds i.mark)
    (hj : j ∈ c.queue.entries) (hserial : j.serial = i.serial) : j.step.kind = i.step.kind :=
  congrArg Mark.kind (h.unique j.mark (List.mem_map_of_mem hj) hserial)

theorem Chain.marks_touch {c : Chain} {i : Item} {f : Item → Item} (h : c.Holds i.mark)
    (hf : Item.Touch i.step f) : (c.modifyItem i.serial f).marks = c.marks :=
  marks_modifyItem hf fun _ => h.kind

theorem Chain.WellFormed.touch {c : Chain} {i : Item} {f : Item → Item} (h : c.WellFormed)
    (hholds : c.Holds i.mark) (hf : Item.Touch i.step f) :
    (c.modifyItem i.serial f).WellFormed ∧ (c.modifyItem i.serial f).Holds i.mark ∧
      (c.modifyItem i.serial f).marks = c.marks := by
  have hmarks := Chain.marks_touch hholds hf
  refine ⟨⟨h.opened, ?_, ?_⟩, ⟨hholds.created, ?_⟩, hmarks⟩
  · exact h.overt.modifyItem _ (fun j hj => (hf.executed j) ▸ hj) fun j hj => hf.obeys hj
  · exact hmarks ▸ h.orderly
  · exact hmarks ▸ hholds.unique

def Mark.finish (serial : Nat) (m : Mark) : Mark := if m.serial = serial then m.done else m

@[simp] theorem Mark.serial_finish (serial : Nat) (m : Mark) :
    (m.finish serial).serial = m.serial := by
  unfold finish
  split <;> rfl

@[simp] theorem Mark.isSystem_finish (serial : Nat) (m : Mark) :
    (m.finish serial).isSystem = m.isSystem := by
  unfold finish
  split <;> rfl

theorem Chain.marks_done (c : Chain) (serial : Nat) :
    (c.modifyItem serial Item.done).marks = c.marks.map (Mark.finish serial) := by
  simp only [Chain.modifyItem, Chain.marks, List.map_map]
  apply List.map_congr_left
  intro i _
  by_cases hserial : i.serial = serial <;>
    simp [Mark.finish, Item.mark, Item.done, Mark.done, hserial]

theorem Orderly.finish {marks : List Mark} {created : Nat} (h : Orderly marks created)
    (serial : Nat) : Orderly (marks.map (Mark.finish serial)) created where
  distinct := by
    have hserials : (Mark.serial ∘ Mark.finish serial) = Mark.serial := by
      funext m
      simp
    rw [List.map_map, hserials]
    exact h.distinct
  fresh m hm := by
    obtain ⟨n, hn, rfl⟩ := List.mem_map.mp hm
    simpa using h.fresh n hn
  front m hm := by
    rw [← List.map_tail] at hm
    obtain ⟨n, hn, rfl⟩ := List.mem_map.mp hm
    simpa using h.front n hn

namespace Session

variable {ε : Type} {b : Backend ε}

theorem marks_complete (s : Session ε) (serial : Nat) (v : Value) :
    (s.complete serial v).chain.marks = s.chain.marks.map (Mark.finish serial) :=
  Chain.marks_done _ serial

theorem obeys_complete {rule : Rule} {all : Prop} {s : Session ε}
    (h : s.chain.Obeys rule all) (serial : Nat) (v : Value) :
    (s.complete serial v).chain.Obeys rule all :=
  Chain.Obeys.modifyItem (c := { s.chain with last := if v = .null then s.chain.last else v }) h
    serial (by simp [Item.done]) fun _ hi => hi

theorem orders_obey {rule : Rule} {s : Session ε} {i : Item} (h : i.step.Obeys rule) :
    ∀ g ∈ orders b s i, (∃ next, rule g.2 next) ∧ g.2.Obeys rule := by
  obtain ⟨serial, label, executed, step, result⟩ := i
  cases step with
  | hook shown run runs last => exact given_obeys (h (runs + 1))
  | _ => simp [orders]

theorem joined_of_execute {s : Session ε} {i : Item} {v : Value}
    (hfrank : i.step.Obeys Rule.frank) (hrun : (s.execute b i).1 = .ok v) :
    ∀ g ∈ orders b s i, ∀ lines, g.2 = .system lines → ∃ text, lines.joinInput = .ok text := by
  obtain ⟨serial, label, executed, step, result⟩ := i
  cases step with
  | hook shown run runs last => exact joined_of_frank (hfrank (runs + 1)) (execute_hook rfl hrun).1
  | _ => simp [orders]

theorem obeys_execute {rule : Rule} {all : Prop} {s : Session ε} {i : Item}
    (hrule : ∀ command next, rule command next →
      Rule.overt command next ∧ (command = .retry → all))
    (h : s.chain.Obeys rule all) (hi : i.step.Obeys rule) :
    (s.execute b i).2.chain.Obeys rule all := by
  apply execute_invariant fun c => c.Obeys rule all
  · exact fun c history artifacts active systemText hc => hc
  · exact h
  · intro c f hf hc
    exact hc.modifyItem _ (fun j hj => (hf.executed j) ▸ hj) fun j hj => hf.obeys hj
  · intro g hg hc
    obtain ⟨⟨next, hnext⟩, hcommand⟩ := orders_obey hi g hg
    obtain ⟨hovert, hretry⟩ := hrule g.2 next hnext
    exact hc.perform g.2 hcommand hovert hretry

/-- What touching its item, writing beside the queue and obeying its commands preserve of
well-formed chains that hold an item, the execution of the item preserves. -/
theorem execute_held (invariant : Chain → Prop) (haside : Chain.Aside invariant)
    {s : Session ε} {i : Item} (hwf : s.chain.WellFormed) (hholds : s.chain.Holds i.mark)
    (hovert : i.step.Obeys Rule.overt) (hpending : i.executed = false) (hs : invariant s.chain)
    (htouch : ∀ (c : Chain) (f : Item → Item), Item.Touch i.step f → c.Holds i.mark →
      invariant c → invariant (c.modifyItem i.serial f))
    (horders : ∀ g ∈ orders b s i, g.1.chain.WellFormed → g.1.chain.Holds i.mark →
      invariant g.1.chain → invariant (g.1.chain.perform g.2).2.1) :
    (s.execute b i).2.chain.WellFormed ∧ (s.execute b i).2.chain.Holds i.mark ∧
      invariant (s.execute b i).2.chain := by
  apply execute_invariant fun c => c.WellFormed ∧ c.Holds i.mark ∧ invariant c
  · exact fun c history artifacts active systemText ⟨hc, hholds, hinv⟩ =>
      ⟨⟨hc.opened, hc.overt, hc.orderly⟩, ⟨hholds.created, hholds.unique⟩,
        haside c history artifacts active systemText hinv⟩
  · exact ⟨hwf, hholds, hs⟩
  · intro c f hf ⟨hc, hholds, hinv⟩
    obtain ⟨hc', hholds', -⟩ := hc.touch hholds hf
    exact ⟨hc', hholds', htouch c f hf hholds hinv⟩
  · intro g hg ⟨hc, hholds, hinv⟩
    obtain ⟨⟨next, hcommands⟩, hcommand⟩ := orders_obey hovert g hg
    exact ⟨hc.perform hcommands hcommand, hholds.edit hpending (hc.edit hcommands),
      horders g hg hc hholds hinv⟩

theorem execute_holding (invariant : Chain → Prop) (haside : Chain.Aside invariant)
    {s : Session ε} {i : Item} (hwf : s.chain.WellFormed) (hi : i ∈ s.chain.queue.entries)
    (hpending : i.executed = false) (hs : invariant s.chain)
    (htouch : ∀ (c : Chain) (f : Item → Item), Item.Touch i.step f → c.Holds i.mark →
      invariant c → invariant (c.modifyItem i.serial f))
    (horders : ∀ g ∈ orders b s i, g.1.chain.WellFormed → g.1.chain.Holds i.mark →
      invariant g.1.chain → invariant (g.1.chain.perform g.2).2.1) :
    (s.execute b i).2.chain.WellFormed ∧ (s.execute b i).2.chain.Holds i.mark ∧
      invariant (s.execute b i).2.chain :=
  execute_held invariant haside hwf (hwf.holds hi) (hwf.overt i hi (.inl trivial)) hpending hs
    htouch horders

theorem execute_marks (invariant : List Mark → Nat → Prop) {s : Session ε} {i : Item}
    (hwf : s.chain.WellFormed) (hi : i ∈ s.chain.queue.entries) (hpending : i.executed = false)
    (hs : invariant s.chain.marks s.chain.created)
    (horders : ∀ g ∈ orders b s i, ∀ marks created, g.1.chain.WellFormed →
      g.1.chain.Holds i.mark → Edit g.1.chain.marks g.1.chain.created g.2 marks created →
      invariant g.1.chain.marks g.1.chain.created → invariant marks created) :
    (s.execute b i).2.chain.WellFormed ∧ (s.execute b i).2.chain.Holds i.mark ∧
      invariant (s.execute b i).2.chain.marks (s.execute b i).2.chain.created := by
  refine execute_holding (fun c => invariant c.marks c.created) ?_ hwf hi hpending hs ?_ ?_
  · exact fun c history artifacts active systemText hinv => hinv
  · intro c f hf hholds hinv
    rw [Chain.marks_touch hholds hf]
    exact hinv
  · intro g hg hc hholds hinv
    obtain ⟨⟨next, hovert⟩, -⟩ := orders_obey (hwf.overt i hi (.inl trivial)) g hg
    exact horders g hg _ _ hc hholds (hc.edit hovert) hinv

theorem wellFormed_complete {s : Session ε} (h : s.chain.WellFormed) (serial : Nat) (v : Value) :
    (s.complete serial v).chain.WellFormed where
  opened := h.opened
  overt := obeys_complete h.overt serial v
  orderly := by
    rw [marks_complete]
    exact h.orderly.finish serial

theorem wellFormed_execute {s : Session ε} {i : Item} (h : s.chain.WellFormed)
    (hi : i ∈ s.chain.queue.entries) (hpending : i.executed = false) :
    (s.execute b i).2.chain.WellFormed :=
  (execute_marks (fun _ _ => True) h hi hpending trivial
    fun _ _ _ _ _ _ _ _ => trivial).1

theorem wellFormed_walks {index last : Nat} {s t : Session ε} {done : List (Visit ε)}
    (h : Walks b index s done last t) (hs : s.chain.WellFormed) : t.chain.WellFormed := by
  induction h with
  | stay => exact hs
  | @step index position last s t u i v done hnext hrun rest ih =>
    have ht := wellFormed_execute (b := b) hs (mem_of_nextPending? hnext)
      (pending_of_nextPending? hnext)
    rw [hrun] at ht
    exact ih (wellFormed_complete ht _ _)

theorem wellFormed_walk {s : Session ε} (hs : s.chain.WellFormed) (budget index : Nat) :
    (walk b budget index s).2.2.chain.WellFormed := by
  obtain ⟨done, last, t, hwalks, hends⟩ := walk_ends b budget index s
  have ht := wellFormed_walks hwalks hs
  generalize walk b budget index s = result, visits b budget index s = visited at hends
  cases hends with
  | finished => exact ht
  | paused => exact ht
  | failed hnext hrun =>
    have hu := wellFormed_execute (b := b) ht (mem_of_nextPending? hnext)
      (pending_of_nextPending? hnext)
    rw [hrun] at hu
    exact hu

/-! ## Runs -/

theorem walk_invariant (invariant : Session ε → Prop)
    (hexecute : ∀ s i, invariant s → invariant (s.execute b i).2)
    (hcomplete : ∀ s serial v, invariant s → invariant (s.complete serial v))
    (budget index : Nat) {s : Session ε} (hs : invariant s) :
    invariant (walk b budget index s).2.2 := by
  induction budget generalizing index s with
  | zero =>
    rw [walk]
    split <;> exact hs
  | succ budget ih =>
    rw [walk]
    split
    · exact hs
    next i _ =>
    have hexecuted := hexecute s i hs
    dsimp only
    split
    · next heq =>
      rw [heq] at hexecuted
      exact hexecuted
    · next heq =>
      rw [heq] at hexecuted
      exact ih _ (hcomplete _ _ _ hexecuted)

theorem chain_settle (s : Session ε) (returnKey : Value) :
    ∃ result, (s.settle returnKey).2.chain = { s.chain with result } := by
  unfold settle
  split
  · exact ⟨s.chain.result, rfl⟩
  split
  · exact ⟨s.chain.result, rfl⟩
  · exact ⟨s.chain.last, rfl⟩

theorem env_settle (s : Session ε) (returnKey : Value) : (s.settle returnKey).2.env = s.env := by
  unfold settle
  split
  · rfl
  split <;> rfl

theorem settle_null (s : Session ε) :
    s.settle .null =
      if s.chain.last = .null then (.error .emptyResult, s)
      else (.ok s.chain.last, { s with chain := { s.chain with result := s.chain.last } }) := by
  simp only [settle, Value.isFalsy, Bool.not_true, Bool.false_eq_true, if_false]

section Invariant

variable (invariant : Session ε → Prop)
  (hperform : ∀ s command, invariant s → invariant (s.perform b command).2)

include hperform

theorem performAll_invariant (commands : List Command) {s : Session ε} (hs : invariant s) :
    invariant (s.performAll b commands).2 := by
  induction commands generalizing s with
  | nil => exact hs
  | cons command rest ih =>
    have hperformed := hperform s command hs
    rw [performAll]
    split
    · next heq =>
      rw [heq] at hperformed
      exact hperformed
    · next heq =>
      rw [heq] at hperformed
      exact ih hperformed

theorem performWith_invariant {α : Type} (given : Except Fault α) (commands : α → List Command)
    {s : Session ε} (hs : invariant s) : invariant (s.performWith b given commands).2 := by
  cases given with
  | error e => exact hs
  | ok x => exact performAll_invariant invariant hperform (commands x) hs

theorem request_invariant (v : Value) (schema : Schema) {s : Session ε} (hs : invariant s) :
    invariant (s.request b v schema).2 := by
  unfold request
  split
  · exact hs
  have hsystem := performAll_invariant invariant hperform [.system (linesValue reshapeSystem)] hs
  split
  · next heq =>
    rw [heq] at hsystem
    exact hsystem
  next heq =>
  rw [heq] at hsystem
  have hschema := performWith_invariant invariant hperform (schemaText schema)
    (fun d => [.insert (.text "schema") d]) hsystem
  split
  · next heq =>
    rw [heq] at hschema
    exact hschema
  · next heq =>
    rw [heq] at hschema
    exact performWith_invariant invariant hperform _ _ hschema

variable {run : Session ε → Answer × Session ε}
  (hrun : ∀ s, invariant s → invariant (run s).2)

include hrun

theorem correct_invariant (schema : Schema) (response : Value) {s : Session ε}
    (hs : invariant s) : invariant (correct b run schema response s).2 := by
  unfold correct
  split
  · exact hs
  next e _ =>
  have hasked := performWith_invariant invariant hperform (schemaText schema)
    (fun d => [.build (correctionEdits e.message response d)]) hs
  split
  · next heq =>
    rw [heq] at hasked
    exact hasked
  next t heq =>
  rw [heq] at hasked
  have hran := hrun t hasked
  split <;>
  · next heq =>
    rw [heq] at hran
    exact hran

theorem reshapeWith_invariant (v : Value) (schema : Schema) {s : Session ε} (hs : invariant s) :
    invariant (reshapeWith b run v schema s).2 := by
  have hasked := request_invariant invariant hperform v schema hs
  unfold reshapeWith
  split
  · next heq =>
    rw [heq] at hasked
    exact hasked
  next t heq =>
  rw [heq] at hasked
  have hran := hrun t hasked
  split
  · next heq =>
    rw [heq] at hran
    exact correct_invariant invariant hperform hrun schema _ hran
  · next heq =>
    rw [heq] at hran
    exact hran

end Invariant

theorem chain_reshapeApart (b : Backend ε) (v : Value) (schema : Schema) (s : Session ε) :
    (reshapeApart b v schema s).2.chain = s.chain := by
  unfold reshapeApart
  split <;> rfl

theorem formatLast_cases (b : Backend ε) (schema : Schema) (count : Nat) (s : Session ε) :
    (∃ w t, reshapeApart b s.chain.last schema s = (some (.ok w), t) ∧
      formatLast b schema count s =
        (some (.ok w), { t with chain := { t.chain with result := w, formatted := true } })) ∨
    ((∀ w, (formatLast b schema count s).1 ≠ some (.ok w)) ∧
      (formatLast b schema count s).2.chain = s.chain) ∨
    (count = 0 ∧ s.chain.formatted = true ∧
      formatLast b schema count s = (some (.ok s.chain.result), s)) := by
  unfold formatLast
  split
  · split
    · exact .inr (.inl ⟨by simp, rfl⟩)
    · have hapart := chain_reshapeApart b s.chain.last schema s
      split
      · next w t heq => exact .inl ⟨w, t, heq, rfl⟩
      · next answer t hne heq =>
        rw [heq] at hapart
        exact .inr (.inl ⟨fun w hw => hne w hw, hapart⟩)
  · next hcond =>
    rw [not_or, Nat.not_lt, Nat.le_zero, Bool.not_eq_false] at hcond
    exact .inr (.inr ⟨hcond.1, hcond.2, rfl⟩)

theorem chain_formatLast (b : Backend ε) (schema : Schema) (count : Nat) (s : Session ε) :
    ∃ result formatted,
      (formatLast b schema count s).2.chain = { s.chain with result, formatted } := by
  rcases formatLast_cases b schema count s with
    ⟨w, t, hreshape, hformat⟩ | ⟨-, hchain⟩ | ⟨-, -, hformat⟩
  · have hapart := chain_reshapeApart b s.chain.last schema s
    rw [hreshape] at hapart
    exact ⟨w, true, by simp [hformat, ← hapart]⟩
  · exact ⟨s.chain.result, s.chain.formatted, hchain⟩
  · exact ⟨s.chain.result, s.chain.formatted, by rw [hformat]⟩

/-- A run is broken off in the walk of its queue, or settles on something behind it. -/
theorem process_cases (b : Backend ε) (limit : Limit) (returnKey : Value) (s : Session ε) :
    ((walk b limit.budget 0 s).1 ≠ .finished ∧
      (∀ w, (process b limit returnKey s).1 ≠ some (.ok w)) ∧
      (process b limit returnKey s).2 = (walk b limit.budget 0 s).2.2) ∨
    ((∀ e, (walk b limit.budget 0 s).1 ≠ .failed e) ∧
      ((walk b limit.budget 0 s).1 = .paused → ∃ count, limit = .steps count) ∧
      process b limit returnKey s =
        match (walk b limit.budget 0 s).2.2.chain.formatter with
        | some schema =>
          formatLast b schema (walk b limit.budget 0 s).2.1 (walk b limit.budget 0 s).2.2
        | none => (some ((walk b limit.budget 0 s).2.2.settle returnKey).1,
            ((walk b limit.budget 0 s).2.2.settle returnKey).2)) := by
  unfold process walkThen
  rcases walk b limit.budget 0 s with ⟨stop, count, t⟩
  cases stop with
  | failed e => exact .inl ⟨by simp, by simp, rfl⟩
  | finished => exact .inr ⟨by simp, by simp, rfl⟩
  | paused =>
    cases limit with
    | steps bound => exact .inr ⟨by simp, by simp, rfl⟩
    | all fuel => exact .inl ⟨by simp, by simp, rfl⟩
    | invalid why => exact .inl ⟨by simp, by simp, rfl⟩

theorem finished_of_process {s : Session ε} {fuel : Nat} {returnKey w : Value}
    (h : (process b (.all fuel) returnKey s).1 = some (.ok w)) :
    (walk b fuel 0 s).1 = .finished := by
  rcases process_cases b (.all fuel) returnKey s with ⟨-, hanswer, -⟩ | ⟨hfailed, hpaused, -⟩
  · exact absurd h (hanswer w)
  · cases hstop : (walk b fuel 0 s).1 with
    | finished => rfl
    | paused =>
      obtain ⟨count, hlimit⟩ := hpaused hstop
      cases hlimit
    | failed e => exact absurd hstop (hfailed e)

theorem chain_process (b : Backend ε) (limit : Limit) (returnKey : Value) (s : Session ε) :
    ∃ result formatted, (process b limit returnKey s).2.chain =
      { (walk b limit.budget 0 s).2.2.chain with result, formatted } := by
  rcases process_cases b limit returnKey s with ⟨-, -, hprocess⟩ | ⟨-, -, hprocess⟩
  · exact ⟨_, _, congrArg Session.chain hprocess⟩
  · rw [hprocess]
    cases (walk b limit.budget 0 s).2.2.chain.formatter with
    | some schema => exact chain_formatLast b schema _ _
    | none =>
      obtain ⟨result, hsettle⟩ := chain_settle (walk b limit.budget 0 s).2.2 returnKey
      exact ⟨result, _, hsettle⟩

theorem wellFormed_process {s : Session ε} (h : s.chain.WellFormed) (b : Backend ε)
    (limit : Limit) (returnKey : Value) : (process b limit returnKey s).2.chain.WellFormed := by
  obtain ⟨result, formatted, hchain⟩ := chain_process b limit returnKey s
  have hwalk := wellFormed_walk (b := b) h limit.budget 0
  rw [hchain]
  exact ⟨hwalk.opened, hwalk.overt, hwalk.orderly⟩

/-- The sessions that the interface of a chain leads to. -/
inductive Reachable : Session ε → Prop where
  | start {providers : List Value} {active system formatKey : Value} {c : Chain}
      (hstart : Chain.start providers active system formatKey = .ok c)
      (channel : Option (Telemetry.Channel Notice)) (env : ε) :
      Reachable { chain := c, channel, env }
  | perform {s : Session ε} (hs : Reachable s) (b : Backend ε) {command : Command}
      (hovert : ∀ index kind, command ≠ .retype index kind)
      (hcommand : command.Obeys Rule.overt) : Reachable (s.perform b command).2
  | process {s : Session ε} (hs : Reachable s) (b : Backend ε) (limit : Limit)
      (returnKey : Value) : Reachable (process b limit returnKey s).2
  /-- The channel and the providers are shared with others, who may use them meanwhile. -/
  | elsewhere {s : Session ε} (hs : Reachable s)
      (channel : Option (Telemetry.Channel Notice)) (env : ε) :
      Reachable { s with channel, env }

theorem start_eq {providers : List Value} {active system formatKey : Value} {c : Chain}
    (h : Chain.start providers active system formatKey = .ok c) :
    ∃ formatKey, c = { providers, active, formatKey, systemText := system } := by
  unfold Chain.start at h
  split at h
  · cases h
  · unfold Chain.unknownProvider at h
    split at h <;> cases h
  · cases h
    exact ⟨_, rfl⟩

theorem wellFormed_start {providers : List Value} {active system formatKey : Value} {c : Chain}
    (h : Chain.start providers active system formatKey = .ok c) : c.WellFormed := by
  obtain ⟨formatKey, rfl⟩ := start_eq h
  exact ⟨rfl, by simp [Chain.Obeys], by simp [Chain.marks], by simp [Chain.marks],
    by simp [Chain.marks]⟩

theorem Reachable.wellFormed {s : Session ε} (h : Reachable s) : s.chain.WellFormed := by
  induction h with
  | start hstart => exact wellFormed_start hstart
  | perform _ b hovert hcommand ih =>
    rw [chain_perform]
    exact ih.perform hovert hcommand
  | process _ b limit returnKey ih => exact wellFormed_process ih b limit returnKey
  | elsewhere _ channel env ih => exact ih

end Session

/-! ## A scripted provider -/

/-- A provider that gives replies in order, whatever it is asked, and fails when there are none
left. -/
def Backend.scripted : Backend (List Value) where
  chat _ _ _
    | [] => (.error (.outside "ConnectionError" "offline"), [])
    | reply :: rest => (.ok reply, rest)
  useModel _ _ replies := (.ok (), replies)

def Session.scripted (replies : List Value) : Session (List Value) where
  chain :=
    { providers := [Chain.fastKey], active := Chain.fastKey, formatKey := Chain.fastKey,
      systemText := .text Chain.defaultSystem }
  env := replies

theorem Session.reachable_scripted (replies : List Value) : Reachable (scripted replies) := by
  have hstart : Chain.start [Chain.fastKey] Chain.fastKey = .ok (scripted replies).chain := by rfl
  exact .start hstart none replies

end PromptChain
