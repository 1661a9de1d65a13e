import PromptChain.Proofs.Chain.Interruption
/-!
# Running a chain again

A run without a limit that returns has executed all there is to execute, if its hooks only append
steps, and has stored what it returns.  A further run finds nothing to do, and returns the same.
-/

namespace PromptChain.Session

variable {ε : Type} {b : Backend ε}

/-! ## Nothing is left -/

theorem settled_walks {index last : Nat} {s t : Session ε} {done : List (Visit ε)}
    (h : Walks b index s done last t) (happending : s.chain.Obeys Rule.appending False)
    (hsettled : Settled index s) : Settled last t := by
  induction h with
  | stay => exact hsettled
  | @step index position last s t u i v done hnext hrun rest ih =>
    have hi : i.step.Obeys Rule.appending :=
      happending i (mem_of_nextPending? hnext) (.inr (pending_of_nextPending? hnext))
    have hexecuted := obeys_execute (b := b) (fun _ _ hrule =>
      ⟨hrule.1.1, fun hretry => absurd hretry hrule.1.2⟩) happending hi
    have hpast := settled_complete (b := b) v hsettled hnext hi
    rw [hrun] at hexecuted hpast
    exact ih (obeys_complete hexecuted _ _) hpast

theorem executed_of_finished {s : Session ε} {budget : Nat}
    (happending : s.chain.Obeys Rule.appending False)
    (hfinished : (walk b budget 0 s).1 = .finished) :
    ∀ i ∈ (walk b budget 0 s).2.2.chain.queue.entries, i.executed = true := by
  obtain ⟨done, last, t, hwalks, hends⟩ := walk_ends b budget 0 s
  have hsettled := settled_walks hwalks happending (by simp [Settled])
  generalize walk b budget 0 s = result, visits b budget 0 s = visited at hends hfinished ⊢
  cases hends with
  | finished hnext =>
    intro i hi
    rw [← List.take_append_drop last t.chain.queue.entries] at hi
    rcases List.mem_append.mp hi with hi | hi
    · exact hsettled i hi
    · exact of_nextPending?_eq_none hnext i hi
  | paused => cases hfinished
  | failed => cases hfinished

/-! ## What was returned is stored -/

/-- Whether a run that has nothing to execute returns a value: the formatter has made it of the last
result, or there is no formatter and it is the last result. -/
def Answers (c : Chain) (w : Value) : Prop :=
  c.result = w ∧ ((∃ schema, c.formatter = some schema) ∧ c.formatted = true ∨
    c.formatter = none ∧ c.last = w ∧ w ≠ .null)

/-- A run that returns stores what it returns. -/
theorem answers_of_process {s t : Session ε} {limit : Limit} {w : Value}
    (hreturn : process b limit .null s = (some (.ok w), t)) : Answers t.chain w := by
  rcases process_cases b limit .null s with ⟨-, hanswer, -⟩ | ⟨-, -, hprocess⟩
  · exact absurd (congrArg Prod.fst hreturn) (hanswer w)
  rw [hreturn] at hprocess
  generalize (walk b limit.budget 0 s).2.2 = u, (walk b limit.budget 0 s).2.1 = count at hprocess
  cases hformatter : u.chain.formatter with
  | none =>
    simp only [hformatter, settle, Value.isFalsy] at hprocess
    by_cases hlast : u.chain.last = .null
    · simp [hlast] at hprocess
    · simp only [hlast, Bool.not_true, Bool.false_eq_true, if_false, Prod.mk.injEq,
        Option.some.injEq, Except.ok.injEq] at hprocess
      obtain ⟨rfl, rfl⟩ := hprocess
      exact ⟨rfl, .inr ⟨rfl, rfl, hlast⟩⟩
  | some schema =>
    simp only [hformatter] at hprocess
    rcases formatLast_cases b schema count u with
      ⟨v, apart, hreshape, hformat⟩ | ⟨hfailed, -⟩ | ⟨-, hformatted, hformat⟩
    · have hchain := chain_reshapeApart b u.chain.last schema u
      rw [hreshape] at hchain
      rw [hformat] at hprocess
      cases hprocess
      exact ⟨rfl, .inl ⟨⟨schema, hchain ▸ hformatter⟩, rfl⟩⟩
    · exact absurd (congrArg Prod.fst hprocess).symm (hfailed w)
    · rw [hformat] at hprocess
      cases hprocess
      exact ⟨rfl, .inl ⟨⟨schema, hformatter⟩, hformatted⟩⟩

/-! ## A further run -/

theorem walk_of_executed {t : Session ε} (h : ∀ i ∈ t.chain.queue.entries, i.executed = true)
    (budget : Nat) : walk b budget 0 t = (.finished, 0, t) ∧ visits b budget 0 t = [] := by
  unfold walk visits
  rw [nextPending?_eq_none h]
  exact ⟨rfl, rfl⟩

theorem settle_of_settled {t : Session ε} {w : Value} (hlast : t.chain.last = w)
    (hresult : t.chain.result = w) (hw : w ≠ .null) : t.settle .null = (.ok w, t) := by
  rw [settle_null, hlast, if_neg hw]
  obtain ⟨chain, channel, env⟩ := t
  cases chain
  cases hresult
  rfl

theorem process_of_executed {t : Session ε} {w : Value}
    (h : ∀ i ∈ t.chain.queue.entries, i.executed = true) (hanswers : Answers t.chain w)
    (b : Backend ε) (limit : Limit) : process b limit .null t = (some (.ok w), t) := by
  obtain ⟨hresult, ⟨⟨schema, hformatter⟩, hformatted⟩ | ⟨hformatter, hlast, hw⟩⟩ := hanswers
  · simp [process, walkThen, walk_of_executed h, hformatter, formatLast, hformatted, hresult]
  · simp [process, walkThen, walk_of_executed h, hformatter, settle_of_settled hlast hresult hw]

/-- **To run a chain again costs nothing.** If the pending hooks, and those that they append, leave
the steps of the queue as they are, and a run without a limit returns, then no step is pending, and
every further run, with any limit and any providers, executes nothing, changes nothing, and returns
the same. -/
theorem process_again {s t : Session ε} {fuel : Nat} {w : Value}
    (happending : s.chain.Obeys Rule.appending False)
    (hreturn : process b (.all fuel) .null s = (some (.ok w), t)) :
    (∀ i ∈ t.chain.queue.entries, i.executed = true) ∧
      ∀ (other : Backend ε) (limit : Limit), visits other limit.budget 0 t = [] ∧
        process other limit .null t = (some (.ok w), t) := by
  have hfinished : (walk b fuel 0 s).1 = .finished :=
    finished_of_process (congrArg Prod.fst hreturn)
  have hdone : ∀ i ∈ t.chain.queue.entries, i.executed = true := by
    obtain ⟨result, formatted, hchain⟩ := chain_process b (.all fuel) .null s
    rw [hreturn] at hchain
    rw [hchain]
    exact executed_of_finished happending hfinished
  exact ⟨hdone, fun other limit => ⟨(walk_of_executed hdone _).2,
    process_of_executed hdone (answers_of_process hreturn) other limit⟩⟩

/-- A hook appends a prompt, whose response is returned; a further run asks nobody again. -/
theorem process_again_drafting :
    let s : Session (List Value) := {
      chain := (((scripted []).perform Backend.scripted (.prompt (.text "Hello"))).2.perform
        Backend.scripted (.hook (.text "draft") "draft" drafting)).2.chain
      env := [.text "one", .text "two", .text "three"] }
    let t := (process Backend.scripted (.all 3) .null s).2
    s.chain.Obeys Rule.appending False ∧
      process Backend.scripted (.all 3) .null s = (some (.ok (.text "two")), t) ∧
      t.chain.queue.entries.map Item.executed = [true, true, true] ∧
      process Backend.scripted (.all 3) .null t = (some (.ok (.text "two")), t) := by
  intro s t
  have happending : s.chain.Obeys Rule.appending False :=
    fun i hi hpending => (obeys_drafting i hi hpending).mono fun _ _ => Rule.growing_appending
  have ⟨hanswer, hflags⟩ :
      (process Backend.scripted (.all 3) .null s).1 = some (.ok (.text "two")) ∧
      t.chain.queue.entries.map Item.executed = [true, true, true] := by decide +kernel
  have hreturn : process Backend.scripted (.all 3) .null s = (some (.ok (.text "two")), t) := by
    rw [← hanswer, Prod.eta]
  exact ⟨happending, hreturn, hflags,
    ((process_again happending hreturn).2 Backend.scripted (.all 3)).2⟩

end PromptChain.Session
