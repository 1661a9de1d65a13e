import PromptChain.Chain.Walk
/-!
# Rules for scripts

A rule bounds what a script may ever do: it judges each command that the script
may give, together with how the script goes on after it.  A hook that a script
queues is a script as well and has to keep the same rule.  What all commands of
a script preserve, its run preserves.
-/

namespace PromptChain

/-- Induction on a script, without regard to the hooks that it queues. -/
@[induction_eliminator]
theorem Script.induct {motive : Script → Prop}
    (finish : ∀ outcome, motive (.finish outcome))
    (call : ∀ command next, (∀ reply, motive (next reply)) → motive (.call command next)) :
    ∀ script, motive script
  | .finish outcome => finish outcome
  | .call command next => call command next fun reply => induct finish call (next reply)

/-- A judgement of a command and of the script that follows it. -/
abbrev Rule := Command → (Except Fault Reply → Script) → Prop

mutual

def Script.Obeys (rule : Rule) : Script → Prop
  | .finish _ => True
  | .call command next =>
    rule command next ∧ command.Obeys rule ∧ ∀ reply, (next reply).Obeys rule

def Command.Obeys (rule : Rule) : Command → Prop
  | .hook _ _ run => ∀ runs, (run runs).Obeys rule
  | _ => True

end

/-- Whether a step can be executed as what it was queued as, and keeps a rule if it is a hook. -/
def Step.Obeys (rule : Rule) : Step → Prop
  | .hook _ run _ _ => ∀ runs, (run runs).Obeys rule
  | .foreign .. => False
  | _ => True

namespace Rule

/-- The commands of a chain's own interface: all but the one that reaches into an item. -/
def overt : Rule := fun command _ => ∀ index kind, command ≠ .retype index kind

/-- A system prompt is refused if what is given for it is no text and no lines of text.  A script
that does so fails. -/
def frank : Rule := fun command next =>
  overt command next ∧ ∀ lines e, command = .system lines → lines.joinInput = .error e →
    ∃ fault, next (.error e) = .finish (.error fault)

/-- As before, without commands that make an executed step pending. -/
def steady : Rule := fun command next => frank command next ∧ command ≠ .retry

/-- The commands of a chain's own interface that make no executed step pending. -/
def onward : Rule := fun command next => overt command next ∧ command ≠ .retry

/-- The commands of a chain's own interface that leave the steps of the queue where they are, and as
executed as they are. -/
def appending : Rule := fun command next =>
  onward command next ∧ ∀ lines, command ≠ .system lines

/-- The commands of a chain's own interface that delete no message. -/
def conversing : Rule := fun command next =>
  overt command next ∧ command ≠ .clearHistory ∧ ∀ index, command ≠ .deleteHistory index

/-- Commands that set artifacts, append steps, or look at the history and the artifacts. -/
def growing : Rule := fun command _ =>
  match command with
  | .insert .. | .prompt _ | .build _ | .use _ | .hook .. => True
  | .artifact .. | .recent .. | .historyLength => True
  | _ => False

theorem growing_overt {command : Command} {next : Except Fault Reply → Script}
    (h : growing command next) : overt command next ∧ command ≠ .retry := by
  cases command with
  | retry => exact h.elim
  | retype index kind => exact h.elim
  | _ => exact ⟨fun _ _ => by simp, by simp⟩

theorem growing_appending {command : Command} {next : Except Fault Reply → Script}
    (h : growing command next) : appending command next := by
  refine ⟨growing_overt h, ?_⟩
  rintro lines rfl
  exact h

end Rule

mutual

theorem Script.Obeys.mono {rule weaker : Rule}
    (h : ∀ command next, rule command next → weaker command next) :
    ∀ {script : Script}, script.Obeys rule → script.Obeys weaker
  | .finish _, _ => by simp [Script.Obeys]
  | .call command next, hscript => by
    rw [Script.Obeys] at hscript ⊢
    exact ⟨h command next hscript.1, Command.Obeys.mono h hscript.2.1,
      fun reply => Script.Obeys.mono h (hscript.2.2 reply)⟩

theorem Command.Obeys.mono {rule weaker : Rule}
    (h : ∀ command next, rule command next → weaker command next) :
    ∀ {command : Command}, command.Obeys rule → command.Obeys weaker
  | .hook label shown run, hcommand => by
    rw [Command.Obeys] at hcommand ⊢
    exact fun runs => Script.Obeys.mono h (hcommand runs)
  | .system _, _ | .prompt _, _ | .build _, _ | .insert .., _ | .use _, _ | .retry, _
  | .format _, _ | .incognito _, _ | .recent .., _ | .artifact .., _ | .result _, _
  | .historyLength, _ | .clearHistory, _ | .deleteHistory _, _ | .useModel .., _
  | .tune _, _ | .retype .., _ => by simp [Command.Obeys]

end

theorem Step.Obeys.mono {rule weaker : Rule}
    (h : ∀ command next, rule command next → weaker command next) {step : Step}
    (hstep : step.Obeys rule) : step.Obeys weaker := by
  cases step with
  | hook shown run runs result => exact fun n => (hstep n).mono h
  | foreign kind inner => exact hstep.elim
  | _ => trivial

namespace Session

variable {ε : Type} {b : Backend ε}

/-- The commands that a script gives when it runs, each with the session that it is given to. -/
def given (b : Backend ε) : Script → Session ε → List (Session ε × Command)
  | .finish _, _ => []
  | .call command next, s =>
    (s, command) :: given b (next (s.perform b command).1) (s.perform b command).2

theorem runScript_call (command : Command) (next : Except Fault Reply → Script) (s : Session ε) :
    runScript b (.call command next) s =
      runScript b (next (s.perform b command).1) (s.perform b command).2 := rfl

theorem given_obeys {rule : Rule} {script : Script} {s : Session ε} (h : script.Obeys rule) :
    ∀ g ∈ given b script s, (∃ next, rule g.2 next) ∧ g.2.Obeys rule := by
  induction script generalizing s with
  | finish outcome => simp [given]
  | call command next ih =>
    rw [Script.Obeys] at h
    intro g hg
    rcases List.mem_cons.mp hg with rfl | hg
    · exact ⟨⟨next, h.1⟩, h.2.1⟩
    · exact ih _ (h.2.2 _) g hg

/-- What every command that a script gives preserves, the run of the script preserves. -/
theorem runScript_invariant (invariant : Session ε → Prop) {script : Script} {s : Session ε}
    (hs : invariant s)
    (step : ∀ g ∈ given b script s, invariant g.1 → invariant (g.1.perform b g.2).2) :
    invariant (runScript b script s).2 := by
  induction script generalizing s with
  | finish outcome => exact hs
  | call command next ih =>
    rw [runScript_call]
    apply ih
    · exact step _ List.mem_cons_self hs
    · exact fun g hg => step g (List.mem_cons_of_mem _ hg)

/-- A script has an effect when it runs if one of its commands is a cause of it, and no command
undoes the effect. -/
theorem runScript_effect_iff (invariant effect : Session ε → Prop)
    (cause : Session ε × Command → Prop) (script : Script) {s : Session ε} (hs : invariant s)
    (step : ∀ g ∈ given b script s, invariant g.1 → invariant (g.1.perform b g.2).2 ∧
      (effect (g.1.perform b g.2).2 ↔ effect g.1 ∨ cause g)) :
    invariant (runScript b script s).2 ∧
      (effect (runScript b script s).2 ↔ effect s ∨ ∃ g ∈ given b script s, cause g) := by
  induction script generalizing s with
  | finish outcome => exact ⟨hs, by simp [runScript, given]⟩
  | call command next ih =>
    rw [runScript_call]
    obtain ⟨hinv, heffect⟩ := step _ List.mem_cons_self hs
    obtain ⟨hrun, hiff⟩ := ih _ hinv fun g hg => step g (List.mem_cons_of_mem _ hg)
    refine ⟨hrun, ?_⟩
    rw [hiff, heffect, or_assoc, given]
    simp only [List.mem_cons, exists_eq_or_imp]

theorem joined_of_frank {script : Script} {s : Session ε} {v : Value}
    (h : script.Obeys Rule.frank) (hrun : (runScript b script s).1 = .ok v) :
    ∀ g ∈ given b script s, ∀ lines, g.2 = .system lines → ∃ text, lines.joinInput = .ok text := by
  induction script generalizing s with
  | finish outcome => simp [given]
  | call command next ih =>
    rw [Script.Obeys] at h
    rw [runScript_call] at hrun
    intro g hg lines hlines
    rcases List.mem_cons.mp hg with rfl | hg
    · cases hjoin : lines.joinInput with
      | ok text => exact ⟨text, rfl⟩
      | error e =>
        obtain ⟨fault, hnext⟩ := h.1.2 lines e hlines hjoin
        simp only at hlines
        subst hlines
        have hreply : (s.perform b (.system lines)).1 = .error e := by
          simp [perform, Chain.perform, Chain.system, hjoin]
        rw [hreply, hnext] at hrun
        cases hrun
    · exact ih _ (h.2.2 _) hrun g hg lines hlines

end Session

end PromptChain
