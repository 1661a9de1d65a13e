import PromptChain.Proofs.Chain.Formatting
/-!
# Last results

A chain without a formatter keeps two results: that of the last step that gave one, and the one that
the last run settled on.  What it tells of is the second, if there is one.  A run that is broken
off, or answers with an artifact, settles on nothing, and leaves the result of an earlier run in
place.
-/

namespace PromptChain

theorem Chain.Remembers.formatter_eq_none {c d : Chain} (h : c.Remembers d)
    (hd : d.formatter = none) : c.formatter = none := by
  rcases h.formatter with ⟨hsame, -⟩ | ⟨hsome, -⟩
  · rw [← hsame, hd]
  · rw [hd] at hsome
    cases hsome

namespace Session

variable {ε : Type} {b : Backend ε}

/-- Whether a call settles on the last result: it returns, and not with an artifact. -/
def Call.Settles (b : Backend ε) (c : Call ε) : Prop :=
  c.Returns b ∧ c.returnKey.isFalsy = true

/-- The result that calls have settled on: null if none of them did, else the last result of the
time when one did for the last time. -/
inductive SettledOn (b : Backend ε) : List (Call ε) → Value → Prop where
  | never {calls : List (Call ε)} (hcalls : ∀ c ∈ calls, ¬c.Settles b) : SettledOn b calls .null
  | once {earlier later : List (Call ε)} {c : Call ε} (hc : c.Settles b)
      (hresult : Call.lastResult b (earlier ++ [c]) ≠ .null)
      (hlater : ∀ d ∈ later, ¬d.Settles b) :
      SettledOn b (earlier ++ c :: later) (Call.lastResult b (earlier ++ [c]))

theorem SettledOn.later {calls : List (Call ε)} {c : Call ε} {v : Value} (h : SettledOn b calls v)
    (hc : ¬c.Settles b) : SettledOn b (calls ++ [c]) v := by
  cases h with
  | never hcalls => exact .never (by simpa [or_imp, forall_and, hc] using hcalls)
  | once hsettles hresult hlater =>
    rw [List.append_assoc, List.cons_append]
    exact .once hsettles hresult (by simpa [or_imp, forall_and, hc] using hlater)

theorem Call.settles_cases {c : Call ε} (hplain : (c.outcome b).2.chain.formatter = none) :
    (c.walked b).chain.formatter = none ∧
      ((c.Settles b ∧ (c.walked b).chain.last ≠ .null ∧
          (c.outcome b).2.chain.result = (c.walked b).chain.last) ∨
        (¬c.Settles b ∧ (c.outcome b).2.chain.result = (c.walked b).chain.result)) := by
  rcases c.outcome_cases b with ⟨hreturns, hchain⟩ | ⟨count, -, houtcome⟩
  · exact ⟨hchain ▸ hplain, .inr ⟨fun hsettles => hreturns hsettles.1, by rw [hchain]⟩⟩
  cases hformatter : (c.walked b).chain.formatter with
  | some schema =>
    simp only [hformatter] at houtcome
    obtain ⟨result, formatted, hchain⟩ := chain_formatLast b schema count (c.walked b)
    rw [houtcome, hchain] at hplain
    simp only [hformatter] at hplain
    cases hplain
  | none =>
    simp only [hformatter, settle] at houtcome
    refine ⟨rfl, ?_⟩
    cases hkey : c.returnKey.isFalsy with
    | false =>
      -- The call answers with an artifact.
      rw [hkey] at houtcome
      refine .inr ⟨fun hsettles => ?_, by rw [houtcome]; rfl⟩
      rw [Call.Settles, hkey] at hsettles
      cases hsettles.2
    | true =>
      rw [hkey] at houtcome
      by_cases hlast : (c.walked b).chain.last = .null
      · simp only [hlast] at houtcome
        refine .inr ⟨?_, by rw [houtcome]; rfl⟩
        rintro ⟨⟨w, hw⟩, -⟩
        rw [houtcome] at hw
        cases hw
      · simp only [hlast] at houtcome
        exact .inl ⟨⟨⟨_, by rw [houtcome]; rfl⟩, hkey⟩, hlast, by rw [houtcome]; rfl⟩

theorem SettledOn.call {calls : List (Call ε)} {c : Call ε} (hkept : Kept b calls c.before.chain)
    (hsettled : c.before.chain.formatter = none → SettledOn b calls c.before.chain.result)
    (hplain : (c.outcome b).2.chain.formatter = none) :
    SettledOn b (calls ++ [c]) (c.outcome b).2.chain.result := by
  obtain ⟨hremembers, -⟩ := remembers_walked (b := b) c
  obtain ⟨hwalked, ⟨hsettles, hlast, hresult⟩ | ⟨hsettles, hresult⟩⟩ := c.settles_cases hplain
  · rw [last_walked hkept] at hlast hresult
    rw [hresult]
    exact .once hsettles hlast (by simp)
  · rw [hresult, hremembers.result]
    exact (hsettled (hremembers.formatter_eq_none hwalked)).later hsettles

theorem History.settledOn {calls : List (Call ε)} {s : Session ε} (h : History b calls s)
    (hplain : s.chain.formatter = none) : SettledOn b calls s.chain.result := by
  induction h with
  | @start providers active system formatKey c hstart channel env =>
    obtain ⟨formatKey, rfl⟩ := start_eq hstart
    exact .never (by simp)
  | @perform calls s _ command ih =>
    rw [chain_perform] at hplain ⊢
    obtain ⟨hremembers, -⟩ := s.chain.remembers_perform command
    rw [hremembers.result]
    exact ih (hremembers.formatter_eq_none hplain)
  | call h limit returnKey ih => exact .call h.kept ih hplain
  | elsewhere _ channel env ih => exact ih hplain

/-- **When the result is out of date.** A chain without a formatter tells of the last result as long
as no call has settled on one.  From then on it tells of the last result of the time when a call
settled for the last time, which is still the last one unless a call since then, which answered with
an artifact or was broken off, gave another. -/
theorem resultAs_eq_settled {calls : List (Call ε)} {s : Session ε} (h : History b calls s)
    (hplain : s.chain.formatter = none) :
    ((∀ c ∈ calls, ¬c.Settles b) ∧
      s.chain.resultAs none = .ok (Call.lastResult b calls)) ∨
    ∃ earlier c later, calls = earlier ++ c :: later ∧ c.Settles b ∧
      (∀ d ∈ later, ¬d.Settles b) ∧
      s.chain.resultAs none = .ok (Call.lastResult b (earlier ++ [c])) ∧
      Call.lastResult b calls =
        lastOf (later.flatMap (Call.results b)) (Call.lastResult b (earlier ++ [c])) := by
  have hsettled := h.settledOn hplain
  generalize hresult : s.chain.result = v at hsettled
  cases hsettled with
  | never hcalls =>
    exact .inl ⟨hcalls, by simp [Chain.resultAs, Chain.outcome, hresult, h.kept.last]⟩
  | @once earlier later c hc hne hlater =>
    refine .inr ⟨earlier, c, later, rfl, hc, hlater, ?_, ?_⟩
    · simp [Chain.resultAs, Chain.outcome, hresult, hne]
    · rw [Call.lastResult, Call.lastResult, ← lastOf_append, ← List.flatMap_append,
        List.append_assoc, List.singleton_append]

/-- A second run answers with an artifact, and leaves the result of the first one in place. -/
theorem resultAs_eq_settled_artifact :
    let b := Backend.scripted
    let s₁ := ((scripted [.text "one", .text "two"]).perform b (.prompt (.text "Hello"))).2
    let s₂ := ((process b (.all 1) .null s₁).2.perform b (.prompt (.text "And then?"))).2
    let t := (process b (.all 1) (.text "key") s₂).2
    let calls := [⟨.all 1, .null, s₁⟩, ⟨.all 1, .text "key", s₂⟩]
    t.chain.resultAs none = .ok (.text "one") ∧ Call.lastResult b calls = .text "two" ∧
    ∃ earlier c later, calls = earlier ++ c :: later ∧ c.Settles b ∧
      t.chain.resultAs none = .ok (Call.lastResult b (earlier ++ [c])) ∧
      Call.lastResult b calls =
        lastOf (later.flatMap (Call.results b)) (Call.lastResult b (earlier ++ [c])) := by
  intro b s₁ s₂ t calls
  have hhistory : History b calls t := by
    have hstart : Chain.start [Chain.fastKey] Chain.fastKey = .ok (scripted []).chain := by rfl
    have hnew : History b [] (scripted [.text "one", .text "two"]) := .start hstart none _
    have hfirst := (hnew.perform (.prompt (.text "Hello"))).call (.all 1) .null
    exact (hfirst.perform (.prompt (.text "And then?"))).call (.all 1) (.text "key")
  have ⟨hplain, hresult, hcalls⟩ : t.chain.formatter.isNone ∧
      t.chain.outcome = .text "one" ∧ Call.lastResult b calls = .text "two" := by decide +kernel
  rw [Option.isNone_iff_eq_none] at hplain
  have hshown : t.chain.resultAs none = .ok (.text "one") := congrArg Except.ok hresult
  refine ⟨hshown, hcalls, ?_⟩
  rcases resultAs_eq_settled hhistory hplain with ⟨-, hsame⟩ |
    ⟨earlier, c, later, hsplit, hsettles, -, hearlier, hlater⟩
  · rw [hshown, hcalls] at hsame
    simp at hsame
  · exact ⟨earlier, c, later, hsplit, hsettles, hearlier, hlater⟩

end Session

end PromptChain
