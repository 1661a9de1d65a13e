import PromptChain.Proofs.Chain.Reachable
/-!
# Formatted results

A chain with a formatter answers a run with what the formatter made of the last
result, and remembers this answer for runs that execute no step.  A run that is
broken off after a step gave a result does not make the chain forget it.  So an
answer is out of date exactly when there was such a run since it was made.
-/

namespace PromptChain

namespace Chain

/-- Whether a chain has the result and the formatter of an earlier one, or another formatter that
has not run yet. -/
structure Remembers (c d : Chain) : Prop where
  result : d.result = c.result
  formatter : (d.formatter = c.formatter ∧ d.formatted = c.formatted) ∨
    (d.formatter.isSome ∧ d.formatted = false)

theorem Remembers.trans {c d e : Chain} (hd : c.Remembers d) (he : d.Remembers e) :
    c.Remembers e where
  result := he.result.trans hd.result
  formatter := by
    rcases he.formatter with ⟨hformatter, hformatted⟩ | hfresh
    · rw [hformatter, hformatted]
      exact hd.formatter
    · exact .inr hfresh

theorem Remembers.plain {c d : Chain} (h : c.Remembers d)
    (hc : c.formatter = none → c.formatted = false) (hd : d.formatter = none) :
    d.formatted = false := by
  rcases h.formatter with ⟨hsame, hformatted⟩ | ⟨-, hformatted⟩
  · exact hformatted.trans (hc (hsame ▸ hd))
  · exact hformatted

theorem Remembers.of_eq {c d : Chain} (hresult : d.result = c.result)
    (hformatter : d.formatter = c.formatter) (hformatted : d.formatted = c.formatted) :
    c.Remembers d :=
  ⟨hresult, .inl ⟨hformatter, hformatted⟩⟩

theorem remembers_perform (c : Chain) (command : Command) :
    c.Remembers (c.perform command).2.1 ∧ (c.perform command).2.1.last = c.last := by
  have hperforms := c.performs command
  generalize (c.perform command).2.1 = d at hperforms ⊢
  cases hperforms with
  | beside => exact ⟨.of_eq rfl rfl rfl, rfl⟩
  | append label step => exact ⟨.of_eq rfl rfl rfl, rfl⟩
  | system lines =>
    unfold system
    cases lines.joinInput <;> exact ⟨.of_eq rfl rfl rfl, rfl⟩
  | retry =>
    unfold retry
    cases undoLast c.queue.entries with
    | error e => exact ⟨.of_eq rfl rfl rfl, rfl⟩
    | ok undone => cases undone <;> exact ⟨.of_eq rfl rfl rfl, rfl⟩
  | format schema => exact ⟨⟨rfl, .inr ⟨rfl, rfl⟩⟩, rfl⟩
  | retype index kind =>
    unfold retype
    cases Value.place "tuple" "tuple index" c.queue.length index <;> exact ⟨.of_eq rfl rfl rfl, rfl⟩

end Chain

namespace Session

variable {ε : Type} {b : Backend ε}

/-! ## Walks -/

theorem remembers_execute (s : Session ε) (i : Item) :
    s.chain.Remembers (s.execute b i).2.chain ∧ (s.execute b i).2.chain.last = s.chain.last := by
  apply execute_invariant fun c => s.chain.Remembers c ∧ c.last = s.chain.last
  · exact fun c history artifacts active systemText ⟨hc, hlast⟩ =>
      ⟨⟨hc.result, hc.formatter⟩, hlast⟩
  · exact ⟨.of_eq rfl rfl rfl, rfl⟩
  · exact fun c f hf ⟨hc, hlast⟩ => ⟨⟨hc.result, hc.formatter⟩, hlast⟩
  · intro g hg ⟨hc, hlast⟩
    obtain ⟨hd, hlast'⟩ := g.1.chain.remembers_perform g.2
    exact ⟨hc.trans hd, hlast'.trans hlast⟩

def Visit.result? (b : Backend ε) (v : Visit ε) : Option Value :=
  match v.outcome b with
  | .ok w => if w = .null then none else some w
  | .error _ => none

/-- The last of some results, or an earlier one if there are none. -/
def lastOf (results : List Value) (earlier : Value) : Value := results.getLast?.getD earlier

theorem lastOf_append (front back : List Value) (earlier : Value) :
    lastOf (front ++ back) earlier = lastOf back (lastOf front earlier) := by
  rw [lastOf, List.getLast?_append, lastOf, lastOf]
  cases back.getLast? <;> rfl

theorem remembers_walks {index last : Nat} {s t : Session ε} {done : List (Visit ε)}
    (h : Walks b index s done last t) :
    s.chain.Remembers t.chain ∧
      t.chain.last = lastOf (done.filterMap (Visit.result? b)) s.chain.last := by
  induction h with
  | stay => exact ⟨.of_eq rfl rfl rfl, rfl⟩
  | @step index position last s t u i v done hnext hrun rest ih =>
    obtain ⟨hexecuted, hlast⟩ := remembers_execute (b := b) s i
    rw [hrun] at hexecuted hlast
    have hcomplete : s.chain.Remembers (t.complete i.serial v).chain :=
      ⟨hexecuted.result, hexecuted.formatter⟩
    refine ⟨hcomplete.trans ih.1, ?_⟩
    have houtcome : (Visit.mk position i s).outcome b = .ok v := by
      rw [Visit.outcome, hrun]
    have hstep : (t.complete i.serial v).chain.last =
        lastOf ([(⟨position, i, s⟩ : Visit ε)].filterMap (Visit.result? b)) s.chain.last := by
      by_cases hv : v = .null
      · simp [complete, modifyItem, Chain.modifyItem, Visit.result?, houtcome, hv, lastOf, ← hlast]
      · simp [complete, modifyItem, Chain.modifyItem, Visit.result?, houtcome, hv, lastOf]
    rw [ih.2, hstep, ← lastOf_append, ← List.filterMap_append]
    rfl

/-! ## Calls -/

structure Call (ε : Type) where
  limit : Limit
  returnKey : Value
  before : Session ε

namespace Call

def walked (b : Backend ε) (c : Call ε) : Session ε := (walk b c.limit.budget 0 c.before).2.2

def results (b : Backend ε) (c : Call ε) : List Value :=
  (visits b c.limit.budget 0 c.before).filterMap (Visit.result? b)

def lastResult (b : Backend ε) (calls : List (Call ε)) : Value :=
  lastOf (calls.flatMap (results b)) .null

def outcome (b : Backend ε) (c : Call ε) : Answer × Session ε :=
  process b c.limit c.returnKey c.before

def Returns (b : Backend ε) (c : Call ε) : Prop := ∃ w, (c.outcome b).1 = some (.ok w)

/-- Whether a call runs the formatter of a schema on the last result, and returns what comes of
it. -/
def Formats (b : Backend ε) (c : Call ε) (schema : Schema) (input w : Value) : Prop :=
  (c.walked b).chain.formatter = some schema ∧ (c.walked b).chain.last = input ∧
    ∃ t, reshapeApart b input schema (c.walked b) = (some (.ok w), t) ∧
      c.outcome b =
        (some (.ok w), { t with chain := { t.chain with result := w, formatted := true } })

end Call

/-- What may become of a new chain: the calls that were made so far, and the session that they and
other commands have led to. -/
inductive History (b : Backend ε) : List (Call ε) → Session ε → Prop where
  | start {providers : List Value} {active system formatKey : Value} {c : Chain}
      (hstart : Chain.start providers active system formatKey = .ok c)
      (channel : Option (Telemetry.Channel Notice)) (env : ε) :
      History b [] { chain := c, channel, env }
  | perform {calls : List (Call ε)} {s : Session ε} (h : History b calls s) (command : Command) :
      History b calls (s.perform b command).2
  | call {calls : List (Call ε)} {s : Session ε} (h : History b calls s) (limit : Limit)
      (returnKey : Value) :
      History b (calls ++ [⟨limit, returnKey, s⟩]) (process b limit returnKey s).2
  /-- The channel and the providers are shared with others, who may use them meanwhile. -/
  | elsewhere {calls : List (Call ε)} {s : Session ε} (h : History b calls s)
      (channel : Option (Telemetry.Channel Notice)) (env : ε) :
      History b calls { s with channel, env }

inductive Call.Ends (b : Backend ε) (c : Call ε) : Prop where
  | formatted {schema : Schema} {input w : Value} (h : c.Formats b schema input w)
  | failed (hreturns : ¬c.Returns b) (hchain : (c.outcome b).2.chain = (c.walked b).chain)
  | remembered (hresults : c.results b = [])
      (hanswer : (c.outcome b).1 = some (.ok (c.walked b).chain.result))
      (hformatted : (c.walked b).chain.formatted = true)
      (hchain : (c.outcome b).2.chain = (c.walked b).chain)
  | plain (hformatter : (c.walked b).chain.formatter = none)
      (hafter : (c.outcome b).2.chain.formatter = none)
      (hformatted : (c.outcome b).2.chain.formatted = (c.walked b).chain.formatted)
      (hlast : (c.outcome b).2.chain.last = (c.walked b).chain.last)

theorem remembers_walked (c : Call ε) :
    c.before.chain.Remembers (c.walked b).chain ∧
      (c.walked b).chain.last = lastOf (c.results b) c.before.chain.last := by
  obtain ⟨done, last, t, hwalks, hends⟩ := walk_ends b c.limit.budget 0 c.before
  obtain ⟨hremembers, hlast⟩ := remembers_walks hwalks
  unfold Call.walked Call.results
  generalize walk b c.limit.budget 0 c.before = result, visits b c.limit.budget 0 c.before = visited
    at hends
  cases hends with
  | finished => exact ⟨hremembers, hlast⟩
  | paused => exact ⟨hremembers, hlast⟩
  | @failed position i e u hnext hrun =>
    obtain ⟨hexecuted, hlast'⟩ := remembers_execute (b := b) t i
    rw [hrun] at hexecuted hlast'
    have hnone : (Visit.mk position i t).result? b = none := by
      rw [Visit.result?, Visit.outcome, hrun]
    refine ⟨hremembers.trans hexecuted, ?_⟩
    rw [List.filterMap_append, lastOf_append, hlast', hlast]
    simp [hnone, lastOf]

theorem results_eq_nil {c : Call ε} (hstop : ∀ e, (walk b c.limit.budget 0 c.before).1 ≠ .failed e)
    (hcount : (walk b c.limit.budget 0 c.before).2.1 = 0) : c.results b = [] := by
  obtain ⟨done, last, t, hwalks, hends⟩ := walk_ends b c.limit.budget 0 c.before
  unfold Call.results
  generalize walk b c.limit.budget 0 c.before = result, visits b c.limit.budget 0 c.before = visited
    at hends hstop hcount
  cases hends with
  | finished => simp [List.length_eq_zero_iff.mp hcount]
  | paused => simp [List.length_eq_zero_iff.mp hcount]
  | failed => exact absurd rfl (hstop _)

theorem Call.outcome_cases (b : Backend ε) (c : Call ε) :
    (¬c.Returns b ∧ (c.outcome b).2.chain = (c.walked b).chain) ∨
      ∃ count, (count = 0 → c.results b = []) ∧
        c.outcome b = match (c.walked b).chain.formatter with
          | some schema => formatLast b schema count (c.walked b)
          | none => (some ((c.walked b).settle c.returnKey).1,
              ((c.walked b).settle c.returnKey).2) := by
  rcases process_cases b c.limit c.returnKey c.before with ⟨-, hanswer, hprocess⟩ |
    ⟨hstop, -, hprocess⟩
  · exact .inl ⟨fun ⟨w, hw⟩ => hanswer w hw, congrArg Session.chain hprocess⟩
  · exact .inr ⟨_, results_eq_nil hstop, hprocess⟩

theorem Call.ends (b : Backend ε) (c : Call ε) : c.Ends b := by
  rcases c.outcome_cases b with ⟨hreturns, hchain⟩ | ⟨count, hcount, houtcome⟩
  · exact .failed hreturns hchain
  · cases hformatter : (c.walked b).chain.formatter with
    | some schema =>
      simp only [hformatter] at houtcome
      rcases formatLast_cases b schema count (c.walked b) with
        ⟨w, t, hreshape, hformat⟩ | ⟨hreturns, hchain⟩ | ⟨hzero, hformatted, hformat⟩
      · exact .formatted ⟨hformatter, rfl, t, hreshape, houtcome.trans hformat⟩
      · refine .failed ?_ (houtcome ▸ hchain)
        rintro ⟨w, hw⟩
        exact hreturns w (houtcome ▸ hw)
      · rw [hformat] at houtcome
        exact .remembered (hcount hzero) (by rw [houtcome]) hformatted (by rw [houtcome])
    | none =>
      simp only [hformatter] at houtcome
      obtain ⟨result, hsettle⟩ := chain_settle (c.walked b) c.returnKey
      exact .plain hformatter (by rw [houtcome, hsettle, hformatter]) (by rw [houtcome, hsettle])
        (by rw [houtcome, hsettle])

/-! ## Histories -/

/-- Whether a value came of a call in which the formatter of a schema ran.  The calls since then
have settled on nothing else, and were broken off or gave no results. -/
structure Made (b : Backend ε) (calls : List (Call ε)) (schema : Schema) (w : Value)
    (earlier : List (Call ε)) (c : Call ε) (later : List (Call ε)) : Prop where
  calls : calls = earlier ++ c :: later
  formats : c.Formats b schema (Call.lastResult b (earlier ++ [c])) w
  settled : ∀ d ∈ later, (d.outcome b).2.chain = (d.walked b).chain
  broken : ∀ d ∈ later, d.results b ≠ [] → ¬d.Returns b

/-- What a history keeps to: the last result is known, and so is, where the formatter has run, the
call in which it ran. -/
structure Kept (b : Backend ε) (calls : List (Call ε)) (c : Chain) : Prop where
  last : c.last = Call.lastResult b calls
  plain : c.formatter = none → c.formatted = false
  made : c.formatted = true → ∃ schema earlier d later, c.formatter = some schema ∧
    Made b calls schema c.result earlier d later

theorem Kept.remembers {calls : List (Call ε)} {c d : Chain} (h : Kept b calls c)
    (hd : c.Remembers d) (hlast : d.last = c.last) : Kept b calls d where
  last := hlast.trans h.last
  plain := hd.plain h.plain
  made hformatted := by
    rcases hd.formatter with ⟨hsame, hflag⟩ | ⟨-, hflag⟩
    · rw [hsame, hd.result]
      exact h.made (hflag ▸ hformatted)
    · rw [hflag] at hformatted
      cases hformatted

theorem last_walked {calls : List (Call ε)} {c : Call ε} (h : Kept b calls c.before.chain) :
    (c.walked b).chain.last = Call.lastResult b (calls ++ [c]) := by
  rw [(remembers_walked c).2, h.last, Call.lastResult, Call.lastResult, List.flatMap_append,
    lastOf_append]
  simp

theorem Kept.later {calls : List (Call ε)} {c : Call ε} (h : Kept b calls c.before.chain)
    (hchain : (c.outcome b).2.chain = (c.walked b).chain)
    (hbroken : c.results b ≠ [] → ¬c.Returns b) :
    Kept b (calls ++ [c]) (c.outcome b).2.chain := by
  rw [hchain]
  obtain ⟨hremembers, -⟩ := remembers_walked (b := b) c
  refine ⟨last_walked h, hremembers.plain h.plain, ?_⟩
  intro hformatted
  rcases hremembers.formatter with ⟨hsame, hflag⟩ | ⟨-, hflag⟩
  · obtain ⟨schema, earlier, d, later, hschema, hmade⟩ := h.made (hflag ▸ hformatted)
    refine ⟨schema, earlier, d, later ++ [c], hsame.trans hschema, ?_, ?_, ?_, ?_⟩
    · rw [hmade.calls, List.append_assoc, List.cons_append]
    · rw [hremembers.result]
      exact hmade.formats
    · simpa [or_imp, forall_and, hchain] using hmade.settled
    · intro e he
      rcases List.mem_append.mp he with he | he
      · exact hmade.broken e he
      · rw [List.mem_singleton.mp he]
        exact hbroken
  · -- A hook has installed a formatter, which has not run yet.
    rw [hflag] at hformatted
    cases hformatted

theorem Kept.call {calls : List (Call ε)} {c : Call ε} (h : Kept b calls c.before.chain) :
    Kept b (calls ++ [c]) (c.outcome b).2.chain := by
  cases c.ends b with
  | @formatted schema input w hformats =>
    have ⟨hformatter, hinput, t, hreshape, houtcome⟩ := hformats
    have hapart : t.chain = (c.walked b).chain := by
      have hreshaped := chain_reshapeApart b input schema (c.walked b)
      rw [hreshape] at hreshaped
      exact hreshaped
    have hsome : t.chain.formatter = some schema := hapart ▸ hformatter
    have hlast : t.chain.last = Call.lastResult b (calls ++ [c]) := hapart ▸ last_walked h
    have hlastInput : input = Call.lastResult b (calls ++ [c]) := hinput ▸ last_walked h
    rw [houtcome]
    refine ⟨hlast, fun hnone => ?_, fun _ => ?_⟩
    · rw [show t.chain.formatter = none from hnone] at hsome
      cases hsome
    · exact ⟨schema, calls, c, [], hsome, rfl, hlastInput ▸ hformats, by simp, by simp⟩
  | failed hreturns hchain => exact h.later hchain fun _ => hreturns
  | remembered hresults hanswer hformatted hchain =>
    exact h.later hchain fun hne => absurd hresults hne
  | plain hformatter hafter hformatted hlast =>
    have hwalked := (remembers_walked (b := b) c).1.plain h.plain hformatter
    refine ⟨hlast.trans (last_walked h), fun _ => hformatted.trans hwalked, fun hset => ?_⟩
    rw [hformatted, hwalked] at hset
    cases hset

theorem History.kept {calls : List (Call ε)} {s : Session ε} (h : History b calls s) :
    Kept b calls s.chain := by
  induction h with
  | @start providers active system formatKey c hstart channel env =>
    obtain ⟨formatKey, rfl⟩ := start_eq hstart
    exact ⟨rfl, fun _ => rfl, fun hset => by cases hset⟩
  | @perform calls s _ command ih =>
    have hkept := s.chain.remembers_perform command
    rw [← chain_perform (b := b)] at hkept
    exact ih.remembers hkept.1 hkept.2
  | call _ limit returnKey ih => exact ih.call
  | elsewhere _ channel env ih => exact ih

theorem formatted_of_returns {c : Call ε} {t : Session ε} {schema : Schema} {w : Value}
    (hreturn : c.outcome b = (some (.ok w), t)) (hformatter : t.chain.formatter = some schema) :
    t.chain.formatted = true ∧ t.chain.result = w := by
  cases c.ends b with
  | formatted hformats =>
    obtain ⟨-, -, u, -, houtcome⟩ := hformats
    rw [hreturn] at houtcome
    cases houtcome
    exact ⟨rfl, rfl⟩
  | failed hreturns => exact absurd ⟨w, by rw [hreturn]⟩ hreturns
  | remembered _ hanswer hformatted hchain =>
    rw [hreturn] at hanswer hchain
    simp only [Option.some.injEq, Except.ok.injEq] at hanswer
    simp only at hchain
    rw [hchain]
    exact ⟨hformatted, hanswer.symm⟩
  | plain _ hafter =>
    rw [hreturn] at hafter
    simp only [hformatter] at hafter
    cases hafter

/-- **When formatted results are out of date.** What a run returns that ends with a formatter comes
from a call in which the present formatter ran, when it was given the last result of that time; the
calls since then settled on nothing else.  It is still the last result unless one of them gave
results and was broken off; then the last of their results is the last result now. -/
theorem exists_formats {calls : List (Call ε)} {s t : Session ε} (h : History b calls s)
    {limit : Limit} {returnKey w : Value} {schema : Schema}
    (hreturn : process b limit returnKey s = (some (.ok w), t))
    (hformatter : t.chain.formatter = some schema) :
    ∃ earlier c later input, calls ++ [⟨limit, returnKey, s⟩] = earlier ++ c :: later ∧
      c.Formats b schema input w ∧ input = Call.lastResult b (earlier ++ [c]) ∧
      (∀ d ∈ later, (d.outcome b).2.chain = (d.walked b).chain) ∧
      t.chain.last = lastOf (later.flatMap (Call.results b)) input ∧
      (later.flatMap (Call.results b) = [] ↔ ¬∃ d ∈ later, d.results b ≠ [] ∧ ¬d.Returns b) := by
  obtain ⟨hformatted, hresult⟩ :=
    formatted_of_returns (c := ⟨limit, returnKey, s⟩) hreturn hformatter
  have hkept := (h.call limit returnKey).kept
  rw [hreturn] at hkept
  obtain ⟨schema', earlier, c, later, hschema, hmade⟩ := hkept.made hformatted
  rw [hformatter] at hschema
  cases hschema
  refine ⟨earlier, c, later, _, hmade.calls, hresult ▸ hmade.formats, rfl, hmade.settled, ?_, ?_⟩
  · rw [hkept.last, hmade.calls, Call.lastResult, Call.lastResult, ← lastOf_append,
      ← List.flatMap_append, List.append_assoc, List.singleton_append]
  · rw [List.flatMap_eq_nil_iff]
    constructor
    · rintro hnil ⟨d, hd, hne, -⟩
      exact hne (hnil d hd)
    · intro hnone d hd
      by_contra hne
      exact hnone ⟨d, hd, hne, hmade.broken d hd hne⟩

def anything : Schema := .validation { kind := .text "any", parse := .ok }

/-- The formatter runs on a first result and cannot be reached for a second one; a run that executes
no step then returns what came of the first one. -/
theorem exists_formats_offline :
    let b := Backend.scripted
    let s₁ := (((scripted [.text "one", .text "1", .text "two"]).perform b
      (.prompt (.text "Hello"))).2.perform b (.format anything)).2
    let s₂ := ((process b (.all 1) .null s₁).2.perform b (.prompt (.text "And then?"))).2
    let s₃ := (process b (.all 1) .null s₂).2
    let t := (process b (.all 0) .null s₃).2
    (process b (.all 1) .null s₂).1 = some (.error (.outside "ConnectionError" "offline")) ∧
    process b (.all 0) .null s₃ = (some (.ok (.text "1")), t) ∧ t.chain.last = .text "two" ∧
    ∃ schema earlier c later input,
      [⟨.all 1, .null, s₁⟩, ⟨.all 1, .null, s₂⟩, ⟨.all 0, .null, s₃⟩] = earlier ++ c :: later ∧
      c.Formats b schema input (.text "1") ∧
      t.chain.last = lastOf (later.flatMap (Call.results b)) input := by
  intro b s₁ s₂ s₃ t
  have hhistory : History b [⟨.all 1, .null, s₁⟩, ⟨.all 1, .null, s₂⟩] s₃ := by
    have hstart : Chain.start [Chain.fastKey] Chain.fastKey = .ok (scripted []).chain := by rfl
    have hnew : History b [] (scripted [.text "one", .text "1", .text "two"]) :=
      .start hstart none _
    have hfirst := ((hnew.perform (.prompt (.text "Hello"))).perform (.format anything)).call
      (.all 1) .null
    exact (hfirst.perform (.prompt (.text "And then?"))).call (.all 1) .null
  have ⟨hfailed, hanswer, hlast, hset⟩ : (process b (.all 1) .null s₂).1 =
      some (.error (.outside "ConnectionError" "offline")) ∧
      (process b (.all 0) .null s₃).1 = some (.ok (.text "1")) ∧ t.chain.last = .text "two" ∧
      t.chain.formatter.isSome := by decide +kernel
  have hreturn : process b (.all 0) .null s₃ = (some (.ok (.text "1")), t) := by
    rw [← hanswer, Prod.eta]
  obtain ⟨schema, hformatter⟩ := Option.isSome_iff_exists.mp hset
  obtain ⟨earlier, c, later, input, hcalls, hformats, -, -, hinput, -⟩ :=
    exists_formats hhistory hreturn hformatter
  exact ⟨hfailed, hreturn, hlast, schema, earlier, c, later, input, hcalls, hformats, hinput⟩

end Session

end PromptChain
