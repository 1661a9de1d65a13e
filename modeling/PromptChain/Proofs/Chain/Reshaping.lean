import PromptChain.Proofs.Chain.Listeners
import PromptChain.Proofs.Text.Templates
import PromptChain.Proofs.Value.Spelling
/-!
# Reshaping

To have a value reshaped is to hold a conversation of at most two requests with one provider.  The
chain that holds it comes to the same as `consult`, which makes the requests itself, and refers to
no chain.
-/

namespace PromptChain

namespace Session

variable {ε : Type} {b : Backend ε}

/-! ## What is asked for -/

def reshapePrompt : Value := .text ("\n".intercalate reshapeSystem)

def tokenSection (tag key : String) : String :=
  Prompt.sectionText tag (Text.tokenText key)

def transformTag : String := "transform_to_match_schema"

def requestTemplate : String :=
  tokenSection "schema" "schema" ++ tokenSection "example" "example" ++
    tokenSection transformTag "value"

def correctionTemplate (error response description : String) : String :=
  "\n".intercalate correctionLines ++ Prompt.sectionText "error" error ++
    Prompt.sectionText "response" response ++ Prompt.sectionText "schema" description ++
    tokenSection transformTag "value"

structure Shown where
  text : String
  description : Value
  sample : Value

def Shown.artifacts (given : Shown) : Table Value :=
  [(.text "schema", given.description), (.text "example", given.sample),
    (.text "value", .text given.text)]

def shown (v : Value) (schema : Schema) : Except Fault Shown :=
  match valueText v with
  | .error e => .error e
  | .ok text =>
    match schemaText schema with
    | .error e => .error e
    | .ok description => schema.exampleOf.map fun sample => ⟨text, description, sample⟩

def correction (given : Shown) (error : Fault) (response : Value) : Except Fault String :=
  match response.joinInput with
  | .error e => .error e
  | .ok response =>
    match given.description.joinInput with
    | .error e => .error e
    | .ok description =>
      resolve given.artifacts (correctionTemplate error.message response description)

/-- Parses the response to a request, or has it corrected once.  A second response that is null
leaves the first one. -/
def consultAgain (b : Backend ε) (provider : Value) (schema : Schema) (given : Shown)
    (request : String) (response : Value) (env : ε) : Except Fault Value × ε :=
  match schema.parse response with
  | .ok v => (.ok v, env)
  | .error e =>
    match correction given e response with
    | .error e => (.error e, env)
    | .ok text =>
      match b.chat provider [.user request, .assistant response, .user text] reshapePrompt env with
      | (.error e, env) => (.error e, env)
      | (.ok again, env) => (schema.parse (if again = .null then response else again), env)

def consultOnce (b : Backend ε) (provider : Value) (schema : Schema) (given : Shown)
    (request : Except Fault String) (env : ε) : Except Fault Value × ε :=
  match request with
  | .error e => (.error e, env)
  | .ok request =>
    match b.chat provider [.user request] reshapePrompt env with
    | (.error e, env) => (.error e, env)
    | (.ok response, env) =>
      if response = .null then (.error .emptyResult, env)
      else consultAgain b provider schema given request response env

def consult (b : Backend ε) (provider v : Value) (schema : Schema) (env : ε) :
    Except Fault Value × ε :=
  match shown v schema with
  | .error e => (.error e, env)
  | .ok given =>
    consultOnce b provider schema given (resolve given.artifacts requestTemplate) env

theorem shown_ok {v : Value} {schema : Schema} {given : Shown} (h : shown v schema = .ok given) :
    valueText v = .ok given.text ∧ schemaText schema = .ok given.description ∧
      schema.exampleOf = .ok given.sample := by
  unfold shown at h
  cases hvalue : valueText v with
  | error e => simp [hvalue] at h
  | ok text =>
    cases hschema : schemaText schema with
    | error e => simp [hvalue, hschema] at h
    | ok description =>
      cases hexample : schema.exampleOf with
      | error e => simp [hvalue, hschema, hexample, Except.map] at h
      | ok sample =>
        simp only [hvalue, hschema, hexample, Except.map, Except.ok.injEq] at h
        exact h ▸ ⟨rfl, rfl, rfl⟩

theorem joinInput_linesValue (lines : List String) :
    (linesValue lines).joinInput = .ok ("\n".intercalate lines) := by
  have hlines : List.Forall₂ Spells (lines.map .text) lines :=
    List.forall₂_map_left_iff.mpr (List.forall₂_same.mpr fun line _ => .text line)
  exact (Inputs.list hlines).joinInput

/-! ## Sending the last prompt -/

theorem walk_prompt {s : Session ε} {done : List Item} {i : Item} {p : Prompt}
    (hitems : s.chain.queue.entries = done ++ [i]) (hdone : ∀ j ∈ done, j.executed = true)
    (hpending : i.executed = false) (hstep : i.step = .prompt p) (hkey : p.saveKey? = none)
    {index : Nat} (hindex : index ≤ done.length) (budget : Nat) :
    walk b (budget + 1) index s =
      match p.message s.chain.artifacts with
      | .error e => (.failed e, 0, s)
      | .ok m =>
        match b.chat s.chain.active (s.chain.history.entries ++ [m]) s.chain.systemText s.env with
        | (.error e, env) => (.failed e, 0, { s with env })
        | (.ok response, env) =>
          (.finished, 1, (s.answer i.serial p m response env).complete i.serial response) := by
  have hnext : nextPending? s.chain.queue.entries index = some (done.length, i) :=
    hitems ▸ nextPending?_append_pending hdone hpending hindex
  have hexecute : s.execute b i = s.executePrompt b i.serial p := by simp [execute, hstep]
  have hsent := sent_executePrompt b s i.serial p
  rw [walk]
  simp only [hnext, hexecute]
  generalize s.executePrompt b i.serial p = result at hsent
  cases hsent with
  | unresolved hm => simp only [hm]
  | unanswered hm hchat => simp only [hm, hchat]
  | @answered m response env hm hchat =>
    have hlength : (s.answer i.serial p m response env).chain.queue.entries.length =
        done.length + 1 := by
      rw [chain_answer]
      simp [Chain.modifyItem, hitems]
    have hnone : nextPending? ((s.answer i.serial p m response env).complete i.serial
        response).chain.queue.entries (done.length + 1) = none := by
      apply nextPending?_of_length_le
      simp [complete, modifyItem, Chain.modifyItem, hlength]
    simp only [hm, hchat, Prompt.delivery, hkey, Option.map_none, keep, Except.map]
    rw [walk]
    simp only [hnone]

def entered (hidden : Bool) (exchange : List Message) : List Message :=
  if hidden then [] else exchange

structure Asks (c : Chain) (provider : Value) (artifacts : Table Value) (said : List Message)
    (hidden : Bool) : Prop where
  active : c.active = provider
  system : c.systemText = reshapePrompt
  artifacts : c.artifacts = artifacts
  said : c.history.entries = said
  hidden : c.history.incognito = hidden
  opened : c.queue.incognito = false
  formatter : c.formatter = none

section

variable {provider : Value} {artifacts : Table Value} {said : List Message} {hidden : Bool}

theorem Asks.append {c : Chain} (h : Asks c provider artifacts said hidden) (label : Value)
    (step : Step) : Asks (c.append label step).1 provider artifacts said hidden := by
  obtain ⟨hactive, hsystem, hartifacts, hsaid, hhidden, hopened, hformatter⟩ := h
  simp only [Chain.append, Journal.push, hopened]
  exact ⟨hactive, hsystem, hartifacts, hsaid, hhidden, rfl, hformatter⟩

theorem executed_answered {s : Session ε} {done : List Item} {i : Item}
    (hitems : s.chain.queue.entries = done ++ [i]) (hdone : ∀ j ∈ done, j.executed = true)
    (p : Prompt) (m : Message) (response : Value) (env : ε) :
    ∀ j ∈ ((s.answer i.serial p m response env).complete i.serial
      response).chain.queue.entries, j.executed = true := by
  intro j hj
  simp only [complete, modifyItem, chain_answer, Chain.modifyItem, hitems, List.map_map] at hj
  obtain ⟨k, hk, rfl⟩ := List.mem_map.mp hj
  rcases List.mem_append.mp hk with hk | hk
  · by_cases hserial : k.serial = i.serial <;> simp [hserial, Item.answered, Item.done, hdone k hk]
  · simp [List.mem_singleton.mp hk, Item.answered, Item.done]

theorem Asks.answer {s : Session ε} (h : Asks s.chain provider artifacts said hidden)
    (serial : Nat) {p : Prompt} (hincognito : p.incognito = false) (m : Message) (response : Value)
    (env : ε) (hresponse : response ≠ .null) :
    Asks ((s.answer serial p m response env).complete serial response).chain provider artifacts
      (said ++ entered hidden [m, .assistant response]) hidden := by
  obtain ⟨hactive, hsystem, hartifacts, hsaid, rfl, hopened, hformatter⟩ := h
  have hchain := chain_answer s serial p m response env
  simp only [hincognito, hresponse, Bool.false_or, decide_false, Bool.or_false] at hchain
  simp only [complete, modifyItem, hchain, Chain.modifyItem]
  refine ⟨hactive, hsystem, hartifacts, ?_, ?_, hopened, hformatter⟩ <;>
    cases hhidden : s.chain.history.incognito <;> simp [hsaid, hhidden, entered]

end

/-- What a run comes to that is no longer than a budget allows, on a chain without a formatter. -/
structure Settles (b : Backend ε) (budget : Nat) (run : Session ε → Answer × Session ε) :
    Prop where
  failed : ∀ {s t : Session ε} {e : Fault} {count : Nat},
    walk b budget 0 s = (.failed e, count, t) → run s = (some (.error e), t)
  finished : ∀ {s t : Session ε} {count : Nat}, walk b budget 0 s = (.finished, count, t) →
    t.chain.formatter = none → run s = (some (t.settle .null).1, (t.settle .null).2)

theorem settles_processPlain (fuel : Nat) :
    Settles b fuel (processPlain b (.all fuel) .null) where
  failed hwalk := by simp [processPlain, walkThen, Limit.budget, hwalk]
  finished hwalk _ := by simp [processPlain, walkThen, Limit.budget, hwalk]

theorem settles_process (fuel : Nat) : Settles b fuel (process b (.all fuel) .null) where
  failed hwalk := by simp [process, walkThen, Limit.budget, hwalk]
  finished hwalk hformatter := by simp [process, walkThen, Limit.budget, hwalk, hformatter]

/-- What may come of a run that sends a prompt last, on a chain whose last result is known.  A
response that is null leaves this result. -/
inductive Asked (b : Backend ε) (provider : Value) (artifacts : Table Value)
    (said : List Message) (hidden : Bool) (content : String) (last : Value) (env : ε) :
    Answer × Session ε → Prop where
  | unresolved {e : Fault} {t : Session ε} (hresolve : resolve artifacts content = .error e)
      (henv : t.env = env) :
      Asked b provider artifacts said hidden content last env (some (.error e), t)
  | unanswered {text : String} {e : Fault} {t : Session ε}
      (hresolve : resolve artifacts content = .ok text)
      (hchat : b.chat provider (said ++ [.user text]) reshapePrompt env = (.error e, t.env)) :
      Asked b provider artifacts said hidden content last env (some (.error e), t)
  | null {text : String} {t : Session ε} (hresolve : resolve artifacts content = .ok text)
      (hchat : b.chat provider (said ++ [.user text]) reshapePrompt env = (.ok .null, t.env)) :
      Asked b provider artifacts said hidden content last env
        (some (if last = .null then .error .emptyResult else .ok last), t)
  | answered {text : String} {response : Value} {t : Session ε}
      (hresolve : resolve artifacts content = .ok text)
      (hchat : b.chat provider (said ++ [.user text]) reshapePrompt env = (.ok response, t.env))
      (hresponse : response ≠ .null)
      (hasks : Asks t.chain provider artifacts
        (said ++ entered hidden [.user text, .assistant response]) hidden)
      (hdone : ∀ i ∈ t.chain.queue.entries, i.executed = true)
      (hlast : t.chain.last = response) :
      Asked b provider artifacts said hidden content last env (some (.ok response), t)

theorem asked_run {budget : Nat} {run : Session ε → Answer × Session ε}
    (hrun : Settles b budget run) {s t : Session ε} {provider : Value} {artifacts : Table Value}
    {said : List Message} {hidden : Bool} (hasks : Asks t.chain provider artifacts said hidden)
    {done : List Item} {i : Item} {p : Prompt} (hitems : t.chain.queue.entries = done ++ [i])
    (hdone : ∀ j ∈ done, j.executed = true) (hpending : i.executed = false)
    (hstep : i.step = .prompt p) (hkey : p.saveKey? = none) (hincognito : p.incognito = false)
    {index left count : Nat} (hindex : index ≤ done.length) {last : Value} {env : ε}
    (hlast : t.chain.last = last) (henv : t.env = env)
    (hwalk : walk b budget 0 s =
      ((walk b (left + 1) index t).1, count, (walk b (left + 1) index t).2.2)) :
    Asked b provider artifacts said hidden p.content last env (run s) := by
  subst hlast henv
  rw [walk_prompt hitems hdone hpending hstep hkey hindex, Prompt.message, hasks.artifacts,
    hasks.active, hasks.said, hasks.system] at hwalk
  cases hresolve : resolve artifacts p.content with
  | error e =>
    simp only [hresolve, Except.map] at hwalk
    rw [hrun.failed hwalk]
    exact .unresolved hresolve rfl
  | ok text =>
    simp only [hresolve, Except.map] at hwalk
    rcases hchat : b.chat provider (said ++ [.user text]) reshapePrompt t.env with ⟨e | r, env⟩
    · simp only [hchat] at hwalk
      rw [hrun.failed hwalk]
      exact .unanswered hresolve hchat
    · simp only [hchat] at hwalk
      have hlast : ((t.answer i.serial p (.user text) r env).complete i.serial r).chain.last =
          if r = .null then t.chain.last else r := by
        simp [complete, modifyItem, chain_answer, Chain.modifyItem]
      have henv : ((t.answer i.serial p (.user text) r env).complete i.serial r).env = env :=
        env_answer t i.serial p (.user text) r env
      have hformatter : ((t.answer i.serial p (.user text) r env).complete i.serial
          r).chain.formatter = none := by
        simp [complete, modifyItem, chain_answer, Chain.modifyItem, hasks.formatter]
      have hexecuted := executed_answered hitems hdone p (.user text) r env
      have hjoined := hasks.answer i.serial hincognito (.user text) r env
      generalize (t.answer i.serial p (.user text) r env).complete i.serial r = u at *
      obtain ⟨result, hsettled⟩ := chain_settle u .null
      have hanswer : (u.settle .null).1 =
          if u.chain.last = .null then .error .emptyResult else .ok u.chain.last := by
        rw [settle_null]
        exact apply_ite Prod.fst _ _ _
      rw [← henv, ← env_settle u .null] at hchat
      rw [hrun.finished hwalk hformatter, hanswer, hlast]
      by_cases hnull : r = .null
      · subst hnull
        exact .null hresolve hchat
      · obtain ⟨hactive, hsystem, hartifacts, hsaid, hhidden, hopened, hplain⟩ := hjoined hnull
        simp only [hnull, if_false] at hlast ⊢
        refine .answered hresolve hchat hnull ?_ ?_ ?_ <;> rw [hsettled]
        · exact ⟨hactive, hsystem, hartifacts, hsaid, hhidden, hopened, hplain⟩
        · exact hexecuted
        · exact hlast

def systemItem : Item where
  serial := 0
  label := .text Chain.systemLabel
  step := .system ("\n".intercalate reshapeSystem)

def requestItem : Item where
  serial := 1
  label := .text "Format"
  step := .prompt { content := requestTemplate, label := .text "Format" }

theorem slug_transformName : Text.slug transformName = transformTag := by decide +kernel

theorem editAll_requestEdits (artifacts : Table Value) :
    ({} : Prompt).editAll artifacts requestEdits =
      .ok { content := requestTemplate, label := .text "Format" } := by
  have hschema : Text.slug "Schema:" = "schema" := by decide +kernel
  have hexample : Text.slug "Example" = "example" := by decide +kernel
  simp [requestEdits, Prompt.editAll, Prompt.edit, sectionEdit, Prompt.addSection, Value.slugged,
    Value.joinInput, token, hschema, hexample, slug_transformName, requestTemplate, tokenSection,
    Text.tokenText]

/-- A chain with nothing left to do, whose results are not formatted. -/
structure Idle (c : Chain) : Prop where
  rest : ∀ i ∈ c.queue.entries, i.executed = true
  opened : c.queue.incognito = false
  formatter : c.formatter = none

theorem idle_of_start {providers : List Value} {active system formatKey : Value} {c : Chain}
    (hstart : Chain.start providers active system formatKey = .ok c) : Idle c := by
  obtain ⟨formatKey, rfl⟩ := start_eq hstart
  exact ⟨fun i hi => absurd hi (by simp), rfl, rfl⟩

def Shown.inserted (given : Shown) (artifacts : Table Value) : Table Value :=
  ((artifacts.put (.text "schema") given.description).put (.text "example") given.sample).put
    (.text "value") (.text given.text)

theorem Shown.inserted_nil (given : Shown) : given.inserted [] = given.artifacts := by
  simp [inserted, artifacts, Table.put, Value.same]

section

variable (b) (s : Session ε) {v : Value} {schema : Schema}

/-- What the request to transform a value leaves: a system prompt in the place of those that there
were, and the request behind all else. -/
theorem request_opened (hopened : s.chain.queue.incognito = false) {given : Shown}
    (h : shown v schema = .ok given) :
    ∃ t, s.request b v schema = (.ok (), t) ∧ t.env = s.env ∧ t.chain = { s.chain with
      queue := { s.chain.queue with
        entries := { systemItem with serial := s.chain.created } ::
          (s.chain.queue.entries.filter (fun i => !i.isSystem) ++
            [{ requestItem with serial := s.chain.created + 1 }]) }
      artifacts := given.inserted s.chain.artifacts
      created := s.chain.created + 2 } := by
  obtain ⟨hvalue, hschema, hexample⟩ := shown_ok h
  refine ⟨(s.request b v schema).2, ?_, ?_, ?_⟩ <;>
    simp [request, hvalue, hschema, hexample, performAll, performWith, perform, Chain.perform,
      Chain.system, Chain.dropSystem, Journal.filter, Journal.retain, Chain.prependSystem,
      Journal.unshift, joinInput_linesValue, Chain.insert, Table.set, Value.asKey, Value.unkeyed?,
      Except.map, Chain.build, editAll_requestEdits, Chain.append, Journal.push, take, emit,
      systemItem, requestItem, Shown.inserted, hopened]

theorem walk_system {i : Item} {rest : List Item} (hitems : s.chain.queue.entries = i :: rest)
    (hpending : i.executed = false) {text : String} (hstep : i.step = .system text)
    (budget : Nat) :
    let t := { s with chain := { s.chain with systemText := .text text } }.complete i.serial .null
    walk b (budget + 1) 0 s =
      ((walk b budget 1 t).1, (walk b budget 1 t).2.1 + 1, (walk b budget 1 t).2.2) := by
  intro t
  have hnext : nextPending? s.chain.queue.entries 0 = some (0, i) := by
    simp [hitems, nextPending?, hpending]
  have hexecute : s.execute b i = s.setSystem (.text text) := by simp [execute, hstep]
  rw [walk]
  simp only [hnext, hexecute, setSystem]
  rfl

theorem request_of_error {e : Fault} (h : shown v schema = .error e) :
    ∃ t, s.request b v schema = (.error e, t) ∧ t.env = s.env := by
  unfold shown at h
  unfold request
  cases hvalue : valueText v with
  | error e' =>
    simp only [hvalue, Except.error.injEq] at h
    exact h ▸ ⟨_, rfl, rfl⟩
  | ok text =>
    simp only [hvalue, performAll, perform, Chain.perform, Chain.system,
      joinInput_linesValue] at h ⊢
    cases hschema : schemaText schema with
    | error e' =>
      simp only [hschema, Except.error.injEq] at h
      exact h ▸ ⟨_, rfl, rfl⟩
    | ok description =>
      cases hexample : schema.exampleOf with
      | error e' =>
        simp only [hschema, hexample, Except.map, Except.error.injEq] at h
        exact h ▸ ⟨_, rfl, rfl⟩
      | ok sample => simp [hschema, hexample, Except.map] at h

end

def Comes (result : Answer × Session ε) (outcome : Except Fault Value × ε) : Prop :=
  result.1 = some outcome.1 ∧ result.2.env = outcome.2

theorem editAll_correctionEdits (artifacts : Table Value) (error : String)
    (response description : Value) :
    ({} : Prompt).editAll artifacts (correctionEdits error response description) =
      match response.joinInput with
      | .error e => .error e
      | .ok response =>
        match description.joinInput with
        | .error e => .error e
        | .ok description => .ok {
            content := correctionTemplate error response description
            label := .text "Format retry" } := by
  have herror : Text.slug "error" = "error" := by decide +kernel
  have hresponse : Text.slug "response" = "response" := by decide +kernel
  have hschema : Text.slug "Schema" = "schema" := by decide +kernel
  simp only [correctionEdits, Prompt.editAll, Prompt.edit, sectionEdit, Prompt.addSection,
    Value.slugged, joinInput_linesValue, Except.map, herror, hresponse, hschema, slug_transformName,
    Value.joinInput.eq_1, token]
  cases response.joinInput with
  | error e => rfl
  | ok r =>
    cases description.joinInput with
    | error e => rfl
    | ok d => rfl

def retryPrompt (content : String) : Prompt := { content, label := .text "Format retry" }

def reparsed (schema : Schema) : Answer × Session ε → Answer × Session ε
  | (some (.ok again), s) => (some (schema.parse again), s)
  | (answer, s) => (answer, s)

theorem correct_of_error {run : Session ε → Answer × Session ε} {schema : Schema}
    {response description : Value} {e : Fault} (hparse : schema.parse response = .error e)
    (hschema : schemaText schema = .ok description) {r d : String}
    (hresponse : response.joinInput = .ok r) (hdescription : description.joinInput = .ok d)
    (s : Session ε) :
    correct b run schema response s =
      reparsed schema (run (s.take (s.chain.append (.text "Format retry")
        (.prompt (retryPrompt (correctionTemplate e.message r d)))))) := by
  simp only [correct, hparse, hschema, performWith, performAll, perform, Chain.perform,
    Chain.build, editAll_correctionEdits, hresponse, hdescription]
  rfl

section

variable {run : Session ε → Answer × Session ε} {extra : Nat} (hrun : Settles b (extra + 2) run)

include hrun

theorem asked_retry {s : Session ε} {provider : Value} {artifacts : Table Value}
    {said : List Message} {hidden : Bool} (hasks : Asks s.chain provider artifacts said hidden)
    (hdone : ∀ i ∈ s.chain.queue.entries, i.executed = true) (content : String) :
    Asked b provider artifacts said hidden content s.chain.last s.env
      (run (s.take (s.chain.append (.text "Format retry") (.prompt (retryPrompt content))))) := by
  let t := s.take (s.chain.append (.text "Format retry") (.prompt (retryPrompt content)))
  have hwalk : walk b (extra + 2) 0 t = ((walk b (extra + 1 + 1) 0 t).1,
    (walk b (extra + 1 + 1) 0 t).2.1, (walk b (extra + 1 + 1) 0 t).2.2) := rfl
  exact asked_run hrun (t := t) (hasks.append _ _) (Chain.entries_append hasks.opened _ _) hdone
    rfl rfl rfl rfl (Nat.zero_le _) rfl rfl hwalk

theorem asked_request {s : Session ε} (hidle : Idle s.chain) {v : Value} {schema : Schema}
    {given : Shown} (hgiven : shown v schema = .ok given) :
    ∃ t, s.request b v schema = (.ok (), t) ∧
      Asked b s.chain.active (given.inserted s.chain.artifacts) s.chain.history.entries
        s.chain.history.incognito requestTemplate s.chain.last s.env (run t) := by
  obtain ⟨t, hrequest, henv, hchain⟩ := request_opened b s hidle.opened hgiven
  refine ⟨t, hrequest, ?_⟩
  have hwalk := walk_system b t (by rw [hchain]) rfl rfl (extra + 1)
  let u := { t with chain := { t.chain with systemText := reshapePrompt } }.complete
    s.chain.created .null
  let mark (i : Item) : Item := if i.serial = s.chain.created then i.done else i
  have hitems : u.chain.queue.entries =
      { systemItem with serial := s.chain.created }.done ::
        (s.chain.queue.entries.filter fun i => !i.isSystem).map mark ++
          [{ requestItem with serial := s.chain.created + 1 }] := by
    simp [u, mark, complete, modifyItem, Chain.modifyItem, hchain, requestItem]
  have hdone : ∀ i ∈ { systemItem with serial := s.chain.created }.done ::
      (s.chain.queue.entries.filter fun i => !i.isSystem).map mark, i.executed = true := by
    refine List.forall_mem_cons.mpr ⟨rfl, fun i hi => ?_⟩
    obtain ⟨old, hold, rfl⟩ := List.mem_map.mp hi
    simp only [mark]
    split
    · rfl
    · exact hidle.rest old (List.mem_filter.mp hold).1
  have hasks : Asks u.chain s.chain.active (given.inserted s.chain.artifacts)
      s.chain.history.entries s.chain.history.incognito := by
    constructor <;>
      simp [u, complete, modifyItem, Chain.modifyItem, hchain, hidle.opened, hidle.formatter]
  have hlast : u.chain.last = s.chain.last := by
    simp [u, complete, modifyItem, Chain.modifyItem, hchain]
  exact asked_run hrun hasks hitems hdone rfl rfl rfl rfl (by simp) hlast henv hwalk

theorem comes_correct {s : Session ε} {provider response : Value} {schema : Schema}
    {given : Shown} {request : String} (hschema : schemaText schema = .ok given.description)
    (hasks : Asks s.chain provider given.artifacts [.user request, .assistant response] false)
    (hdone : ∀ i ∈ s.chain.queue.entries, i.executed = true) (hlast : s.chain.last = response)
    (hresponse : response ≠ .null) :
    Comes (correct b run schema response s)
      (consultAgain b provider schema given request response s.env) := by
  unfold consultAgain
  cases hparse : schema.parse response with
  | ok v =>
    simp only [correct, hparse]
    exact ⟨rfl, rfl⟩
  | error e =>
    simp only [correction]
    cases hr : response.joinInput with
    | error e' =>
      simp only [correct, hparse, hschema, performWith, performAll, perform, Chain.perform,
        Chain.build, editAll_correctionEdits, hr]
      exact ⟨rfl, rfl⟩
    | ok r =>
      cases hd : given.description.joinInput with
      | error e' =>
        simp only [correct, hparse, hschema, performWith, performAll, perform, Chain.perform,
          Chain.build, editAll_correctionEdits, hr, hd]
        exact ⟨rfl, rfl⟩
      | ok d =>
        have hasked := asked_retry hrun hasks hdone (correctionTemplate e.message r d)
        rw [hlast] at hasked
        rw [correct_of_error hparse hschema hr hd]
        dsimp only
        generalize run (s.take _) = result at hasked ⊢
        cases hasked with
        | unresolved hresolve henv =>
          simp only [hresolve]
          exact ⟨rfl, henv⟩
        | unanswered hresolve hchat =>
          simp only [List.cons_append, List.nil_append] at hchat
          simp only [hresolve, hchat]
          exact ⟨rfl, rfl⟩
        | null hresolve hchat =>
          simp only [List.cons_append, List.nil_append] at hchat
          simp only [hresolve, hchat, hresponse, if_false, if_true]
          exact ⟨rfl, rfl⟩
        | answered hresolve hchat hagain =>
          simp only [List.cons_append, List.nil_append] at hchat
          simp only [hresolve, hchat, hagain, if_false]
          exact ⟨rfl, rfl⟩

/-- What the first run of a reshaping comes to decides what the reshaping comes to. -/
theorem comes_of_asked {s t : Session ε} {provider v : Value} {schema : Schema} {given : Shown}
    {env : ε} (hgiven : shown v schema = .ok given) (hrequest : s.request b v schema = (.ok (), t))
    (hasked : Asked b provider given.artifacts [] false requestTemplate .null env (run t)) :
    Comes (reshapeWith b run v schema s) (consult b provider v schema env) := by
  have hconsult : consult b provider v schema env = consultOnce b provider schema given
      (resolve given.artifacts requestTemplate) env := by rw [consult, hgiven]
  unfold reshapeWith
  rw [hconsult, hrequest]
  dsimp only
  generalize run t = result at hasked ⊢
  cases hasked with
  | unresolved hresolve henv =>
    rw [hresolve]
    exact ⟨rfl, henv⟩
  | unanswered hresolve hchat =>
    rw [List.nil_append] at hchat
    rw [hresolve]
    simp only [consultOnce, hchat]
    exact ⟨rfl, rfl⟩
  | null hresolve hchat =>
    rw [List.nil_append] at hchat
    rw [hresolve]
    simp only [consultOnce, hchat, if_true]
    exact ⟨rfl, rfl⟩
  | answered hresolve hchat hresponse hasks hdone hlast =>
    rw [List.nil_append] at hchat
    rw [hresolve]
    simp only [consultOnce, hchat, hresponse, if_false]
    exact comes_correct hrun (shown_ok hgiven).2.1 hasks hdone hlast hresponse

/-- To have a value reshaped on a new chain is to consult its provider. -/
theorem comes_reshapeWith {providers : List Value} {active system formatKey : Value} {c : Chain}
    (hstart : Chain.start providers active system formatKey = .ok c)
    (channel : Option (Telemetry.Channel Notice)) (env : ε) (v : Value) (schema : Schema) :
    Comes (reshapeWith b run v schema { chain := c, channel, env })
      (consult b active v schema env) := by
  have hidle := idle_of_start hstart
  cases hgiven : shown v schema with
  | error e =>
    obtain ⟨t, hrequest, henv⟩ := request_of_error b { chain := c, channel, env } hgiven
    simp only [reshapeWith, hrequest, consult, hgiven]
    exact ⟨rfl, henv⟩
  | ok given =>
    obtain ⟨t, hrequest, hasked⟩ :=
      asked_request hrun (s := { chain := c, channel, env }) hidle hgiven
    obtain ⟨formatKey, rfl⟩ := start_eq hstart
    rw [given.inserted_nil] at hasked
    exact comes_of_asked hrun hgiven hrequest hasked

end

end Session

end PromptChain
