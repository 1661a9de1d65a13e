import PromptChain.Proofs.Chain.Reshaping
/-!
# At most one correction

What comes of having a value reshaped, told in texts.  A provider is asked to transform the value,
with what the schema describes and an example before it, word for word.  A response that parses is
what comes of it.  A response that does not is followed by one request to correct it, and what the
second response parses to comes of it, be it an error.
-/

namespace PromptChain

variable {ε : Type} {b : Backend ε}

/-! ## What is sent -/

def Backend.ask (b : Backend ε) (r : Request) (env : ε) : Except Fault Value × ε :=
  b.chat r.provider r.messages r.system env

def Backend.RepliesText (b : Backend ε) : Prop :=
  ∀ provider messages system env response env₁,
    b.chat provider messages system env = (.ok response, env₁) → ∃ r, Spells response r

namespace Session

/-- How a value is shown to a model: a text as it is, anything else as JSON. -/
inductive Displays : Value → String → Prop where
  | text {v : Value} {s : String} (h : Spells v s) : Displays v s
  | json {v : Value} {s : String} (h : ∀ t, ¬Spells v t) (hjson : Json.compact v = .ok s) :
      Displays v s

/-- Whether a schema is described by a text; one without a description is unknown. -/
def Described (schema : Schema) (d : String) : Prop :=
  ∃ desc, schema.desc = .ok desc ∧ if desc.isFalsy then d = "unknown schema" else Spells desc d

/-- How the example of a schema is shown; if there is none, the token for it is. -/
def Exemplified (schema : Schema) (x : String) : Prop :=
  ∃ sample, schema.exampleOf = .ok sample ∧
    if sample = .null then x = "\x7b\x7bexample\x7d\x7d" else Displays sample x

theorem Displays.valueText {v : Value} {s : String} (h : Displays v s) : valueText v = .ok s := by
  cases h with
  | text h => cases h <;> rfl
  | json h hjson =>
    cases v with
    | text s => exact absurd (.text s) (h s)
    | brokenText points => exact absurd (.broken points) (h _)
    | _ => exact hjson

theorem Displays.artifactText {artifacts : Table Value} {key : String} {v : Value} {s : String}
    (h : Displays v s) (hnull : v ≠ .null) (hkey : artifacts.get? (.text key) = some v) :
    artifactText artifacts key = .ok (some s) := by
  unfold PromptChain.artifactText
  rw [hkey]
  cases h with
  | text h => cases h <;> rfl
  | json h hjson =>
    cases v with
    | null => exact absurd rfl hnull
    | text s => exact absurd (.text s) (h s)
    | brokenText points => exact absurd (.broken points) (h _)
    | _ => simp [hjson, Except.map]

theorem filled_tokenSection {found : String → Option String} {tag key : String}
    (htag : '\x7b' ∉ tag.toList) (hne : key.toList ≠ [])
    (hkey : key.toList.all Text.isKeyChar = true) (rest : String) :
    Text.filled found (tokenSection tag key ++ rest) =
      Prompt.sectionText tag ((found key).getD (Text.tokenText key)) ++ Text.filled found rest := by
  have hopen : '\x7b' ∉ ("\n\n<" ++ tag ++ ">\n").toList := by simp [htag]
  have hclose : '\x7b' ∉ ("\n</" ++ tag ++ ">\n\n").toList := by simp [htag]
  calc Text.filled found (tokenSection tag key ++ rest)
    _ = Text.filled found (("\n\n<" ++ tag ++ ">\n") ++
          (Text.tokenText key ++ (("\n</" ++ tag ++ ">\n\n") ++ rest))) := by
      simp only [tokenSection, Prompt.sectionText, String.append_assoc]
    _ = ("\n\n<" ++ tag ++ ">\n") ++ ((found key).getD (Text.tokenText key) ++
          (("\n</" ++ tag ++ ">\n\n") ++ Text.filled found rest)) := by
      rw [Text.filled_append hopen, Text.filled_token hne (List.all_eq_true.mp hkey),
        Text.filled_append hclose]
    _ = Prompt.sectionText tag ((found key).getD (Text.tokenText key)) ++
          Text.filled found rest := by
      simp only [Prompt.sectionText, String.append_assoc]

def requestText (d x t : String) : String :=
  Prompt.sectionText "schema" d ++ Prompt.sectionText "example" x ++
    Prompt.sectionText transformTag t

def artifactFor (d x t key : String) : Option String :=
  if key = "schema" then some d
  else if key = "example" then some x
  else if key = "value" then some t
  else none

theorem filled_requestTemplate (d x t : String) :
    Text.filled (artifactFor d x t) requestTemplate = requestText d x t := by
  have hsplit : requestTemplate = tokenSection "schema" "schema" ++
      (tokenSection "example" "example" ++ (tokenSection transformTag "value" ++ "")) := by
    rw [requestTemplate, String.append_empty, String.append_assoc]
  rw [hsplit, filled_tokenSection (by decide) (by decide) (by decide +kernel),
    filled_tokenSection (by decide) (by decide) (by decide +kernel),
    filled_tokenSection (by decide +kernel) (by decide) (by decide +kernel), Text.filled_empty]
  simp [artifactFor, requestText, String.append_assoc]

theorem exists_description {schema : Schema} {d : String} (h : Described schema d) :
    ∃ description, schemaText schema = .ok description ∧ Spells description d := by
  obtain ⟨desc, hdesc, hd⟩ := h
  rw [schemaText, hdesc, Except.map]
  split at hd
  · next hfalsy => exact ⟨unknownSchema, by rw [if_pos hfalsy], hd ▸ .text _⟩
  · next hfalsy => exact ⟨desc, by rw [if_neg hfalsy], hd⟩

theorem exists_shown {v : Value} {schema : Schema} {d x t : String} (hvalue : Displays v t)
    (hdesc : Described schema d) (hexample : Exemplified schema x) :
    ∃ given : Shown, shown v schema = .ok given ∧ given.description.joinInput = .ok d ∧
      ∀ s, resolve given.artifacts s = .ok (Text.filled (artifactFor d x t) s) := by
  obtain ⟨description, hschema, hd⟩ := exists_description hdesc
  obtain ⟨sample, hsample, hx⟩ := hexample
  refine ⟨⟨t, description, sample⟩, ?_, hd.joinInput, Text.substitute_eq fun key => ?_⟩
  · simp [shown, hvalue.valueText, hschema, hsample, Except.map]
  by_cases hkey : key = "schema"
  · subst hkey
    exact ⟨some d, (Displays.text hd).artifactText hd.ne_null rfl, rfl⟩
  by_cases hkey' : key = "example"
  · subst hkey'
    split at hx
    · next hnull =>
      subst hnull hx
      have htoken : Text.tokenText "example" = "\x7b\x7bexample\x7d\x7d" := by decide +kernel
      exact ⟨none, rfl, by simp [artifactFor, htoken]⟩
    · next hnull => exact ⟨some x, hx.artifactText hnull rfl, rfl⟩
  by_cases hkey'' : key = "value"
  · subst hkey''
    exact ⟨some t, rfl, rfl⟩
  · refine ⟨none, ?_, by simp [artifactFor, hkey, hkey', hkey'']⟩
    simp [artifactText, Shown.artifacts, Table.get?, Value.same, Ne.symm hkey, Ne.symm hkey',
      Ne.symm hkey'']

/-! ## At most one correction -/

def firstRequest (provider : Value) (d x t : String) : Request :=
  ⟨provider, [.user (requestText d x t)], reshapePrompt⟩

def secondRequest (provider : Value) (d x t : String) (response : Value) (r error : String) :
    Request :=
  ⟨provider, [.user (requestText d x t), .assistant response,
    .user (Text.filled (artifactFor d x t) (correctionTemplate error r d))], reshapePrompt⟩

/-- What comes of having a text transformed to match a schema: the outcome, the requests that are
made, each with its reply, and the world after them. -/
inductive Consulted (b : Backend ε) (provider : Value) (schema : Schema) (d x t : String)
    (env : ε) : Except Fault Value → Account → ε → Prop where
  | unanswered {e : Fault} {env₁ : ε}
      (hask : b.ask (firstRequest provider d x t) env = (.error e, env₁)) :
      Consulted b provider schema d x t env (.error e)
        [(firstRequest provider d x t, .error e)] env₁
  | parsed {response w : Value} {env₁ : ε}
      (hask : b.ask (firstRequest provider d x t) env = (.ok response, env₁))
      (hparse : schema.parse response = .ok w) :
      Consulted b provider schema d x t env (.ok w)
        [(firstRequest provider d x t, .ok response)] env₁
  | corrected {response : Value} {r : String} {e : Fault} {reply : Except Fault Value}
      {env₁ env₂ : ε} (hask : b.ask (firstRequest provider d x t) env = (.ok response, env₁))
      (hparse : schema.parse response = .error e) (hspells : Spells response r)
      (hagain : b.ask (secondRequest provider d x t response r e.message) env₁ = (reply, env₂)) :
      Consulted b provider schema d x t env (reply.bind schema.parse)
        [(firstRequest provider d x t, .ok response),
          (secondRequest provider d x t response r e.message, reply)] env₂

theorem consulted {v : Value} {schema : Schema} {d x t : String} (hvalue : Displays v t)
    (hdesc : Described schema d) (hexample : Exemplified schema x) (hreplies : b.RepliesText)
    (provider : Value) (env : ε) (past : Account) :
    ∃ outcome sent env', Consulted b provider schema d x t env outcome sent env' ∧
      consult b.traced provider v schema (env, past) = (outcome, env', past ++ sent) := by
  obtain ⟨given, hshown, hd, hresolve⟩ := exists_shown hvalue hdesc hexample
  have hrequest := hresolve requestTemplate
  rw [filled_requestTemplate] at hrequest
  simp only [consult, hshown, hrequest, consultOnce]
  rcases hask : b.chat provider [.user (requestText d x t)] reshapePrompt env with ⟨reply, env₁⟩
  rw [Backend.chat_traced hask]
  cases reply with
  | error e => exact ⟨_, _, _, .unanswered hask, rfl⟩
  | ok response =>
    obtain ⟨r, hr⟩ := hreplies _ _ _ _ _ _ hask
    simp only [hr.ne_null, if_false, consultAgain]
    cases hparse : schema.parse response with
    | ok w => exact ⟨_, _, _, .parsed hask hparse, rfl⟩
    | error e =>
      simp only [correction, hr.joinInput, hd, hresolve]
      rcases hagain : b.chat provider [.user (requestText d x t), .assistant response,
        .user (Text.filled (artifactFor d x t) (correctionTemplate e.message r d))] reshapePrompt
        env₁ with ⟨reply, env₂⟩
      have hcorrected := Consulted.corrected hask hparse hr hagain
      refine ⟨_, _, _, hcorrected, ?_⟩
      rw [Backend.chat_traced hagain, List.append_assoc]
      cases reply with
      | error e' => rfl
      | ok again =>
        obtain ⟨r', hr'⟩ := hreplies _ _ _ _ _ _ hagain
        simp only [hr'.ne_null, if_false]
        rfl

/-- **A value that is reshaped earns at most one correction.** On a new chain, with providers that
reply texts, the chain's provider is asked to transform the value.  If the response parses, nothing
else is asked.  If it does not, one correction is asked for, and what the second response parses
to comes of it.  A request that fails ends it. -/
theorem reshape_consulted {providers : List Value} {active system formatKey : Value} {c : Chain}
    (hstart : Chain.start providers active system formatKey = .ok c)
    (channel : Option (Telemetry.Channel Notice)) {v : Value} {schema : Schema} {d x t : String}
    (hvalue : Displays v t) (hdesc : Described schema d) (hexample : Exemplified schema x)
    (hreplies : b.RepliesText) {fuel : Nat} (hfuel : 2 ≤ fuel) (env : ε) (past : Account) :
    ∃ outcome sent env', Consulted b active schema d x t env outcome sent env' ∧
      let result := reshape b.traced fuel v schema { chain := c, channel, env := (env, past) }
      result.1 = some outcome ∧ result.2.env = (env', past ++ sent) := by
  obtain ⟨extra, rfl⟩ := Nat.exists_eq_add_of_le' hfuel
  obtain ⟨outcome, sent, env', hconsulted, hconsult⟩ :=
    consulted hvalue hdesc hexample hreplies active env past
  have hcomes := comes_reshapeWith (b := b.traced) (settles_process (extra + 2)) hstart channel
    (env, past) v schema
  rw [hconsult] at hcomes
  exact ⟨outcome, sent, env', hconsulted, hcomes⟩

/-- A provider that gives texts in order, whatever it is asked, and fails when none are left. -/
def recited : Backend (List String) where
  chat _ _ _
    | [] => (.error (.outside "ConnectionError" "offline"), [])
    | reply :: rest => (.ok (.text reply), rest)
  useModel _ _ replies := (.ok (), replies)

/-- A response that is no number is corrected, and the second one is a number. -/
theorem reshape_consulted_recited :
    let c := (scripted []).chain
    let schema : Schema := .number (.text "count")
    let env : List String × Account := (["three", "3"], [])
    Chain.start [Chain.fastKey] Chain.fastKey = .ok c ∧ Displays (.bool true) "true" ∧
      Described schema "number: count" ∧ Exemplified schema "42" ∧ recited.RepliesText ∧
      let result := reshape recited.traced 2 (.bool true) schema { chain := c, env }
      ∃ first second, result.1 = some (.ok (.int 3)) ∧ result.2.env = ([], [first, second]) := by
  intro c schema env
  have hstart : Chain.start [Chain.fastKey] Chain.fastKey = .ok c := rfl
  have hvalue : Displays (.bool true) "true" := .json (fun _ h => by cases h) (by decide +kernel)
  have hdesc : Described schema "number: count" := by
    refine ⟨.text "number: count", ?_, .text _⟩
    simp only [schema, Schema.desc, Schema.descOrKind]
    decide +kernel
  have hexample : Exemplified schema "42" :=
    ⟨.int 42, rfl, .json (fun _ h => by cases h) (by decide +kernel)⟩
  have hreplies : recited.RepliesText := by
    intro _ _ _ env _ _ h
    cases env with
    | nil => cases h
    | cons reply rest =>
      cases h
      exact ⟨reply, .text reply⟩
  refine ⟨hstart, hvalue, hdesc, hexample, hreplies, ?_⟩
  obtain ⟨_, _, _, hconsulted, hanswer, hsent⟩ :=
    reshape_consulted hstart none hvalue hdesc hexample hreplies (Nat.le_refl 2) ["three", "3"] []
  simp only [schema, env, hanswer, hsent]
  cases hconsulted with
  | unanswered hask => cases hask
  | parsed hask hparse =>
    cases hask
    have hfails : (schema.parse (.text "three")).isOk = false := by decide +kernel
    rw [hparse] at hfails
    cases hfails
  | corrected hask hparse hspells hagain =>
    cases hask
    cases hagain
    have hparses : schema.parse (.text "3") = .ok (.int 3) := by decide +kernel
    exact ⟨_, _, congrArg some hparses, rfl⟩

end Session

end PromptChain
