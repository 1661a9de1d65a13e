import PromptChain.Proofs.Chain.Correction
import PromptChain.Proofs.Prompt.Sections
/-!
# What a correction quotes

The request to correct a response quotes the error, the response and the description of the schema,
each in a section of the template that is resolved when the request is sent.  The quotations are
resolved as well: a token in one of them is replaced by the artifact that it names
(`correction_quoted`), also where it is nothing but what a model answered.  The value, which is an
artifact itself, gets to the model as it is.
-/

namespace PromptChain

open Text (IsKey tokenChars tokenText)

namespace Session

variable {ε : Type} {b : Backend ε}

/-! ## The text of the request -/

def correctionText (error response description text : String) : String :=
  Prompt.sectioned ("\n".intercalate correctionLines)
    [("error", error), ("response", response), ("schema", description), (transformTag, text)]

/-- The text of a request to correct a response, with artifacts in the place of the tokens in what
it quotes. -/
def quoted (artifacts : Table Value) (error response description text : String) :
    Except Fault String :=
  (resolve artifacts error).bind fun error =>
    (resolve artifacts response).bind fun response =>
      (resolve artifacts description).map fun description =>
        correctionText error response description text

theorem correctionTemplate_eq (error response description : String) :
    correctionTemplate error response description =
      correctionText error response description (tokenText "value") := by
  simp [correctionTemplate, correctionText, Prompt.sectioned, tokenSection, String.append_assoc]

theorem resolve_eq_self {artifacts : Table Value} {s : String}
    (h : ∀ key : String, IsKey key.toList → tokenChars key.toList <:+: s.toList →
      artifactText artifacts key = .ok none) : resolve artifacts s = .ok s :=
  Text.substitute_eq_self h

theorem resolve_token {artifacts : Table Value} {key text : String} (hkey : IsKey key.toList)
    (h : artifacts.get? (.text key) = some (.text text)) :
    resolve artifacts (tokenText key) = .ok text := by
  have hempty : resolve artifacts "" = .ok "" := rfl
  have htoken : resolve artifacts ("" ++ tokenText key ++ "") =
      (resolve artifacts "").bind fun before =>
        (Text.tokenValue (artifactText artifacts) key).bind fun value =>
          (resolve artifacts "").map fun behind => before ++ value ++ behind :=
    Text.substitute_token hkey "" ""
  rw [hempty, tokenValue_artifactText, standing, h] at htoken
  simpa [Except.bind, Except.map] using htoken

theorem resolve_correctionLines (artifacts : Table Value) :
    resolve artifacts ("\n".intercalate correctionLines) =
      .ok ("\n".intercalate correctionLines) := by
  have hbrace : '\x7b' ∉ ("\n".intercalate correctionLines).toList := by decide +kernel
  exact resolve_eq_self fun key _ hpart => absurd (hpart.subset (by simp [tokenChars])) hbrace

theorem resolve_correctionTemplate {artifacts : Table Value} {text : String}
    (hvalue : artifacts.get? (.text "value") = some (.text text))
    (error response description : String) :
    resolve artifacts (correctionTemplate error response description) =
      quoted artifacts error response description text := by
  have htags : ∀ part ∈ [("error", error), ("response", response), ("schema", description),
      (transformTag, tokenText "value")], '\x7b' ∉ part.1.toList := by
    have htransform : '\x7b' ∉ transformTag.toList := by decide +kernel
    simp [htransform]
  have hkey : IsKey "value".toList := by decide +kernel
  rw [correctionTemplate_eq, correctionText, resolve_sectioned artifacts htags,
    resolve_correctionLines]
  simp only [resolveSections, List.mapM_cons, resolve_token hkey hvalue, quoted]
  cases resolve artifacts error with
  | error e => rfl
  | ok error =>
    cases resolve artifacts response with
    | error e => rfl
    | ok response =>
      cases resolve artifacts description with
      | error e => rfl
      | ok description => rfl

/-! ## The request -/

/-- What comes of a correction: it is asked for as far as there is a text to ask with, and what the
second response parses to is the outcome.  One that is null leaves the first one. -/
inductive Corrects (b : Backend ε) (provider : Value) (said : List Message) (schema : Schema)
    (response : Value) (env : ε) : Except Fault String → Except Fault Value → Account → ε → Prop
  | unquoted (e : Fault) : Corrects b provider said schema response env (.error e) (.error e) [] env
  | asked {content : String} {reply : Except Fault Value} {env' : ε}
      (hask : b.ask ⟨provider, said ++ [.user content], reshapePrompt⟩ env = (reply, env')) :
      Corrects b provider said schema response env (.ok content)
        (reply.bind fun again => schema.parse (if again = .null then response else again))
        [(⟨provider, said ++ [.user content], reshapePrompt⟩, reply)] env'

theorem given_of_shown {v : Value} {schema : Schema} {given : Shown}
    (hgiven : shown v schema = .ok given) {t d : String} (hvalue : Displays v t)
    (hdesc : Described schema d) :
    given.text = t ∧ schemaText schema = .ok given.description ∧
      given.description.joinInput = .ok d := by
  obtain ⟨htext, hschema, -⟩ := shown_ok hgiven
  obtain ⟨description, hdescription, hspells⟩ := exists_description hdesc
  have hsame : given.description = description :=
    Except.ok.inj (hschema.symm.trans hdescription)
  exact ⟨Except.ok.inj (htext.symm.trans hvalue.valueText), hschema, hsame ▸ hspells.joinInput⟩

theorem ask_of_traced {provider system : Value} {messages : List Message} {env : ε} {past : Account}
    {reply : Except Fault Value} {env' : ε × Account}
    (h : b.traced.chat provider messages system (env, past) = (reply, env')) :
    ∃ world, b.ask ⟨provider, messages, system⟩ env = (reply, world) ∧
      env' = (world, past ++ [(⟨provider, messages, system⟩, reply)]) := by
  rcases hask : b.chat provider messages system env with ⟨told, world⟩
  rw [Backend.chat_traced hask] at h
  cases h
  exact ⟨world, hask, rfl⟩

theorem corrects_of_asked {provider : Value} {artifacts : Table Value} {said : List Message}
    {hidden : Bool} {content : String} (schema : Schema) {response : Value}
    (hresponse : response ≠ .null) {env : ε} {past : Account}
    {run : Answer × Session (ε × Account)}
    (hasked : Asked b.traced provider artifacts said hidden content response (env, past) run) :
    ∃ outcome sent env', Corrects b provider said schema response env
        (resolve artifacts content) outcome sent env' ∧
      (reparsed schema run).1 = some outcome ∧
      (reparsed schema run).2.env = (env', past ++ sent) := by
  cases hasked with
  | unresolved hresolve henv =>
    rw [hresolve]
    exact ⟨_, _, _, .unquoted _, rfl, by rw [List.append_nil]; exact henv⟩
  | unanswered hresolve hchat =>
    obtain ⟨world, hask, henv⟩ := ask_of_traced hchat
    rw [hresolve]
    exact ⟨_, _, _, .asked hask, rfl, henv⟩
  | null hresolve hchat =>
    obtain ⟨world, hask, henv⟩ := ask_of_traced hchat
    rw [hresolve, if_neg hresponse]
    exact ⟨_, _, _, .asked hask, by simp [reparsed, Except.bind], henv⟩
  | answered hresolve hchat hagain =>
    obtain ⟨world, hask, henv⟩ := ask_of_traced hchat
    rw [hresolve]
    exact ⟨_, _, _, .asked hask, by simp [reparsed, Except.bind, hagain], henv⟩

/-- **A correction quotes with artifacts put in.**  On an idle chain, whatever was said and stored
on it, a first response that is a text and does not parse is followed by one request that holds, in
sections behind the lines that ask for a correction, the error, the response and the description of
the schema, each with artifacts in the place of its tokens, and the value as it is.  All of it is
verbatim if no artifact has a token in what is quoted. -/
theorem correction_quoted {s : Session (ε × Account)} (hidle : Idle s.chain) {v : Value}
    {schema : Schema} {given : Shown} (hgiven : shown v schema = .ok given) {t d : String}
    (hvalue : Displays v t) (hdesc : Described schema d) {request : String}
    (hrequest : resolve (given.inserted s.chain.artifacts) requestTemplate = .ok request)
    {response : Value} {env₁ : ε}
    (hask : b.ask ⟨s.chain.active, s.chain.history.entries ++ [.user request], reshapePrompt⟩
      s.env.1 = (.ok response, env₁))
    {r : String} (hreply : Spells response r) {e : Fault}
    (hparse : schema.parse response = .error e) {fuel : Nat} (hfuel : 2 ≤ fuel) :
    let artifacts := given.inserted s.chain.artifacts
    let result := reshape b.traced fuel v schema s
    (∃ outcome sent env₂,
      Corrects b s.chain.active
        (s.chain.history.entries ++
          entered s.chain.history.incognito [.user request, .assistant response])
        schema response env₁ (quoted artifacts e.message r d t) outcome sent env₂ ∧
      result.1 = some outcome ∧
      result.2.env = (env₂, s.env.2 ++ (⟨s.chain.active,
        s.chain.history.entries ++ [.user request], reshapePrompt⟩, .ok response) :: sent)) ∧
    ((∀ text ∈ [e.message, r, d], ∀ key : String, IsKey key.toList →
        tokenChars key.toList <:+: text.toList → artifactText artifacts key = .ok none) →
      quoted artifacts e.message r d t = .ok (correctionText e.message r d t)) := by
  intro artifacts result
  obtain ⟨extra, rfl⟩ := Nat.exists_eq_add_of_le' hfuel
  obtain ⟨rfl, hschema, hdescription⟩ := given_of_shown hgiven hvalue hdesc
  have hstored : artifacts.get? (.text "value") = some (.text given.text) := by
    simp only [artifacts, Shown.inserted, Table.get?_put_text, if_true]
  refine ⟨?_, fun hfree => ?_⟩
  · have hrun := settles_process (b := b.traced) (extra + 2)
    obtain ⟨t, ht, hfirst⟩ := asked_request hrun hidle hgiven
    have hresult : result = reshape b.traced (extra + 2) v schema s := rfl
    rw [reshape, reshapeWith, ht] at hresult
    dsimp only at hresult
    generalize process b.traced (.all (extra + 2)) .null t = run at hfirst hresult
    -- Only the first response that is given is one to the request.
    cases hfirst with
    | unresolved hresolve =>
      rw [hrequest] at hresolve
      cases hresolve
    | unanswered hresolve hchat =>
      rw [hrequest] at hresolve
      cases hresolve
      obtain ⟨world, hagain, -⟩ := ask_of_traced hchat
      rw [hask] at hagain
      cases hagain
    | null hresolve hchat =>
      rw [hrequest] at hresolve
      cases hresolve
      obtain ⟨world, hagain, -⟩ := ask_of_traced hchat
      rw [hask] at hagain
      cases hagain
      exact absurd rfl hreply.ne_null
    | @answered _ _ t hresolve hchat hnull hasks hdone hlast =>
      rw [hrequest] at hresolve
      cases hresolve
      obtain ⟨world, hagain, henv⟩ := ask_of_traced hchat
      rw [hask] at hagain
      cases hagain
      have hsecond := asked_retry hrun hasks hdone (correctionTemplate e.message r d)
      rw [hlast, henv] at hsecond
      have hcorrects := corrects_of_asked schema hnull hsecond
      rw [resolve_correctionTemplate hstored] at hcorrects
      dsimp only at hresult
      rw [hresult, correct_of_error hparse hschema hreply.joinInput hdescription]
      simpa only [List.append_assoc, List.singleton_append] using hcorrects
  · have hself : ∀ text ∈ [e.message, r, d], resolve artifacts text = .ok text :=
      fun text htext => resolve_eq_self (hfree text htext)
    simp only [List.forall_mem_cons] at hself
    obtain ⟨herror, hresponse, hd, -⟩ := hself
    rw [quoted, herror, hresponse, hd]
    rfl

/-- A response that is the token of the value, which no number is: it is quoted as the value. -/
theorem correction_quoted_token :
    let schema : Schema := .number (.text "count")
    let s : Session (List String × Account) :=
      { chain := (scripted []).chain, env := (["\x7b\x7bvalue\x7d\x7d", "3"], []) }
    let given : Shown := ⟨"x", .text "number: count", .int 42⟩
    let request := requestText "number: count" "42" "x"
    let content := correctionText "Cannot convert 'x' to a number" "x" "number: count" "x"
    Idle s.chain ∧ shown (.text "x") schema = .ok given ∧
      resolve (given.inserted s.chain.artifacts) requestTemplate = .ok request ∧
      schema.parse (.text "\x7b\x7bvalue\x7d\x7d") =
        .error (.mismatch (.notNumber "'\x7b\x7bvalue\x7d\x7d'")) ∧
      let result := reshape recited.traced 2 (.text "x") schema s
      result.1 = some (.ok (.int 3)) ∧ result.2.env = ([],
        [(⟨s.chain.active, [.user request], reshapePrompt⟩, .ok (.text "\x7b\x7bvalue\x7d\x7d")),
          (⟨s.chain.active, [.user request, .assistant (.text "\x7b\x7bvalue\x7d\x7d"),
            .user content], reshapePrompt⟩, .ok (.text "3"))]) := by
  intro schema s given request content
  have hstart : Chain.start [Chain.fastKey] Chain.fastKey = .ok s.chain := rfl
  have hidle := idle_of_start hstart
  have hvalue : Displays (.text "x") "x" := .text (.text "x")
  have htold : schema.desc = .ok (.text "number: count") := by
    simp only [schema, Schema.desc, Schema.descOrKind]
    decide +kernel
  have hdesc : Described schema "number: count" := ⟨.text "number: count", htold, .text _⟩
  have hgiven : shown (.text "x") schema = .ok given := by
    have hschema : schemaText schema = .ok (.text "number: count") := by
      rw [schemaText, htold]
      rfl
    rw [shown, hschema]
    rfl
  have hrequest : resolve (given.inserted s.chain.artifacts) requestTemplate = .ok request := by
    decide +kernel
  have hparse : schema.parse (.text "\x7b\x7bvalue\x7d\x7d") =
      .error (.mismatch (.notNumber "'\x7b\x7bvalue\x7d\x7d'")) := by
    decide +kernel
  have hquoted : quoted (given.inserted s.chain.artifacts)
      (Fault.mismatch (.notNumber "'\x7b\x7bvalue\x7d\x7d'")).message "\x7b\x7bvalue\x7d\x7d"
      "number: count" "x" = .ok content := by
    decide +kernel
  have hagain : schema.parse (.text "3") = .ok (.int 3) := by decide +kernel
  refine ⟨hidle, hgiven, hrequest, hparse, ?_⟩
  obtain ⟨⟨outcome, sent, env₂, hcorrects, hanswer, hsent⟩, -⟩ :=
    correction_quoted (b := recited) hidle hgiven hvalue hdesc hrequest rfl (.text _) hparse
      (Nat.le_refl 2)
  rw [hquoted] at hcorrects
  cases hcorrects with
  | asked hask =>
    cases hask
    exact ⟨hanswer.trans (congrArg some hagain), hsent⟩

end Session

end PromptChain
