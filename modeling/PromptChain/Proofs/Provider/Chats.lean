import PromptChain.Proofs.Cache.Entries
import PromptChain.Provider.Relay
/-!
# Chats with relays

How a chat with a relay goes on, step by step, and how it ends.  Others may use the cache between
the steps; a chat that nobody interferes with ends like any other one (`ends_of_chat`).  Under which
key a reply is cached is told by the model and by what the user said, and by nothing else
(`cacheKey_congr`).
-/

namespace PromptChain

/-- Whether the responses of a network hold JSON, if they hold data at all. -/
def Network.SpeaksJson {ε : Type} (net : Network ε) : Prop :=
  ∀ request env response data, (net.post request env).1 = .ok response →
    response.json = .ok data → Json.Data data

namespace Relay

/-! ## Keys -/

/-- What the user said, one message after the other, without the blanks around it. -/
def words (messages : List Message) : List (Except Fault Value) :=
  (messages.filter fun m => m.role = Message.userRole).map fun m => m.content.trimmed

theorem userContents_toValue (messages : List Message) :
    userContents (messages.map Message.toValue) = (words messages).mapM id := by
  induction messages with
  | nil => rfl
  | cons m rest ih =>
    have hrole : m.toValue.atKey "role" = .ok m.role := rfl
    have hcontent : m.toValue.atKey "content" = .ok m.content := rfl
    rw [List.map_cons, userContents, hrole, hcontent, ih]
    by_cases huser : m.role = Message.userRole
    · have hwords : words (m :: rest) = m.content.trimmed :: words rest := by simp [words, huser]
      rw [hwords, List.mapM_cons]
      simp only [huser, if_true]
      cases htrimmed : m.content.trimmed with
      | error e => simp [Except.bind, htrimmed, bind]
      | ok content =>
        simp only [Except.bind, htrimmed, bind, id]
        cases (words rest).mapM id <;> rfl
    · simp [huser, words]

theorem words_system (system : Value) (messages : List Message) :
    words (Message.system system :: messages) = words messages := by
  have hrole : Message.systemRole ≠ Message.userRole := by decide
  simp [words, Message.system, hrole]

/-- **The key of a reply depends on the model and on the words of the user alone.** -/
theorem cacheKey_congr {r r' : Relay} (hmodel : r'.catalog.model = r.catalog.model)
    {messages messages' : List Message} (hwords : words messages' = words messages)
    (system system' : Value) :
    r'.cacheKey (payload messages' system') = r.cacheKey (payload messages system) := by
  have hcontents : userContents (payload messages' system') =
      userContents (payload messages system) := by
    rw [payload, payload, userContents_toValue, userContents_toValue, words_system, words_system,
      hwords]
  simp only [cacheKey, contentHash, hmodel, hcontents]

/-! ## Steps -/

/-- Whether a relay may have brought a chat so far.  What is in the files and what the clock shows
at its steps is up to others. -/
inductive Underway (r : Relay) (payload : List Value) : Chat → Prop
  | begin (files : FileTree) (now : Binary64) : Underway r payload (r.begin files now payload)
  | receive {c : Chat} (h : Underway r payload c) (files : FileTree) (now : Binary64)
      (reply : Except Fault Value) : Underway r payload (r.receive files now reply c).1
  | wake {c : Chat} (h : Underway r payload c) : Underway r payload (wake c)

/-- How a chat may end: with what result it does so, at what time and in sight of what files, and
what it makes of the files.  It makes something of them in its last step only. -/
inductive Ends (r : Relay) (messages : List Message) (system : Value) (files : FileTree)
    (now : Binary64) : Except Fault Value → FileTree → Prop
  | begun {outcome result : Except Fault Value}
      (h : (r.begin files now (payload messages system)).progress = .ended outcome)
      (hresult : outcome.bind text = result) : Ends r messages system files now result files
  | received {c : Chat} {retries : Nat} {reply outcome result : Except Fault Value}
      {files' : FileTree} (hc : Underway r (payload messages system) c)
      (hasking : c.progress = .asking retries) (hreply : ∀ data, reply = .ok data → Json.Data data)
      (h : r.receive files now reply c = ({ c with progress := .ended outcome }, files'))
      (hresult : outcome.bind text = result) : Ends r messages system files now result files'

section

variable {r : Relay} {messages : List Message} {system : Value} {p : List Value} {c : Chat}
  {files files' : FileTree} {now : Binary64}

theorem begin_payload (p : List Value) : (r.begin files now p).payload = p := by
  unfold begin
  split
  · rfl
  · split <;> rfl

theorem receive_kept (reply : Except Fault Value) :
    (r.receive files now reply c).1.payload = c.payload ∧
      (r.receive files now reply c).1.key = c.key := by
  unfold receive
  split <;> exact ⟨rfl, rfl⟩

theorem wake_kept (c : Chat) : (wake c).payload = c.payload ∧ (wake c).key = c.key := by
  unfold wake
  split <;> exact ⟨rfl, rfl⟩

theorem receive_ok {retries : Nat} (h : c.progress = .asking retries) (data : Value) :
    r.receive files now (.ok data) c =
      ({ c with progress := .ended (r.finish files now c.key data).1 },
        (r.finish files now c.key data).2) := by
  simp only [receive, h]

theorem receive_error {retries : Nat} (h : c.progress = .asking retries) (e : Fault) :
    r.receive files now (.error e) c = ({ c with progress := failed e retries }, files) := by
  simp only [receive, h]

theorem ends_of_data {retries : Nat} (hc : Underway r (payload messages system) c)
    (hasking : c.progress = .asking retries) {data : Value} (hdata : Json.Data data) :
    Ends r messages system files now ((r.finish files now c.key data).1.bind text)
      (r.finish files now c.key data).2 := by
  refine .received hc hasking (fun v hv => ?_) (receive_ok hasking data) rfl
  obtain rfl := Except.ok.inj hv
  exact hdata

theorem ends_of_last (hc : Underway r (payload messages system) c)
    (hasking : c.progress = .asking 0) (e : Fault) :
    Ends r messages system files now (.error e) files :=
  .received hc hasking (fun _ heq => by cases heq) (receive_error hasking e) rfl

theorem underway_again {retries : Nat} (hc : Underway r p c)
    (hasking : c.progress = .asking (retries + 1)) (files : FileTree) (now : Binary64) (e : Fault) :
    Underway r p { c with progress := .asking retries } := by
  have hreceived := hc.receive files now (.error e)
  rw [receive_error hasking] at hreceived
  exact hreceived.wake

theorem key_of_underway {cache : ReplyCache} (hcache : r.cache = some cache) (h : Underway r p c)
    {retries : Nat} (hasking : c.progress = .asking retries) :
    ∃ key, c.key = some key ∧ r.cacheKey p = .ok key := by
  -- Steps keep the key, and a chat that never got one has ended.
  suffices hkey : (∃ outcome, c.progress = .ended outcome) ∨
      ∃ key, c.key = some key ∧ r.cacheKey p = .ok key by
    rcases hkey with ⟨outcome, hended⟩ | hkey
    · simp [hasking] at hended
    · exact hkey
  clear hasking
  induction h with
  | begin files now =>
    simp only [begin, hcache]
    cases hkey : r.cacheKey p with
    | error e => exact .inl ⟨_, rfl⟩
    | ok key => exact .inr ⟨key, rfl, rfl⟩
  | receive h files now reply ih =>
    rcases ih with ⟨outcome, hended⟩ | hkey
    · exact .inl ⟨outcome, by simp only [receive, hended]⟩
    · obtain ⟨key, hc, hkey⟩ := hkey
      exact .inr ⟨key, (receive_kept reply).2.trans hc, hkey⟩
  | wake h ih =>
    rcases ih with ⟨outcome, hended⟩ | hkey
    · exact .inl ⟨outcome, by simp only [wake, hended]⟩
    · obtain ⟨key, hc, hkey⟩ := hkey
      exact .inr ⟨key, (wake_kept _).2.trans hc, hkey⟩

end

theorem begin_progress_ne (r : Relay) (files : FileTree) (now : Binary64) (p : List Value)
    (retries : Nat) : (r.begin files now p).progress ≠ .waiting retries := by
  have hfirst : r.firstTry ≠ .waiting retries := by
    unfold firstTry
    split
    · simp
    · split <;> simp
  unfold begin
  split
  · exact hfirst
  · split
    · simp
    · dsimp only
      split
      · simp
      · exact hfirst
      · simp

/-! ## Chats in one piece -/

section

variable {ε : Type} {net : Network ε} {r : Relay} {messages : List Message} {system : Value}
  {files : FileTree} {now : Binary64}

theorem data_of_ask (hnet : net.SpeaksJson) {p : List Value} {env : ε} {data : Value}
    (h : (r.ask net p env).1 = .ok data) : Json.Data data := by
  unfold ask at h
  split at h
  · cases h
  next request _ =>
  cases hresponse : (net.post request env).1 with
  | error e => simp [hresponse, Except.bind] at h
  | ok response =>
    simp only [hresponse, Except.bind, accept, refusal] at h
    repeat' split at h
    all_goals first | cases h | exact hnet request env response data hresponse h

theorem ends_of_converse (hnet : net.SpeaksJson) {retries : Nat} {c : Chat}
    (hc : Underway r (payload messages system) c) (hasking : c.progress = .asking retries)
    (env : ε) :
    let settled :=
      r.settle files now c.key (converse net r (payload messages system) retries env)
    Ends r messages system files now (settled.1.bind text) settled.2.1 := by
  induction retries generalizing c env with
  | zero =>
    rcases hask : r.ask net (payload messages system) env with ⟨reply, after⟩
    cases reply with
    | error e =>
      simp only [converse, hask, settle]
      exact ends_of_last hc hasking e
    | ok data =>
      simp only [converse, hask, settle]
      exact ends_of_data hc hasking (data_of_ask hnet (by rw [hask]))
  | succ retries ih =>
    rcases hask : r.ask net (payload messages system) env with ⟨reply, after⟩
    cases reply with
    | error e =>
      simp only [converse, hask]
      exact ih (c := { c with progress := .asking retries })
        (underway_again hc hasking files now e) rfl _
    | ok data =>
      simp only [converse, hask, settle]
      exact ends_of_data hc hasking (data_of_ask hnet (by rw [hask]))

/-- **A chat that nobody interferes with ends like any other.** -/
theorem ends_of_chat (hnet : net.SpeaksJson) (r : Relay) (files : FileTree) (now : Binary64)
    (messages : List Message) (system : Value) (env : ε) :
    Ends r messages system files now (r.chat net files now messages system env).1
      (r.chat net files now messages system env).2.1 := by
  have hbegun : Underway r (payload messages system) (r.begin files now (payload messages system)) :=
    .begin files now
  simp only [chat, fetch]
  cases hprogress : (r.begin files now (payload messages system)).progress with
  | ended outcome => exact .begun hprogress rfl
  | asking retries =>
    rw [begin_payload]
    exact ends_of_converse hnet hbegun hprogress env
  | waiting retries => exact absurd hprogress (begin_progress_ne r files now _ retries)

end

end Relay

end PromptChain
