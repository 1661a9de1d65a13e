import PromptChain.Proofs.Cache.Keys
import PromptChain.Proofs.Provider.Chats
import PromptChain.Rehearsal
/-!
# Cached replies

What a chat leaves in the cache of its relay (`leaves_of_ends`), and what later chats about the same
words make of it.  A text that was returned is returned again, and nobody is asked for it
(`chat_of_returned`).  But the data of a reply are stored before its text is looked for, so that a
reply without a text is remembered as well (`raised_leaves`).
-/

namespace PromptChain

/-- A network in which every request gets the same response.  It logs what it is used for. -/
def Network.steady (response : RelayResponse) : Network (List Asked) where
  post request log := (.ok response, log ++ [.post request])
  closeSession log := log ++ [.closed]
  sleep span log := log ++ [.slept span]

namespace Relay

/-! ## What chats leave -/

inductive Leaves (r : Relay) (cache : ReplyCache) (messages : List Message) (system : Value)
    (files : FileTree) (now : Binary64) : Except Fault Value → FileTree → Prop
  | refused (e : Fault) : Leaves r cache messages system files now (.error e) files
  | found {key : String} {v : Value} {result : Except Fault Value}
      (hkey : r.cacheKey (payload messages system) = .ok key)
      (hget : cache.get files now key = .ok v) (hv : v ≠ .null) (hresult : text v = result) :
      Leaves r cache messages system files now result files
  | stored {key : String} {data : Value} {files' : FileTree} {result : Except Fault Value}
      (hkey : r.cacheKey (payload messages system) = .ok key)
      (hget : cache.get files now key = .ok .null) (hdata : Json.Data data)
      (hset : cache.set files now key data r.ttl = .ok files') (hresult : text data = result) :
      Leaves r cache messages system files now result files'

section

variable {r : Relay} {cache : ReplyCache} (hcache : r.cache = some cache)
  {messages : List Message} {system : Value} {p : List Value} {files files' : FileTree}
  {now : Binary64} {key : String} {v : Value}
include hcache

theorem key_begin (hkey : r.cacheKey p = .ok key) : (r.begin files now p).key = some key := by
  simp only [begin, hcache, hkey]

theorem begin_of_null (hkey : r.cacheKey p = .ok key) (hget : cache.get files now key = .ok .null) :
    (r.begin files now p).progress = r.firstTry := by
  simp only [begin, hcache, hkey, hget]

theorem begin_of_found (hkey : r.cacheKey p = .ok key) (hget : cache.get files now key = .ok v)
    (hv : v ≠ .null) : (r.begin files now p).progress = .ended (.ok v) := by
  simp only [begin, hcache, hkey, hget]

theorem of_begin_eq_ended (h : (r.begin files now p).progress = .ended (.ok v)) :
    ∃ key, r.cacheKey p = .ok key ∧ cache.get files now key = .ok v ∧ v ≠ .null := by
  simp only [begin, hcache] at h
  cases hkey : r.cacheKey p with
  | error e => simp [hkey] at h
  | ok key =>
    refine ⟨key, rfl, ?_⟩
    simp only [hkey] at h
    split at h
    · cases h
    · simp only [firstTry] at h
      split at h
      · cases h
      · split at h <;> cases h
    · next w hnull hget =>
      obtain rfl := Except.ok.inj (Progress.ended.inj h)
      exact ⟨hget, fun heq => hnull (heq ▸ rfl)⟩

theorem set_of_finish (hmissing : cache.get files now key = .ok .null) {data : Value}
    (h : r.finish files now (some key) data = (.ok v, files')) :
    data = v ∧ cache.set files now key v r.ttl = .ok files' := by
  simp only [finish, hcache, ReplyCache.complete_of_null hmissing] at h
  cases hset : cache.set files now key data r.ttl with
  | error e => simp [hset, Except.map] at h
  | ok written =>
    simp only [hset, Except.map, Prod.mk.injEq, Except.ok.injEq] at h
    obtain ⟨rfl, rfl⟩ := h
    exact ⟨rfl, hset⟩

theorem leaves_of_finish (hkey : r.cacheKey (payload messages system) = .ok key) {data : Value}
    (hdata : Json.Data data) :
    Leaves r cache messages system files now ((r.finish files now (some key) data).1.bind text)
      (r.finish files now (some key) data).2 := by
  simp only [finish, hcache]
  cases hget : cache.get files now key with
  | error e =>
    rw [ReplyCache.complete_of_error hget]
    exact .refused e
  | ok w =>
    by_cases hw : w = .null
    · rw [hw] at hget
      rw [ReplyCache.complete_of_null hget]
      cases hset : cache.set files now key data r.ttl with
      | error e => exact .refused e
      | ok files' => exact .stored hkey hget hdata hset rfl
    · rw [ReplyCache.complete_of_stored hget hw]
      exact .found hkey hget hw rfl

theorem leaves_of_ends {result : Except Fault Value}
    (h : Ends r messages system files now result files') :
    Leaves r cache messages system files now result files' := by
  cases h with
  | @begun outcome _ hended hresult =>
    cases outcome with
    | error e => exact hresult ▸ .refused e
    | ok v =>
      obtain ⟨key, hkey, hget, hv⟩ := of_begin_eq_ended hcache hended
      exact .found hkey hget hv hresult
  | @received c retries reply outcome _ _ hc hasking hreply hended hresult =>
    obtain ⟨key, hchat, hkey⟩ := key_of_underway hcache hc hasking
    cases reply with
    | error e =>
      rw [receive_error hasking] at hended
      obtain ⟨hchats, rfl⟩ := Prod.mk.inj hended
      have hfailed : failed e retries = .ended outcome := congrArg Chat.progress hchats
      cases retries with
      | zero =>
        obtain rfl := Progress.ended.inj hfailed
        exact hresult ▸ .refused e
      | succ retries => cases hfailed
    | ok data =>
      rw [receive_ok hasking, hchat] at hended
      obtain ⟨hchats, rfl⟩ := Prod.mk.inj hended
      have houtcome : (r.finish files now (some key) data).1 = outcome :=
        Progress.ended.inj (congrArg Chat.progress hchats)
      rw [← hresult, ← houtcome]
      exact leaves_of_finish hcache hkey (hreply data rfl)

theorem chat_of_found (hkey : r.cacheKey (payload messages system) = .ok key)
    (hget : cache.get files now key = .ok v) (hv : v ≠ .null) {ε : Type} (net : Network ε)
    (env : ε) : r.chat net files now messages system env = (text v, files, env) := by
  simp only [chat, fetch, begin_of_found hcache hkey hget hv, Except.bind]

end

/-! ## Later chats -/

/-- Whether two chats are about the same: their relays have the same model and share a cache, and
the user said the same. -/
structure Alike (r r' : Relay) (messages messages' : List Message) : Prop where
  cache : r'.cache = r.cache
  model : r'.catalog.model = r.catalog.model
  words : words messages' = words messages

section

variable {r r' : Relay} {cache : ReplyCache} {messages messages' : List Message}
  {system system' : Value} {files files' files'' : FileTree} {now later : Binary64} {key : String}

theorem Alike.cacheKey_eq (h : Alike r r' messages messages') :
    r'.cacheKey (payload messages' system') = r.cacheKey (payload messages system) :=
  cacheKey_congr h.model h.words system system'

theorem Alike.chat_of_stores (h : Alike r r' messages messages') (hcache : r.cache = some cache)
    (hkey : r.cacheKey (payload messages system) = .ok key) {v : Value}
    (hstores : cache.Stores files' key v) (hv : v ≠ .null)
    (huntouched : cache.Untouched key files' files'')
    (hfresh : cache.fresh files'' later key = true) {ε : Type} (net : Network ε) (env : ε) :
    r'.chat net files'' later messages' system' env = (text v, files'', env) :=
  chat_of_found (h.cache.trans hcache) (h.cacheKey_eq.trans hkey)
    ((hstores.of_untouched huntouched).get_eq hfresh) hv net env

theorem text_null_ne (x : Value) : text .null ≠ .ok x := by
  simp [text, Value.atKey, Value.partAt]

/-- **A text that was returned is returned again.**  A chat ended with a text, however its relay
came by it.  As long as the entry in the cache counts, and nobody touches it, every chat about the
same returns the text; it uses no network, and it leaves the files alone. -/
theorem chat_of_returned (hcache : r.cache = some cache) {x : Value}
    (h : Ends r messages system files now (.ok x) files') (halike : Alike r r' messages messages')
    (hkey : r.cacheKey (payload messages system) = .ok key)
    (huntouched : cache.Untouched key files' files'')
    (hfresh : cache.fresh files'' later key = true) {ε : Type} (net : Network ε) (env : ε) :
    r'.chat net files'' later messages' system' env = (.ok x, files'', env) := by
  obtain ⟨v, htext, hv, hstores⟩ :
      ∃ v, text v = .ok x ∧ v ≠ .null ∧ cache.Stores files' key v := by
    cases leaves_of_ends hcache h with
    | found hkey' hget hv hresult =>
      obtain rfl := Except.ok.inj (hkey'.symm.trans hkey)
      exact ⟨_, hresult, hv, ReplyCache.stores_of_get hget hv⟩
    | stored hkey' hget hdata hset hresult =>
      obtain rfl := Except.ok.inj (hkey'.symm.trans hkey)
      refine ⟨_, hresult, ?_, ReplyCache.stores_of_set hdata hset⟩
      rintro rfl
      exact text_null_ne x hresult
  rw [halike.chat_of_stores hcache hkey hstores hv huntouched hfresh net env, htext]

end

def bare (endpoint token : String) : Relay where
  catalog :=
    { name := "proxy", title := "ProxyAdapter", models := models, label := .text "llama3-8b",
      known := by decide }
  endpoint := .text endpoint
  token := .text token
  cache := some ReplyCache.bare.1

def accepted (data : Value) : RelayResponse :=
  { status := .int 200, reason := .text "OK", text := .text "", json := .ok data }

theorem speaksJson_steady {data : Value} (hdata : Json.Data data) :
    (Network.steady (accepted data)).SpeaksJson := by
  intro request env response data' hresponse hjson
  obtain rfl := Except.ok.inj hresponse
  obtain rfl := Except.ok.inj hjson
  exact hdata

def greeting : Value :=
  .object [("choices", .list [.object [("message", .object [("content", .text " Hello ")])]])]

theorem data_greeting : Json.Data greeting := by
  have hsingle : ∀ {key : String} {v : Value}, Json.Data v → Json.Data (.object [(key, v)]) :=
    fun hv => .object (by simpa using hv) (by simp)
  exact hsingle (.list (by simpa using hsingle (hsingle (.text " Hello "))))

/-- The same words with other blanks, another system prompt and an answer in between: the day is not
over, so nobody is asked. -/
theorem chat_of_returned_bare :
    let first := (bare "http://one" "").chat (Network.steady (accepted greeting))
      ReplyCache.bare.2 (Binary64.ofInt 1000) [Message.user " Hi "] (.text "Be terse.") []
    (bare "http://two" "token").chat (Network.steady (accepted .null)) first.2.1
        (Binary64.ofInt 87400) [Message.assistant (.text "Well?"), Message.user "Hi"]
        (.text "") [] =
      (.ok (.text "Hello"), first.2.1, []) := by
  intro first
  have hreturned : first.1 = .ok (.text "Hello") := by decide +kernel
  have hends := ends_of_chat (speaksJson_steady data_greeting) (bare "http://one" "")
    ReplyCache.bare.2 (Binary64.ofInt 1000) [Message.user " Hi "] (.text "Be terse.") []
  rw [show ((bare "http://one" "").chat _ _ _ _ _ _).1 = _ from hreturned] at hends
  have halike : Alike (bare "http://one" "") (bare "http://two" "token") [Message.user " Hi "]
      [Message.assistant (.text "Well?"), Message.user "Hi"] := ⟨rfl, rfl, by decide +kernel⟩
  have hkey : (bare "http://one" "").cacheKey (payload [Message.user " Hi "] (.text "Be terse.")) =
      .ok "llama3-8b_c1a5298f" := by decide +kernel
  exact chat_of_returned rfl hends halike hkey (.refl _ _ _) (by decide +kernel) _ _

/-! ## Chats that raise -/

section

variable (r : Relay) (cache : ReplyCache) (messages : List Message) (key : String)
  (files : FileTree)

/-- Whether chats about the same that follow a chat make a request of their own.  A relay with a
negative number of retries never makes one. -/
def AsksAnew (now : Binary64) : Prop :=
  ∀ (r' : Relay) (messages' : List Message) (system' : Value) (files' : FileTree)
    (later : Binary64) (retries : Nat), Alike r r' messages messages' →
    cache.Untouched key files files' → (now.less later || now.same later) = true →
    r'.retry.count = .int retries →
    (r'.begin files' later (payload messages' system')).progress = .asking retries

/-- Whether chats about the same that follow a chat raise its fault again, and ask nobody, as long
as the entry in the cache counts. -/
def RaisesAgain (e : Fault) : Prop :=
  ∀ (r' : Relay) (messages' : List Message) (system' : Value) (files' : FileTree)
    (later : Binary64), Alike r r' messages messages' → cache.Untouched key files files' →
    cache.fresh files' later key = true → ∀ {ε : Type} (net : Network ε) (env : ε),
    r'.chat net files' later messages' system' env = (.error e, files', env)

end

section

variable {r : Relay} {cache : ReplyCache} (hcache : r.cache = some cache)
  {messages : List Message} {system : Value} {files files' : FileTree} {now : Binary64}
  {key : String}
include hcache

theorem asksAnew_of_null (hkey : r.cacheKey (payload messages system) = .ok key)
    (hget : cache.get files now key = .ok .null) : AsksAnew r cache messages key files now := by
  intro r' messages' system' files'' later retries halike huntouched hlater hcount
  have hmissing : cache.get files'' later key = .ok .null :=
    (huntouched.get_eq later).trans (ReplyCache.get_null_later hlater hget)
  rw [begin_of_null (halike.cache.trans hcache) (halike.cacheKey_eq.trans hkey) hmissing, firstTry,
    hcount]
  simp [Value.successor]

theorem raisesAgain_of_stores (hkey : r.cacheKey (payload messages system) = .ok key) {data : Value}
    (hstores : cache.Stores files key data) (hdata : data ≠ .null) {e : Fault}
    (htext : text data = .error e) : RaisesAgain r cache messages key files e := by
  intro r' messages' system' files'' later halike huntouched hfresh ε net env
  rw [halike.chat_of_stores hcache hkey hstores hdata huntouched hfresh net env, htext]

/-- **What is left by a chat that raises.**  Either it leaves the files as they were: then, unless
there is something in the cache, later chats about the same make a request.  Or it got data without
a text, from the cache or from a reply, and these are in the cache: then, unless they are null,
later chats about the same raise the same fault without a request. -/
theorem raised_leaves {e : Fault} (h : Ends r messages system files now (.error e) files') :
    (files' = files ∧ ∀ key, r.cacheKey (payload messages system) = .ok key →
      cache.get files now key = .ok .null → AsksAnew r cache messages key files now) ∨
    ∃ key data, r.cacheKey (payload messages system) = .ok key ∧ text data = .error e ∧
      (cache.get files now key = .ok data ∧ files' = files ∨
        cache.get files now key = .ok .null ∧ cache.set files now key data r.ttl = .ok files') ∧
      if data = .null then AsksAnew r cache messages key files' now
      else RaisesAgain r cache messages key files' e := by
  cases leaves_of_ends hcache h with
  | refused => exact .inl ⟨rfl, fun key hkey hget => asksAnew_of_null hcache hkey hget⟩
  | @found key data _ hkey hget hdata htext =>
    refine .inr ⟨key, data, hkey, htext, .inl ⟨hget, rfl⟩, ?_⟩
    rw [if_neg hdata]
    exact raisesAgain_of_stores hcache hkey (ReplyCache.stores_of_get hget hdata) hdata htext
  | @stored key data _ _ hkey hget hdata hset htext =>
    refine .inr ⟨key, data, hkey, htext, .inr ⟨hget, hset⟩, ?_⟩
    split
    · next hnull =>
      obtain ⟨limit, hlimit⟩ := ReplyCache.exists_expiry_of_set hset
      have hmissing := ReplyCache.get_of_set hdata hset hlimit now
      simp only [hnull, ite_self] at hmissing
      exact asksAnew_of_null hcache hkey hmissing
    · next hnull =>
      exact raisesAgain_of_stores hcache hkey (ReplyCache.stores_of_set hdata hset) hnull htext

end

/-- A reply that has an error in place of choices is remembered: another relay, which would get a
proper reply, raises the same fault a minute later. -/
theorem raised_leaves_bare :
    let first := (bare "http://one" "").chat
      (Network.steady (accepted (.object [("error", .text "boom")]))) ReplyCache.bare.2
      (Binary64.ofInt 1000) [Message.user "Hi"] (.text "") []
    first.1 = .error (.noKey "'choices'") ∧
      (bare "http://two" "").chat (Network.steady (accepted greeting)) first.2.1
          (Binary64.ofInt 1060) [Message.user "Hi"] (.text "") [] =
        (.error (.noKey "'choices'"), first.2.1, []) := by
  intro first
  have hraised : first.1 = .error (.noKey "'choices'") := by decide +kernel
  refine ⟨hraised, ?_⟩
  have hdata : Json.Data (.object [("error", .text "boom")]) :=
    .object (by simpa using .text "boom") (by simp)
  have hends := ends_of_chat (speaksJson_steady hdata) (bare "http://one" "") ReplyCache.bare.2
    (Binary64.ofInt 1000) [Message.user "Hi"] (.text "") []
  rw [show ((bare "http://one" "").chat _ _ _ _ _ _).1 = _ from hraised] at hends
  rcases raised_leaves rfl hends with ⟨hsame, -⟩ | ⟨key, data, hkey, htext, -, hagain⟩
  · exact absurd hsame (by decide +kernel)
  · have hnull : data ≠ .null := by
      rintro rfl
      exact absurd htext (by decide)
    rw [if_neg hnull] at hagain
    have halike : Alike (bare "http://one" "") (bare "http://two" "") [Message.user "Hi"]
        [Message.user "Hi"] := ⟨rfl, rfl, rfl⟩
    have hkey' : (bare "http://one" "").cacheKey (payload [Message.user "Hi"] (.text "")) =
        .ok "llama3-8b_c1a5298f" := by decide +kernel
    obtain rfl := Except.ok.inj (hkey'.symm.trans hkey)
    exact hagain _ _ _ _ _ halike (.refl _ _ _) (by decide +kernel) _ _

end Relay

end PromptChain
