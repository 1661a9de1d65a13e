import PromptChain.Proofs.Json.Forms
import PromptChain.Proofs.Provider.Replies
/-!
# Failed requests

What a chat does whose requests may fail.  It makes the same request over and over, until one
succeeds or as often as it may be repeated, and waits between two of them but not after the last
one; every session that is opened for a request is closed with it (`retry_account`).
-/

namespace PromptChain

open Value (IsText HasForm)

/-! ## Logs -/

def Asked.request? : Asked → Option RelayRequest
  | .post request => some request
  | _ => none

def Asked.span? : Asked → Option Value
  | .slept span => some span
  | _ => none

def Asked.isClosing : Asked → Bool
  | .closed => true
  | _ => false

/-- A network that has a response for the first request, for the second one, and so on.  It logs
what it is used for. -/
def Network.numbered (responses : Nat → Except Fault RelayResponse) : Network (List Asked) where
  post request log := (responses (log.filterMap Asked.request?).length, log ++ [.post request])
  closeSession log := log ++ [.closed]
  sleep span log := log ++ [.slept span]

namespace Relay

/-- What the log has of a request: that it was made, and that its session was closed if it had one
of its own. -/
def round (request : RelayRequest) : List Asked :=
  .post request :: if request.session.isSome then [.closed] else []

/-- What the log has of a request that was repeated so many times. -/
def account (delay : Value) (request : RelayRequest) : (repeats : Nat) → List Asked
  | 0 => round request
  | repeats + 1 => round request ++ .slept delay :: account delay request repeats

section

variable (delay : Value) (request : RelayRequest) (repeats : Nat)

theorem requests_round : (round request).filterMap Asked.request? = [request] := by
  unfold round
  split <;> rfl

theorem requests_account :
    (account delay request repeats).filterMap Asked.request? =
      List.replicate (repeats + 1) request := by
  induction repeats with
  | zero => exact requests_round request
  | succ repeats ih =>
    rw [account, List.filterMap_append, requests_round, List.filterMap_cons, ih]
    rfl

theorem spans_account :
    (account delay request repeats).filterMap Asked.span? = List.replicate repeats delay := by
  have hround : (round request).filterMap Asked.span? = [] := by
    unfold round
    split <;> rfl
  induction repeats with
  | zero => exact hround
  | succ repeats ih =>
    rw [account, List.filterMap_append, hround, List.filterMap_cons, ih]
    rfl

theorem closings_account :
    (account delay request repeats).countP Asked.isClosing =
      if request.session.isSome then repeats + 1 else 0 := by
  have hround : (round request).countP Asked.isClosing =
      if request.session.isSome then 1 else 0 := by
    unfold round
    split <;> rfl
  induction repeats with
  | zero => exact hround
  | succ repeats ih =>
    rw [account, List.countP_append, hround, List.countP_cons_of_neg (by simp [Asked.isClosing]), ih]
    split <;> omega

end

/-! ## Requests -/

/-- Whether nothing is found for a conversation, if anything is cached. -/
def Unanswered (r : Relay) (files : FileTree) (now : Binary64) (p : List Value) : Prop :=
  ∀ cache, r.cache = some cache →
    ∃ key, r.cacheKey p = .ok key ∧ cache.get files now key = .ok .null

def reply (r : Relay) (responses : Nat → Except Fault RelayResponse) (k : Nat) :
    Except Fault Value := (responses k).bind r.accept

section

variable {r : Relay}

theorem exists_authorization (h : r.token = .null ∨ IsText r.token) :
    ∃ more, r.authorization = .ok more := by
  unfold authorization
  split
  · exact ⟨_, rfl⟩
  next htruthy =>
  rcases h with hnull | htext
  · simp [hnull, Value.isFalsy] at htruthy
  · obtain ⟨cs, hcs⟩ := Value.exists_plain htext
    exact ⟨_, by rw [hcs]; rfl⟩

theorem isWritable_of_isText {v : Value} (h : IsText v) : v.isWritable = true := by
  obtain ⟨points, rfl⟩ := h
  unfold Value.ofPoints
  split <;> simp [Value.isWritable]

def OfTexts (m : Message) : Prop := IsText m.role ∧ IsText m.content

theorem OfTexts.hasForm {m : Message} (h : OfTexts m) : HasForm m.toValue := by
  obtain ⟨⟨role, hrole⟩, content, hcontent⟩ := h
  refine .object fun field hfield => ?_
  rcases List.mem_pair.mp hfield with rfl | rfl
  · exact hrole ▸ Json.hasForm_ofPoints role
  · exact hcontent ▸ Json.hasForm_ofPoints content

theorem areWritable_of_texts {messages : List Message} (h : ∀ m ∈ messages, OfTexts m) :
    Value.areWritable (messages.map Message.toValue) = true := by
  induction messages with
  | nil => rfl
  | cons m rest ih =>
    obtain ⟨⟨hrole, hcontent⟩, hrest⟩ := List.forall_mem_cons.mp h
    simp [Value.areWritable, Message.toValue, Value.isWritable, Value.haveWritable,
      isWritable_of_isText hrole, isWritable_of_isText hcontent, ih hrest]

theorem exists_compact_payload {messages : List Message} (hmessages : ∀ m ∈ messages, OfTexts m)
    {system : Value} (hsystem : IsText system) :
    ∃ written, Json.compact (.list (payload messages system)) = .ok written := by
  have htexts : ∀ m ∈ Message.system system :: messages, OfTexts m :=
    List.forall_mem_cons.mpr ⟨⟨Value.isText_text "system", hsystem⟩, hmessages⟩
  have hform : HasForm (.list (payload messages system)) := by
    refine .list fun v hv => ?_
    obtain ⟨m, hm, rfl⟩ := List.mem_map.mp hv
    exact (htexts m hm).hasForm
  exact (Json.compact_told hform).exists_iff.mpr (areWritable_of_texts htexts)

theorem exists_request {messages : List Message} (hmessages : ∀ m ∈ messages, OfTexts m)
    {system : Value} (hsystem : IsText system) (htoken : r.token = .null ∨ IsText r.token) :
    ∃ request, r.request (payload messages system) = .ok request := by
  obtain ⟨written, hwritten⟩ := exists_compact_payload hmessages hsystem
  obtain ⟨more, hmore⟩ := exists_authorization htoken
  exact ⟨_, by rw [request, hwritten, hmore]; rfl⟩

theorem session_of_request {p : List Value} {request : RelayRequest}
    (h : r.request p = .ok request) : request.session.isSome = r.ownSessions := by
  unfold Relay.request at h
  split at h
  · cases h
  · obtain ⟨more, -, rfl⟩ := map_eq_ok_iff.mp h
    cases r.ownSessions <;> rfl

theorem accept_of_refused {response : RelayResponse} {q : Quantity}
    (hstatus : response.status.quantity? = some q) (hq : q.isAtLeast 400 = true) :
    ∃ e, r.accept response = .error e := by
  simp only [accept, hstatus, hq, if_true, refusal]
  split
  · exact ⟨_, rfl⟩
  · split <;> exact ⟨_, rfl⟩

end

/-! ## Attempts -/

section

variable {r : Relay} {p : List Value} {request : RelayRequest}
  {responses : Nat → Except Fault RelayResponse}

/-- Whether the requests of a chat that may be repeated so many times end with a request: those
before it fail, and it succeeds or is the last one. -/
structure EndsAt (replies : Nat → Except Fault Value) (repeats f : Nat) : Prop where
  le : f ≤ repeats
  failed : ∀ k < f, ∃ e, replies k = .error e
  last : f = repeats ∨ ∃ data, replies f = .ok data

theorem EndsAt.succ {replies : Nat → Except Fault Value} {repeats f : Nat}
    (h : EndsAt replies (repeats + 1) (f + 1)) :
    EndsAt (fun k => replies (k + 1)) repeats f where
  le := Nat.le_of_succ_le_succ h.le
  failed := fun k hk => h.failed (k + 1) (Nat.succ_lt_succ hk)
  last := h.last.imp_left Nat.succ.inj

theorem ask_numbered (hrequest : r.request p = .ok request) {made : Nat} {log : List Asked}
    (hmade : (log.filterMap Asked.request?).length = made) :
    r.ask (.numbered responses) p log = (r.reply responses made, log ++ round request) := by
  simp only [ask, hrequest, Network.numbered, hmade, reply, round, session_of_request hrequest]
  split <;> simp

/-- **One attempt after the other**, by induction on the repeats that are left: after a request that
fails and a delay it is the same with one request more made and one repeat less left. -/
theorem converse_numbered (hrequest : r.request p = .ok request) {repeats f made : Nat}
    {log : List Asked} (hmade : (log.filterMap Asked.request?).length = made)
    (h : EndsAt (fun k => r.reply responses (made + k)) repeats f) :
    converse (.numbered responses) r p repeats log =
      (r.reply responses (made + f), log ++ account r.retry.delay request f) := by
  induction repeats generalizing f made log with
  | zero =>
    obtain rfl := Nat.le_zero.mp h.le
    exact ask_numbered hrequest hmade
  | succ repeats ih =>
    rw [converse, ask_numbered hrequest hmade]
    cases f with
    | zero =>
      obtain ⟨data, hdata⟩ := h.last.resolve_left (Nat.succ_ne_zero repeats).symm
      simp only [Nat.add_zero] at hdata ⊢
      simp only [hdata, account]
    | succ f =>
      obtain ⟨e, he⟩ := h.failed 0 (Nat.succ_pos f)
      have hmore : ((log ++ round request ++ [Asked.slept r.retry.delay]).filterMap
          Asked.request?).length = made + 1 := by
        simp [requests_round, Asked.request?, hmade]
      have hrest := ih hmore (f := f) (by simpa only [Nat.add_assoc, Nat.add_comm 1] using h.succ)
      simp only [Nat.add_zero] at he
      simp only [he, account]
      simpa [Network.numbered, Nat.add_assoc, Nat.add_comm 1] using hrest

end

/-! ## Chats -/

section

variable {r : Relay} {n : Nat} (hcount : r.retry.count = .int n) {files : FileTree}
  {now : Binary64} {p : List Value}

include hcount in
theorem begin_of_unanswered (h : r.Unanswered files now p) :
    (r.begin files now p).progress = .asking n := by
  have hfirst : r.firstTry = .asking n := by
    have hpos : (0 : Int) < n + 1 := by omega
    simp [firstTry, hcount, Value.successor, hpos]
  cases hcache : r.cache with
  | none => simpa only [begin, hcache] using hfirst
  | some cache =>
    obtain ⟨key, hkey, hmissing⟩ := h cache hcache
    exact (begin_of_null hcache hkey hmissing).trans hfirst

theorem eq_of_finish (h : r.Unanswered files now p) {data v : Value}
    (hfinish : (r.finish files now (r.begin files now p).key data).1 = .ok v) : v = data := by
  cases hcache : r.cache with
  | none =>
    simp only [finish, hcache] at hfinish
    exact (Except.ok.inj hfinish).symm
  | some cache =>
    obtain ⟨key, hkey, hmissing⟩ := h cache hcache
    rw [key_begin hcache hkey] at hfinish
    exact (set_of_finish hcache hmissing (Prod.ext hfinish rfl)).1.symm

include hcount in
theorem chat_numbered {messages : List Message} {system : Value}
    (hunanswered : r.Unanswered files now (payload messages system)) {request : RelayRequest}
    (hrequest : r.request (payload messages system) = .ok request)
    {responses : Nat → Except Fault RelayResponse} {f : Nat}
    (h : EndsAt (r.reply responses) n f) :
    r.chat (.numbered responses) files now messages system [] =
      match r.reply responses f with
      | .error e => (.error e, files, account r.retry.delay request f)
      | .ok data =>
        let finished := r.finish files now (r.begin files now (payload messages system)).key data
        (finished.1.bind text, finished.2, account r.retry.delay request f) := by
  have hfirst : EndsAt (fun k => r.reply responses (0 + k)) n f := by
    simpa only [Nat.zero_add] using h
  have hmade : (([] : List Asked).filterMap Asked.request?).length = 0 := rfl
  have hconverse := converse_numbered hrequest hmade hfirst
  rw [Nat.zero_add, List.nil_append] at hconverse
  simp only [chat, fetch, begin_of_unanswered hcount hunanswered, begin_payload, hconverse]
  cases r.reply responses f <;> rfl

include hcount in
/-- **What a chat does whose requests may fail.**  If nothing is cached for it, it makes one request,
the same every time, until one succeeds, or until it was repeated as often as it may be; it waits
between two requests, and every session that is opened for a request is closed behind it.  If a
request succeeds, its data are what the chat ends with; otherwise it raises the fault of the last
request.  A status from 400 on is a failure. -/
theorem retry_account {messages : List Message} (hmessages : ∀ m ∈ messages, OfTexts m)
    {system : Value} (hsystem : IsText system) (htoken : r.token = .null ∨ IsText r.token)
    (hunanswered : r.Unanswered files now (payload messages system))
    (responses : Nat → Except Fault RelayResponse) :
    ∃ request, r.request (payload messages system) = .ok request ∧
      (∀ f ≤ n, (∀ k < f, ∃ e, r.reply responses k = .error e) →
        ∀ data, r.reply responses f = .ok data →
          let finished := r.finish files now (r.begin files now (payload messages system)).key data
          r.chat (.numbered responses) files now messages system [] =
              (finished.1.bind text, finished.2, account r.retry.delay request f) ∧
            ∀ v, finished.1 = .ok v → v = data) ∧
      (∀ e, (∀ k < n, ∃ e, r.reply responses k = .error e) → r.reply responses n = .error e →
        r.chat (.numbered responses) files now messages system [] =
          (.error e, files, account r.retry.delay request n)) ∧
      (∀ k, (account r.retry.delay request k).filterMap Asked.request? =
          List.replicate (k + 1) request ∧
        (account r.retry.delay request k).filterMap Asked.span? =
          List.replicate k r.retry.delay ∧
        (account r.retry.delay request k).countP Asked.isClosing =
          if r.ownSessions then k + 1 else 0) ∧
      ∀ k response q, responses k = .ok response → response.status.quantity? = some q →
        q.isAtLeast 400 = true → ∃ e, r.reply responses k = .error e := by
  obtain ⟨request, hrequest⟩ := exists_request hmessages hsystem htoken
  refine ⟨request, hrequest, fun f hf hfailed data hdata => ⟨?_, fun v => eq_of_finish hunanswered⟩,
    fun e hfailed he => ?_, fun k => ⟨requests_account _ _ k, spans_account _ _ k, ?_⟩,
    fun k response q hresponse hstatus hq => ?_⟩
  · have hends : EndsAt (r.reply responses) n f := ⟨hf, hfailed, .inr ⟨data, hdata⟩⟩
    rw [chat_numbered hcount hunanswered hrequest hends, hdata]
  · have hends : EndsAt (r.reply responses) n n := ⟨le_rfl, hfailed, .inl rfl⟩
    rw [chat_numbered hcount hunanswered hrequest hends, he]
  · rw [closings_account, session_of_request hrequest]
  · rw [reply, hresponse]
    exact accept_of_refused hstatus hq

end

def sessional : Relay := { bare "http://one" "token" with ownSessions := true }

def busy : RelayResponse :=
  { accepted .null with status := .int 503, reason := .text "Busy" }

def busyFor (requests k : Nat) : Except Fault RelayResponse :=
  .ok (if k < requests then busy else accepted greeting)

theorem unanswered_bare : sessional.Unanswered ReplyCache.bare.2 (Binary64.ofInt 1000)
    (payload [Message.user "Hi"] (.text "")) := by
  rintro cache ⟨⟩
  exact ⟨"llama3-8b_c1a5298f", by decide +kernel, by decide +kernel⟩

/-- A request that fails is made once more, five seconds later; then its chat has its answer, or it
raises. -/
theorem retry_account_bare :
    let chat := fun requests => sessional.chat (.numbered (busyFor requests)) ReplyCache.bare.2
      (Binary64.ofInt 1000) [Message.user "Hi"] (.text "") []
    (chat 1).1 = .ok (.text "Hello") ∧
      (chat 2).1 = .error (.refused "proxy" (.int 503) "503" "Busy") ∧
      ∃ request, (chat 1).2.2 = [.post request, .closed, .slept (.real (Binary64.ofInt 5)),
          .post request, .closed] ∧ (chat 2).2.2 = (chat 1).2.2 := by
  intro chat
  have hmessages : ∀ m ∈ [Message.user "Hi"], OfTexts m := by
    simpa using ⟨Value.isText_text "user", Value.isText_text "Hi"⟩
  have haccount := fun requests => retry_account (r := sessional) (n := 1) rfl hmessages
    (Value.isText_text "") (.inr (Value.isText_text "token")) unanswered_bare (busyFor requests)
  obtain ⟨request, hrequest, hanswered, -⟩ := haccount 1
  obtain ⟨request', hrequest', -, hraised, -⟩ := haccount 2
  obtain rfl := Except.ok.inj (hrequest'.symm.trans hrequest)
  have haccept : sessional.accept busy = .error (.refused "proxy" (.int 503) "503" "Busy") := by
    decide +kernel
  have hbusy : ∀ {requests k}, k < requests → sessional.reply (busyFor requests) k =
      .error (.refused "proxy" (.int 503) "503" "Busy") := by
    intro requests k hk
    simp only [reply, busyFor, if_pos hk, Except.bind, haccept]
  have hanswer := hanswered 1 le_rfl (fun k hk => ⟨_, hbusy hk⟩) greeting rfl
  have hraise := hraised _ (fun k hk => ⟨_, hbusy (by omega)⟩) (hbusy (by omega))
  have hround : round request' = [.post request', .closed] := by
    rw [round, session_of_request hrequest']
    rfl
  have hlog : account sessional.retry.delay request' 1 = [.post request', .closed,
      .slept (.real (Binary64.ofInt 5)), .post request', .closed] := by
    rw [account, account, hround]
    rfl
  refine ⟨?_, ?_, request', ?_, ?_⟩
  · decide +kernel
  · exact congrArg Prod.fst hraise
  · rw [← hlog]
    exact congrArg (fun done => done.2.2) hanswer.1
  · rw [show (chat 2).2.2 = _ from congrArg (fun done => done.2.2) hraise]
    exact congrArg (fun done => done.2.2) hanswer.1.symm

end Relay

end PromptChain
