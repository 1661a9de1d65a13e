import PromptChain.Proofs.Provider.Overlap
import PromptChain.Proofs.Provider.Retrying
/-!
# Conversations on the wire

Every request of a chat carries the whole conversation as one JSON text, whatever relay it is made
by, however often it was repeated and whatever other chats are on their way.  Who reads this text
gets the messages as they were said, behind the system prompt, so that chats about different
conversations never send the same one (`read_payload`).
-/

namespace PromptChain

def Network.recorded {ε : Type} (net : Network ε) : Network (ε × List RelayRequest) where
  post request env :=
    let (response, world) := net.post request env.1
    (response, world, env.2 ++ [request])
  closeSession env := (net.closeSession env.1, env.2)
  sleep span env := (net.sleep span env.1, env.2)

namespace Relay

def messagesOf (spoken : List (String × String)) : List Message :=
  spoken.map fun (role, content) => ⟨.text role, .text content⟩

def conversation (system : String) (spoken : List (String × String)) : Value :=
  .list (("system", system) :: spoken |>.map fun (role, content) =>
    .object [("role", .text role), ("content", .text content)])

/-- `Sent messages system request`: the request is made in a chat about the messages, behind the
system prompt. -/
inductive Sent (messages : List Message) (system : Value) (request : RelayRequest) : Prop
  | alone {ε : Type} (net : Network ε) (r : Relay) (files : FileTree) (now : Binary64) (env : ε)
      (h : request ∈ (r.chat net.recorded files now messages system (env, [])).2.2.2) :
      Sent messages system request
  | among (start : Scene) (later before : List Event) (now : Binary64) (e : Exchange)
      (hexchange : (start.after (later ++ .begin now messages system :: before)).exchanges[
        (start.after before).exchanges.length]? = some e)
      (hsent : e.sent = some request) : Sent messages system request

/-! ## A chat alone -/

section

variable {ε : Type} (net : Network ε) (r : Relay) (p : List Value)

theorem ask_recorded (env : ε) (record : List RelayRequest) :
    ∃ made, r.ask net.recorded p (env, record) =
        ((r.ask net p env).1, (r.ask net p env).2, record ++ made) ∧
      ∀ request ∈ made, r.request p = .ok request := by
  unfold ask
  cases hrequest : r.request p with
  | error e => exact ⟨[], by simp, by simp⟩
  | ok request =>
    refine ⟨[request], ?_, by simp⟩
    simp only [Network.recorded]
    split <;> rfl

/-- A run, by induction on the repeats that are left: nothing else is recorded, and the chat goes on
as it would without a record. -/
theorem converse_recorded (repeats : Nat) (env : ε) (record : List RelayRequest) :
    ∃ made, converse net.recorded r p repeats (env, record) =
        ((converse net r p repeats env).1, (converse net r p repeats env).2, record ++ made) ∧
      ∀ request ∈ made, r.request p = .ok request := by
  induction repeats generalizing env record with
  | zero => exact ask_recorded net r p env record
  | succ repeats ih =>
    obtain ⟨first, hask, hfirst⟩ := ask_recorded net r p env record
    rw [converse, converse, hask]
    rcases r.ask net p env with ⟨_ | data, world⟩
    · obtain ⟨more, hrest, hmore⟩ := ih (net.sleep r.retry.delay world) (record ++ first)
      refine ⟨first ++ more, ?_, List.forall_mem_append.mpr ⟨hfirst, hmore⟩⟩
      simpa [Network.recorded, List.append_assoc] using hrest
    · exact ⟨first, rfl, hfirst⟩

theorem chat_recorded (files : FileTree) (now : Binary64) (messages : List Message)
    (system : Value) (env : ε) :
    ∃ made, r.chat net.recorded files now messages system (env, []) =
        ((r.chat net files now messages system env).1,
          (r.chat net files now messages system env).2.1,
          (r.chat net files now messages system env).2.2, made) ∧
      ∀ request ∈ made, r.request (payload messages system) = .ok request := by
  unfold chat fetch
  rw [begin_payload]
  cases hprogress : (r.begin files now (payload messages system)).progress with
  | ended outcome => exact ⟨[], rfl, by simp⟩
  | waiting retries => exact absurd hprogress (begin_progress_ne r files now _ retries)
  | asking retries =>
    obtain ⟨made, hconverse, hmade⟩ :=
      converse_recorded net r (payload messages system) retries env []
    refine ⟨made, ?_, hmade⟩
    simp only [hconverse, List.nil_append]
    rcases converse net r (payload messages system) retries env with ⟨_ | data, world⟩ <;> rfl

end

/-! ## A chat among others -/

namespace Scene

theorem length_next (s : Scene) (event : Event) :
    s.exchanges.length ≤ (s.next event).exchanges.length := by
  unfold next
  split
  · split <;> exact le_rfl
  · simp
  · split <;> simp
  · split <;> simp

section

variable {start : Scene} {now : Binary64} {messages : List Message} {system : Value}

theorem length_lt_after (later before : List Event) :
    (start.after before).exchanges.length <
      (start.after (later ++ .begin now messages system :: before)).exchanges.length := by
  induction later with
  | nil => simp [after, next]
  | cons event later ih => exact ih.trans_le (length_next _ event)

theorem traced_of_begun (later before : List Event) {e : Exchange}
    (he : (start.after (later ++ .begin now messages system :: before)).exchanges[
      (start.after before).exchanges.length]? = some e) :
    Traced start (later ++ .begin now messages system :: before)
      (start.after before).exchanges.length e now messages system before := by
  induction later generalizing e with
  | nil =>
    rw [List.nil_append, after, next, List.getElem?_concat_length] at he
    obtain rfl := Option.some.inj he
    exact traced_begin
  | cons event later ih =>
    rcases exchange_next he with hkept | ⟨_, _, _, -, hnumber, -⟩ |
      ⟨c, request, _, response, rfl, hc, rfl⟩ | ⟨c, rfl, hc, rfl⟩
    · exact (ih hkept).cons event
    · exact absurd hnumber (length_lt_after later before).ne
    · exact (ih hc).answered _
    · exact (ih hc).woken

end

end Scene

/-! ## What is sent -/

theorem Sent.exists_request {messages : List Message} {system : Value} {request : RelayRequest}
    (h : Sent messages system request) :
    ∃ r : Relay, r.request (payload messages system) = .ok request := by
  cases h with
  | alone net r files now env h =>
    obtain ⟨made, hchat, hmade⟩ := chat_recorded net r files now messages system env
    rw [hchat] at h
    exact ⟨r, hmade request h⟩
  | among start later before now e hexchange hsent =>
    obtain ⟨asked, -, hrequest⟩ :=
      (Scene.traced_of_begun later before hexchange).sent request hsent
    exact ⟨_, hrequest⟩

theorem payload_of_request {r : Relay} {p : List Value} {request : RelayRequest}
    (h : r.request p = .ok request) :
    ∃ written, Json.compact (.list p) = .ok written ∧
      request.body.get? "payload" = some (.text written) := by
  unfold Relay.request at h
  split at h
  · cases h
  · next written hwritten =>
    obtain ⟨more, -, rfl⟩ := map_eq_ok_iff.mp h
    exact ⟨written, hwritten, rfl⟩

theorem payload_messagesOf (system : String) (spoken : List (String × String)) :
    .list (payload (messagesOf spoken) (.text system)) = conversation system spoken := by
  simp [payload, messagesOf, conversation, Message.toValue, Message.system, Message.systemRole,
    Function.comp_def]

theorem data_conversation (system : String) (spoken : List (String × String)) :
    Json.Data (conversation system spoken) := by
  refine .list fun v hv => ?_
  obtain ⟨⟨role, content⟩, -, rfl⟩ := List.mem_map.mp hv
  refine .object (fun field hfield => ?_) (by simp)
  rcases List.mem_pair.mp hfield with rfl | rfl
  · exact .text role
  · exact .text content

theorem conversation_injective {system system' : String} {spoken spoken' : List (String × String)}
    (h : conversation system' spoken' = conversation system spoken) :
    system' = system ∧ spoken' = spoken := by
  have hinjective : Function.Injective fun message : String × String =>
      Value.object [("role", .text message.1), ("content", .text message.2)] := by
    rintro ⟨role, content⟩ ⟨role', content'⟩ heq
    simp only [Value.object.injEq, List.cons.injEq, Prod.mk.injEq, Value.text.injEq, true_and,
      and_true] at heq
    rw [heq.1, heq.2]
  have hsame := hinjective.list_map (Value.list.inj h)
  simp only [List.cons.injEq, Prod.mk.injEq, true_and] at hsame
  exact hsame

/-- **The conversation can be read from every request.**  A chat sends one text with all of its
requests, and this is read as the conversation.  If requests of two chats hold the same text, the
chats are about the same conversation. -/
theorem read_payload (system : String) (spoken : List (String × String)) :
    (∃ written, Json.read written = .ok (conversation system spoken) ∧
      ∀ request, Sent (messagesOf spoken) (.text system) request →
        request.body.get? "payload" = some (.text written)) ∧
      ∀ system' spoken' request request', Sent (messagesOf spoken) (.text system) request →
        Sent (messagesOf spoken') (.text system') request' →
        request'.body.get? "payload" = request.body.get? "payload" →
          system' = system ∧ spoken' = spoken := by
  have hread : ∀ {system spoken request}, Sent (messagesOf spoken) (.text system) request →
      ∃ written, Json.compact (conversation system spoken) = .ok written ∧
        request.body.get? "payload" = some (.text written) := by
    intro system spoken request hsent
    obtain ⟨r, hrequest⟩ := hsent.exists_request
    obtain ⟨written, hwritten, hpayload⟩ := payload_of_request hrequest
    rw [payload_messagesOf] at hwritten
    exact ⟨written, hwritten, hpayload⟩
  constructor
  · have htexts : ∀ m ∈ messagesOf spoken, OfTexts m := by
      intro m hm
      obtain ⟨⟨role, content⟩, -, rfl⟩ := List.mem_map.mp hm
      exact ⟨Value.isText_text role, Value.isText_text content⟩
    obtain ⟨written, hwritten⟩ := exists_compact_payload htexts (Value.isText_text system)
    rw [payload_messagesOf] at hwritten
    refine ⟨written, Json.read_compact (data_conversation system spoken) hwritten, ?_⟩
    intro request hsent
    obtain ⟨written', hwritten', hpayload⟩ := hread hsent
    obtain rfl := Except.ok.inj (hwritten'.symm.trans hwritten)
    exact hpayload
  · intro system' spoken' request request' hsent hsent' hsame
    obtain ⟨written, hwritten, hpayload⟩ := hread hsent
    obtain ⟨written', hwritten', hpayload'⟩ := hread hsent'
    rw [hpayload, hpayload', Option.some.injEq, Value.text.injEq] at hsame
    subst hsame
    have hdecoded := Json.read_compact (data_conversation system spoken) hwritten
    rw [Json.read_compact (data_conversation system' spoken') hwritten'] at hdecoded
    exact conversation_injective (Except.ok.inj hdecoded)

/-- Quotes, backslashes, line breaks and characters beyond U+FFFF, in a chat that asks twice; in two
messages the same words are sent otherwise. -/
theorem read_payload_quoted :
    let spoken := [("user", "\"\\\n\u0000"), ("assistant", "😀")]
    let other := [("user", "\"\\\n"), ("user", "\u0000"), ("assistant", "😀")]
    let requests := fun spoken => ((bare "http://one" "").chat (Network.steady busy).recorded
      ReplyCache.bare.2 (Binary64.ofInt 1000) (messagesOf spoken) (.text "Be terse.")
      ([], [])).2.2.2
    (requests spoken).length = 2 ∧
      (∃ written, Json.read written = .ok (conversation "Be terse." spoken) ∧
        ∀ request ∈ requests spoken, request.body.get? "payload" = some (.text written)) ∧
      ∀ request ∈ requests spoken, ∀ request' ∈ requests other,
        request'.body.get? "payload" ≠ request.body.get? "payload" := by
  intro spoken other requests
  obtain ⟨⟨written, hread, hsent⟩, hinjective⟩ := read_payload "Be terse." spoken
  have halone : ∀ {spoken request}, request ∈ requests spoken →
      Sent (messagesOf spoken) (.text "Be terse.") request := fun h => .alone _ _ _ _ _ h
  refine ⟨by decide +kernel, ⟨written, hread, fun request h => hsent request (halone h)⟩, ?_⟩
  intro request h request' h' hsame
  have hspoken := (hinjective _ other request request' (halone h) (halone h') hsame).2
  exact absurd hspoken (by decide)

end Relay

end PromptChain
