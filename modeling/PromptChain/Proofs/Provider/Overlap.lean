import PromptChain.Proofs.Cache.Keys
import PromptChain.Proofs.Provider.Transcripts
/-!
# Chats that overlap

Any number of chats use one relay, which may be told to use another model between their steps.  A
chat takes its key from the model in use when it begins, but every request of it names the model in
use when that request is made.  So what it stores under its key is an answer of another model if the
relay was told to use one while the chat waited to ask again (`deposited_from`).
-/

namespace PromptChain.Relay

/-! ## Scenes -/

/-- A chat on its way, and the request that is not answered yet. -/
structure Exchange where
  chat : Chat
  sent : Option RelayRequest

structure Scene where
  relay : Relay
  files : FileTree
  exchanges : List Exchange := []

inductive Event where
  | use (label : Value)
  | begin (now : Binary64) (messages : List Message) (system : Value)
  | answer (number : Nat) (now : Binary64) (response : Except Fault RelayResponse)
  | wake (number : Nat)

/-- Makes the request of a chat, if it has one to make.  One that cannot be made has failed. -/
def pose (r : Relay) (c : Chat) : Exchange :=
  match c.progress with
  | .asking retries =>
    match r.request c.payload with
    | .ok request => ⟨c, some request⟩
    | .error e => ⟨{ c with progress := failed e retries }, none⟩
  | _ => ⟨c, none⟩

namespace Scene

def next (s : Scene) : Event → Scene
  | .use label =>
    match s.relay.catalog.use label with
    | .ok catalog => { s with relay := { s.relay with catalog } }
    | .error _ => s
  | .begin now messages system =>
    let chat := s.relay.begin s.files now (payload messages system)
    { s with exchanges := s.exchanges ++ [s.relay.pose chat] }
  | .answer number now response =>
    match s.exchanges[number]? with
    | some ⟨c, some _⟩ =>
      let (c, files) := s.relay.receive s.files now (response.bind s.relay.accept) c
      { s with files, exchanges := s.exchanges.set number ⟨c, none⟩ }
    | _ => s
  | .wake number =>
    match s.exchanges[number]? with
    | some ⟨c, none⟩ => { s with exchanges := s.exchanges.set number (s.relay.pose (wake c)) }
    | _ => s

/-- What was stored under a key, and the request that it answers. -/
structure Deposit where
  key : String
  data : Value
  request : RelayRequest

/-- The key under which the data of a reply are stored at the end of a chat: its own one, if there is
still nothing for it and if they can be stored. -/
def stored? (r : Relay) (files : FileTree) (now : Binary64) (key : Option String) (data : Value) :
    Option String :=
  match r.cache, key with
  | some cache, some key =>
    match cache.get files now key, cache.set files now key data r.ttl with
    | .ok .null, .ok _ => some key
    | _, _ => none
  | _, _ => none

def deposit? (s : Scene) : Event → Option Deposit
  | .answer number now response =>
    match s.exchanges[number]? with
    | some ⟨c, some request⟩ =>
      match c.progress, response.bind s.relay.accept with
      | .asking _, .ok data =>
        (stored? s.relay s.files now c.key data).map fun key => ⟨key, data, request⟩
      | _, _ => none
    | _ => none
  | _ => none

/-- The latest event of a history comes first. -/
def after (start : Scene) : List Event → Scene
  | [] => start
  | event :: past => (start.after past).next event

def deposits (start : Scene) : List Event → List Deposit
  | [] => []
  | event :: past => ((start.after past).deposit? event).toList ++ start.deposits past

end Scene

/-! ## What an event stores -/

section

variable {r : Relay} {files : FileTree} {now : Binary64} {c : Chat}

theorem cacheKey_of_begin {p : List Value} {key : String}
    (h : (r.begin files now p).key = some key) : r.cacheKey p = .ok key := by
  unfold begin at h
  split at h
  · cases h
  · split at h
    · cases h
    · next hkey => exact hkey.trans (congrArg Except.ok (Option.some.inj h))

theorem pose_kept (r : Relay) (c : Chat) :
    (r.pose c).chat.payload = c.payload ∧ (r.pose c).chat.key = c.key := by
  unfold pose
  split
  · split <;> exact ⟨rfl, rfl⟩
  · exact ⟨rfl, rfl⟩

theorem request_of_pose {request : RelayRequest} (h : (r.pose c).sent = some request) :
    r.request c.payload = .ok request := by
  unfold pose at h
  split at h
  · split at h
    · next hrequest => exact hrequest.trans (congrArg Except.ok (Option.some.inj h))
    · cases h
  · cases h

theorem model_of_request {p : List Value} {request : RelayRequest}
    (h : r.request p = .ok request) : request.body.get? "model" = some r.catalog.model := by
  rw [Relay.request] at h
  split at h
  · cases h
  · obtain ⟨more, -, rfl⟩ := map_eq_ok_iff.mp h
    rfl

end

namespace Scene

variable {s start : Scene} {history : List Event}

theorem files_finish (r : Relay) (files : FileTree) (now : Binary64) (key : Option String)
    (data : Value) :
    (stored? r files now key data = none ∧ (r.finish files now key data).2 = files) ∨
      ∃ k cache, stored? r files now key data = some k ∧ r.cache = some cache ∧
        cache.set files now k data r.ttl = .ok (r.finish files now key data).2 := by
  cases hcache : r.cache with
  | none => exact .inl (by simp [stored?, finish, hcache])
  | some cache =>
    cases key with
    | none => exact .inl (by simp [stored?, finish, hcache])
    | some key =>
      simp only [stored?, finish, hcache]
      cases hget : cache.get files now key with
      | error e =>
        rw [ReplyCache.complete_of_error hget]
        exact .inl ⟨rfl, rfl⟩
      | ok v =>
        by_cases hv : v = .null
        · subst hv
          rw [ReplyCache.complete_of_null hget]
          cases hset : cache.set files now key data r.ttl with
          | error e => exact .inl ⟨rfl, rfl⟩
          | ok files' => exact .inr ⟨key, cache, rfl, rfl, hset⟩
        · rw [ReplyCache.complete_of_stored hget hv]
          exact .inl ⟨by split <;> simp_all, rfl⟩

theorem files_next (s : Scene) (event : Event) :
    (s.deposit? event = none ∧ (s.next event).files = s.files) ∨
      ∃ d cache now, s.deposit? event = some d ∧ s.relay.cache = some cache ∧
        cache.set s.files now d.key d.data s.relay.ttl = .ok (s.next event).files := by
  cases event with
  | use label =>
    rw [next]
    split <;> exact .inl ⟨rfl, rfl⟩
  | begin now messages system => exact .inl ⟨rfl, rfl⟩
  | wake number =>
    rw [next]
    split <;> exact .inl ⟨rfl, rfl⟩
  | answer number now response =>
    rw [next, deposit?]
    rcases s.exchanges[number]? with _ | ⟨c, _ | request⟩
    · exact .inl ⟨rfl, rfl⟩
    · exact .inl ⟨rfl, rfl⟩
    · dsimp only
      cases hprogress : c.progress with
      | asking retries =>
        cases hreply : response.bind s.relay.accept with
        | error e =>
          rw [receive_error hprogress]
          exact .inl ⟨rfl, rfl⟩
        | ok data =>
          rw [receive_ok hprogress]
          obtain ⟨hnone, hfiles⟩ | ⟨key, cache, hkey, hcache, hset⟩ :=
            files_finish s.relay s.files now c.key data
          · exact .inl ⟨by simp [hnone], hfiles⟩
          · exact .inr ⟨⟨key, data, request⟩, cache, now, by simp [hkey], hcache, hset⟩
      | waiting retries => exact .inl (by simp [receive, hprogress])
      | ended outcome => exact .inl (by simp [receive, hprogress])

theorem of_getElem?_set {α : Type} {l : List α} {i j : Nat} {new x : α}
    (h : (l.set i new)[j]? = some x) : i = j ∧ new = x ∨ l[j]? = some x := by
  rw [List.getElem?_set] at h
  split at h
  · next hij =>
    obtain ⟨-, hnew⟩ := Option.ite_none_right_eq_some.mp h
    exact .inl ⟨hij, Option.some.inj hnew⟩
  · exact .inr h

theorem exchange_next {event : Event} {number : Nat} {e : Exchange}
    (he : (s.next event).exchanges[number]? = some e) :
    s.exchanges[number]? = some e ∨
    (∃ now messages system, event = .begin now messages system ∧ number = s.exchanges.length ∧
      e = s.relay.pose (s.relay.begin s.files now (payload messages system))) ∨
    (∃ c request now response, event = .answer number now response ∧
      s.exchanges[number]? = some ⟨c, some request⟩ ∧
      e = ⟨(s.relay.receive s.files now (response.bind s.relay.accept) c).1, none⟩) ∨
    ∃ c, event = .wake number ∧ s.exchanges[number]? = some ⟨c, none⟩ ∧
      e = s.relay.pose (wake c) := by
  cases event with
  | use label =>
    rw [next] at he
    split at he <;> exact .inl he
  | begin now messages system =>
    rw [next, List.getElem?_append] at he
    split at he
    · exact .inl he
    · obtain ⟨hlast, hnew⟩ := List.getElem?_eq_some_iff.mp he
      rw [List.length_singleton] at hlast
      rw [List.getElem_singleton] at hnew
      exact .inr (.inl ⟨now, messages, system, rfl, by omega, hnew.symm⟩)
  | answer other now response =>
    rw [next] at he
    split at he
    · next c request hc =>
      obtain ⟨rfl, hnew⟩ | hkept := of_getElem?_set he
      · exact .inr (.inr (.inl ⟨c, request, now, response, rfl, hc, hnew.symm⟩))
      · exact .inl hkept
    · exact .inl he
  | wake other =>
    rw [next] at he
    split at he
    · next c hc =>
      obtain ⟨rfl, hnew⟩ | hkept := of_getElem?_set he
      · exact .inr (.inr (.inr ⟨c, rfl, hc, hnew.symm⟩))
      · exact .inl hkept
    · exact .inl he

theorem relay_next {event : Event} (h : ∀ label, event ≠ .use label) (s : Scene) :
    (s.next event).relay = s.relay := by
  cases event with
  | use label => exact absurd rfl (h label)
  | begin now messages system => rfl
  | answer number now response =>
    rw [next]
    split <;> rfl
  | wake number =>
    rw [next]
    split <;> rfl

theorem exists_relay_next (s : Scene) (event : Event) :
    ∃ catalog, (s.next event).relay = { s.relay with catalog } := by
  cases event with
  | use label =>
    rw [next]
    split
    · exact ⟨_, rfl⟩
    · exact ⟨s.relay.catalog, rfl⟩
  | _ => exact ⟨s.relay.catalog, relay_next (by simp) s⟩

theorem exists_relay_after (start : Scene) (history : List Event) :
    ∃ catalog, (start.after history).relay = { start.relay with catalog } := by
  induction history with
  | nil => exact ⟨start.relay.catalog, rfl⟩
  | cons event past ih =>
    obtain ⟨before, hbefore⟩ := ih
    obtain ⟨catalog, hcatalog⟩ := exists_relay_next (start.after past) event
    exact ⟨catalog, by rw [after, hcatalog, hbefore]⟩

theorem relay_after_append {later : List Event} (hlater : ∀ label, .use label ∉ later)
    (start : Scene) (history : List Event) :
    (start.after (later ++ history)).relay = (start.after history).relay := by
  induction later with
  | nil => rfl
  | cons event rest ih =>
    have hrest : ∀ label, .use label ∉ rest := fun label hmem =>
      hlater label (List.mem_cons_of_mem event hmem)
    have hevent : ∀ label, event ≠ .use label := fun label heq =>
      hlater label (heq ▸ List.mem_cons_self)
    rw [← ih hrest, List.cons_append, after, relay_next hevent]

theorem stored?_eq_some {r : Relay} {files : FileTree} {now : Binary64} {key : Option String}
    {data : Value} {k : String} (h : stored? r files now key data = some k) : key = some k := by
  unfold stored? at h
  split at h
  · split at h
    · exact h
    · cases h
  · cases h

theorem exists_exchange_of_deposit? {event : Event} {d : Deposit} (h : s.deposit? event = some d) :
    ∃ (number : Nat) (c : Chat),
      s.exchanges[number]? = some ⟨c, some d.request⟩ ∧ c.key = some d.key := by
  unfold deposit? at h
  split at h
  · next number now response =>
    split at h
    · next c request hc =>
      split at h
      · obtain ⟨key, hkey, rfl⟩ := Option.map_eq_some_iff.mp h
        exact ⟨number, c, hc, stored?_eq_some hkey⟩
      · cases h
    · cases h
  · cases h

/-! ## Chats that do not overlap -/

theorem after_append (start : Scene) (later history : List Event) :
    start.after (later ++ history) = (start.after history).after later := by
  induction later with
  | nil => rfl
  | cons event rest ih => exact congrArg (Scene.next · event) ih

def EndsWith (s : Scene) (outcome : Except Fault Value) (files : FileTree) : Prop :=
  ∃ history c, (s.after history).exchanges = [⟨c, none⟩] ∧ c.progress = .ended outcome ∧
    (s.after history).files = files

theorem EndsWith.of_after {outcome : Except Fault Value} {files : FileTree} (later : List Event)
    (h : (s.after later).EndsWith outcome files) : s.EndsWith outcome files := by
  obtain ⟨history, hrest⟩ := h
  rw [← after_append] at hrest
  exact ⟨history ++ later, hrest⟩

section

variable {ε : Type} (net : Network ε) {r : Relay} (files : FileTree) (now : Binary64) {c : Chat}
  {retries : Nat}

theorem exists_after_ask (hasking : c.progress = .asking retries) (env : ε) :
    ∃ later, ({ relay := r, files, exchanges := [r.pose c] } : Scene).after later =
      match (r.ask net c.payload env).1 with
      | .error e =>
        { relay := r, files, exchanges := [⟨{ c with progress := failed e retries }, none⟩] }
      | .ok data =>
        let (outcome, files) := r.finish files now c.key data
        { relay := r, files, exchanges := [⟨{ c with progress := .ended outcome }, none⟩] } := by
  simp only [pose, hasking, ask]
  cases r.request c.payload with
  | error e => exact ⟨[], rfl⟩
  | ok request =>
    refine ⟨[.answer 0 now (net.post request env).1], ?_⟩
    simp only [after, next, List.getElem?_cons_zero, List.set_cons_zero]
    cases (net.post request env).1.bind r.accept with
    | error e => simp only [receive_error hasking]
    | ok data => simp only [receive_ok hasking]

theorem endsWith_of_converse (hasking : c.progress = .asking retries) (env : ε) :
    let settled := r.settle files now c.key (converse net r c.payload retries env)
    EndsWith { relay := r, files, exchanges := [r.pose c] } settled.1 settled.2.1 := by
  induction retries generalizing c env with
  | zero =>
    obtain ⟨later, hlater⟩ := exists_after_ask net files now hasking env
    rcases hask : r.ask net c.payload env with ⟨_ | data, env'⟩
    · rw [hask] at hlater
      simp only [converse, hask, settle]
      exact ⟨later, _, by rw [hlater], rfl, by rw [hlater]⟩
    · rw [hask] at hlater
      simp only [converse, hask, settle]
      exact ⟨later, _, by rw [hlater], rfl, by rw [hlater]⟩
  | succ retries ih =>
    obtain ⟨later, hlater⟩ := exists_after_ask net files now hasking env
    rcases hask : r.ask net c.payload env with ⟨e | data, env'⟩
    · rw [hask] at hlater
      simp only [converse, hask]
      -- The chat waits, and after its delay asks again with a retry less, as `converse` does.
      have hwoken : ({ relay := r, files, exchanges := [r.pose c] } : Scene).after
          (.wake 0 :: later) =
            { relay := r, files, exchanges := [r.pose { c with progress := .asking retries }] } := by
        rw [after, hlater]
        rfl
      refine EndsWith.of_after (.wake 0 :: later) ?_
      rw [hwoken]
      exact ih (c := { c with progress := .asking retries }) rfl _
    · rw [hask] at hlater
      simp only [converse, hask, settle]
      exact ⟨later, _, by rw [hlater], rfl, by rw [hlater]⟩

/-- **A chat that nobody interferes with is a scene with one chat.** -/
theorem endsWith_of_fetch (p : List Value) (env : ε) :
    let fetched := r.fetch net files now (r.begin files now p) env
    EndsWith { relay := r, files, exchanges := [r.pose (r.begin files now p)] } fetched.1
      fetched.2.1 := by
  cases hprogress : (r.begin files now p).progress with
  | ended outcome =>
    simp only [fetch, hprogress]
    exact ⟨[], _, by simp only [after, pose, hprogress], hprogress, rfl⟩
  | asking retries =>
    simp only [fetch, hprogress]
    exact endsWith_of_converse net files now hprogress env
  | waiting retries => exact absurd hprogress (begin_progress_ne r files now p retries)

end

/-! ## Where requests come from -/

/-- Whether a chat that began after a history makes a request after another one: it does so when it
begins, and when a delay of it is over. -/
def Asks (history : List Event) (number : Nat) (first : Event) (before asked : List Event) : Prop :=
  asked = before ∨ first :: before <:+ asked ∧ .wake number :: asked <:+ history

structure Traced (start : Scene) (history : List Event) (number : Nat) (e : Exchange)
    (now : Binary64) (messages : List Message) (system : Value) (before : List Event) : Prop where
  begun : .begin now messages system :: before <:+ history
  position : (start.after before).exchanges.length = number
  payload : e.chat.payload = payload messages system
  key : ∀ key, e.chat.key = some key →
    (start.after before).relay.cacheKey (Relay.payload messages system) = .ok key
  sent : ∀ request, e.sent = some request → ∃ asked,
    Asks history number (.begin now messages system) before asked ∧
      (start.after asked).relay.request (Relay.payload messages system) = .ok request

theorem Asks.cons {number : Nat} {first : Event} {before asked : List Event}
    (h : Asks history number first before asked) (event : Event) :
    Asks (event :: history) number first before asked :=
  h.imp_right fun ⟨hbegun, hasked⟩ => ⟨hbegun, hasked.trans (List.suffix_cons event history)⟩

section

variable {number : Nat} {e : Exchange} {now : Binary64} {messages : List Message} {system : Value}
  {before : List Event}

theorem Traced.cons (h : Traced start history number e now messages system before) (event : Event) :
    Traced start (event :: history) number e now messages system before :=
  { h with
    begun := h.begun.trans (List.suffix_cons event history)
    sent := fun request hsent =>
      let ⟨asked, hasks, hrequest⟩ := h.sent request hsent
      ⟨asked, hasks.cons event, hrequest⟩ }

theorem traced_begin :
    Traced start (.begin now messages system :: history) (start.after history).exchanges.length
      ((start.after history).relay.pose
        ((start.after history).relay.begin (start.after history).files now
          (payload messages system)))
      now messages system history where
  begun := List.suffix_refl _
  position := rfl
  payload := (pose_kept _ _).1.trans (begin_payload _)
  key key hkey := cacheKey_of_begin ((pose_kept _ _).2.symm.trans hkey)
  sent request hsent := by
    have hrequest := request_of_pose hsent
    rw [begin_payload] at hrequest
    exact ⟨history, .inl rfl, hrequest⟩

theorem Traced.answered (h : Traced start history number e now messages system before)
    {r : Relay} {files : FileTree} {later : Binary64} {reply : Except Fault Value} (event : Event) :
    Traced start (event :: history) number ⟨(r.receive files later reply e.chat).1, none⟩ now
      messages system before :=
  { h.cons event with
    payload := (receive_kept reply).1.trans h.payload
    key := fun key hkey => h.key key ((receive_kept reply).2.symm.trans hkey)
    sent := nofun }

theorem Traced.woken (h : Traced start history number e now messages system before) :
    Traced start (.wake number :: history) number
      ((start.after history).relay.pose (wake e.chat)) now messages system before :=
  { h.cons _ with
    payload := (pose_kept _ _).1.trans ((wake_kept e.chat).1.trans h.payload)
    key := fun key hkey =>
      h.key key ((wake_kept e.chat).2.symm.trans ((pose_kept _ _).2.symm.trans hkey))
    sent := by
      intro request hsent
      have hrequest := request_of_pose hsent
      rw [(wake_kept e.chat).1, h.payload] at hrequest
      exact ⟨history, .inr ⟨h.begun, List.suffix_refl _⟩, hrequest⟩ }

end

theorem exists_traced (hstart : start.exchanges = []) {number : Nat} {e : Exchange}
    (he : (start.after history).exchanges[number]? = some e) :
    ∃ now messages system before, Traced start history number e now messages system before := by
  induction history generalizing number e with
  | nil => simp [after, hstart] at he
  | cons event past ih =>
    rcases exchange_next he with hkept | ⟨now, messages, system, rfl, rfl, rfl⟩ |
      ⟨c, request, later, response, rfl, hc, rfl⟩ | ⟨c, rfl, hc, rfl⟩
    · obtain ⟨now, messages, system, before, h⟩ := ih hkept
      exact ⟨now, messages, system, before, h.cons event⟩
    · exact ⟨now, messages, system, past, traced_begin⟩
    · obtain ⟨now, messages, system, before, h⟩ := ih hc
      exact ⟨now, messages, system, before, h.answered _⟩
    · obtain ⟨now, messages, system, before, h⟩ := ih hc
      exact ⟨now, messages, system, before, h.woken⟩

theorem traced_of_mem_deposits (hstart : start.exchanges = []) {d : Deposit}
    (hd : d ∈ start.deposits history) :
    ∃ number e now messages system before,
      Traced start history number e now messages system before ∧
        e.chat.key = some d.key ∧ e.sent = some d.request := by
  induction history with
  | nil => cases hd
  | cons event past ih =>
    rw [deposits, List.mem_append, Option.mem_toList] at hd
    rcases hd with hd | hd
    · obtain ⟨number, c, hc, hkey⟩ := exists_exchange_of_deposit? (Option.mem_def.mp hd)
      obtain ⟨now, messages, system, before, h⟩ := exists_traced hstart hc
      exact ⟨number, _, now, messages, system, before, h.cons event, hkey, rfl⟩
    · obtain ⟨number, e, now, messages, system, before, h, hkey, hsent⟩ := ih hd
      exact ⟨number, e, now, messages, system, before, h.cons event, hkey, hsent⟩

/-! ## What is in the files -/

structure Deposit.IsAt (d : Deposit) (r : Relay) (files : FileTree) (place : Place)
    (content : List UInt8) : Prop where
  located : ∀ cache, r.cache = some cache → files.locate (cache.path d.key) = .ok place
  encoded : ∃ now, ReplyCache.encode now d.data r.ttl = .ok content

theorem deposit_of_file {place : Place} {content : List UInt8}
    (h : (start.after history).files.get? place = some (.file content)) :
    start.files.get? place = some (.file content) ∨
      ∃ d ∈ start.deposits history, d.IsAt start.relay (start.after history).files place content := by
  induction history with
  | nil => exact .inl h
  | cons event past ih =>
    obtain ⟨hnone, hfiles⟩ | ⟨d, cache, now, hd, hcache, hset⟩ := files_next (start.after past) event
    · rw [after, hfiles] at h ⊢
      rw [deposits, hnone]
      exact ih h
    · obtain ⟨content', hcontent, -, hwrite⟩ := ReplyCache.of_set_eq_ok hset
      obtain ⟨place', hplace, hnode, hput⟩ := FileTree.of_write_eq_ok hwrite
      have hkeeps := FileTree.keeps_put hnode (.file content')
      obtain ⟨catalog, hrelay⟩ := exists_relay_after start past
      rw [hrelay] at hcache hcontent
      rw [after, hput] at h ⊢
      rw [deposits, hd, Option.toList_some, List.singleton_append]
      rw [FileTree.get?_put _ (FileTree.ne_root hnode)] at h
      split at h
      · next hsame =>
        -- The event wrote this file: its deposit is what is there now.
        obtain ⟨⟩ := Option.some.inj h
        refine .inr ⟨d, List.mem_cons_self, fun cache' hcache' => ?_, now, hcontent⟩
        obtain rfl := Option.some.inj (hcache.symm.trans hcache')
        rw [hsame]
        exact FileTree.locate_of_keeps hkeeps hplace
      · refine (ih h).imp_right fun ⟨d', hd', hat⟩ => ⟨d', List.mem_cons_of_mem _ hd', ?_⟩
        exact ⟨fun cache' hcache' => FileTree.locate_of_keeps hkeeps (hat.located cache' hcache'),
          hat.encoded⟩

end Scene

theorem isName_of_cacheKey {r : Relay} {p : List Value} {key : String} (h : r.cacheKey p = .ok key)
    {model : List Char} (hmodel : r.catalog.model.plain = .ok model) (hslash : '/' ∉ model)
    (hnul : '\x00' ∉ model) : ReplyCache.IsName key := by
  rw [cacheKey, hmodel] at h
  obtain ⟨hash, hhash, rfl⟩ := map_eq_ok_iff.mp h
  obtain ⟨s, rfl⟩ := of_contentHash_eq_ok hhash
  have hpart : ∀ c, c ∉ model → c ≠ '_' → (∀ k < 16, c ≠ Nat.digitChar k) →
      c ∉ (String.ofList model ++ "_" ++ String.ofList (shortDigest s)).toList := by
    intro c hc hbar hdigit
    simp only [String.toList_append, String.toList_ofList, List.mem_append]
    rintro ((hin | hin) | hin)
    · exact hc hin
    · exact hbar (by simpa using hin)
    · exact notMem_shortDigest hdigit s hin
  exact ⟨hpart _ hslash (by decide) (by decide), hpart _ hnul (by decide) (by decide)⟩

/-- **Where stored replies come from.** -/
theorem deposited_from (relay : Relay) (files : FileTree) (history : List Event) :
    let start : Scene := { relay, files }
    (∀ d ∈ start.deposits history, ∃ now messages system before asked,
      .begin now messages system :: before <:+ history ∧
      (start.after before).relay.cacheKey (payload messages system) = .ok d.key ∧
      Scene.Asks history (start.after before).exchanges.length (.begin now messages system)
        before asked ∧
      (start.after asked).relay.request (payload messages system) = .ok d.request ∧
      d.request.body.get? "model" = some (start.after asked).relay.catalog.model ∧
      ((∀ later label, asked = later ++ .begin now messages system :: before →
          .use label ∉ later) →
        d.request.body.get? "model" = some (start.after before).relay.catalog.model) ∧
      ∀ model, (start.after before).relay.catalog.model.plain = .ok model → '/' ∉ model →
        '\x00' ∉ model → ReplyCache.IsName d.key) ∧
    ∀ cache key place content, relay.cache = some cache → ReplyCache.IsName key →
      (start.after history).files.locate (cache.path key) = .ok place →
      (start.after history).files.get? place = some (.file content) →
      files.get? place = some (.file content) ∨
        ∃ d ∈ start.deposits history,
          (∃ now, ReplyCache.encode now d.data relay.ttl = .ok content) ∧
            (ReplyCache.IsName d.key → d.key = key) := by
  intro start
  refine ⟨fun d hd => ?_, fun cache key place content hcache hkey hplace hcontent => ?_⟩
  · obtain ⟨number, e, now, messages, system, before, h, hkey, hsent⟩ :=
      Scene.traced_of_mem_deposits rfl hd
    obtain ⟨asked, hasks, hrequest⟩ := h.sent d.request hsent
    have hmodel := model_of_request hrequest
    refine ⟨now, messages, system, before, asked, h.begun, h.key d.key hkey, h.position ▸ hasks,
      hrequest, hmodel, fun hquiet => ?_, fun model => isName_of_cacheKey (h.key d.key hkey)⟩
    rw [hmodel]
    -- A first request was made when the chat began, a later one after what happened since.
    rcases hasks with rfl | ⟨⟨later, rfl⟩, -⟩
    · rfl
    · rw [Scene.relay_after_append (hquiet later · rfl)]
      rfl
  · refine (Scene.deposit_of_file hcontent).imp_right fun ⟨d, hd, hat⟩ => ?_
    exact ⟨d, hd, hat.encoded, fun hname => hkey.eq_of_locate hname hplace (hat.located cache hcache)⟩

/-- A relay is told to use another model while a chat waits to ask again: what is found under the
key of the first model is an answer of the second one. -/
theorem deposited_from_other_model :
    let start : Scene := { relay := bare "http://proxy" "", files := ReplyCache.bare.2 }
    let history : List Event := [
      .answer 0 (Binary64.ofInt 7) (.ok (accepted greeting)), .wake 0,
      .use (.text "llama3-70b"),
      .answer 0 (Binary64.ofInt 1) (.error (.outside "ConnectionError" "reset")),
      .begin (Binary64.ofInt 0) [Message.user "hi"] (.text "")]
    ∃ d ∈ start.deposits history, d.key = "llama3-8b_49f68a5c" ∧
      d.request.body.get? "model" = some (.text "llama3-70b") ∧
      (∃ asked, asked <:+ history ∧
        (start.after asked).relay.catalog.model = .text "llama3-70b") ∧
      ReplyCache.bare.1.get (start.after history).files (Binary64.ofInt 8) d.key =
        .ok greeting := by
  intro start history
  have hdeposits : ((start.deposits history).map fun d => (d.key, d.request.body.get? "model")) =
      [("llama3-8b_49f68a5c", some (.text "llama3-70b"))] := by decide +kernel
  have hfound : ReplyCache.bare.1.get (start.after history).files (Binary64.ofInt 8)
      "llama3-8b_49f68a5c" = .ok greeting := by decide +kernel
  obtain ⟨d, hd, hpair⟩ := List.mem_map.mp (hdeposits ▸ List.mem_cons_self)
  obtain ⟨hkey, hnamed⟩ := Prod.mk.inj hpair
  obtain ⟨now, messages, system, before, asked, hbegun, -, hasks, -, hmodel, -⟩ :=
    (deposited_from (bare "http://proxy" "") ReplyCache.bare.2 history).1 d hd
  have hasked : asked <:+ history := by
    rcases hasks with rfl | ⟨-, hwake⟩
    · exact (List.suffix_cons _ _).trans hbegun
    · exact (List.suffix_cons _ _).trans hwake
  exact ⟨d, hd, hkey, hnamed, ⟨asked, hasked, Option.some.inj (hmodel.symm.trans hnamed)⟩,
    hkey ▸ hfound⟩

end PromptChain.Relay
