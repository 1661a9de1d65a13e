import PromptChain.Proofs.Json.Reading
import PromptChain.Proofs.Provider.Replies
/-!
# How long entries live

A value that is stored for a span of time is found up to the end of the span and not later,
whichever way it came into the cache: it was stored outright, somebody remembered it, or it is the
reply to a chat.  Only a span of zero is no limit at all (`expires_unless_zero`).
-/

namespace PromptChain

namespace Relay

variable {r : Relay} {cache : ReplyCache} (hcache : r.cache = some cache)
  {files files' : FileTree} {now : Binary64} {key : String} {v : Value}

theorem finish_of_settle {ε : Type} {chatKey : Option String} {answer : Except Fault Value × ε}
    {env : ε} (h : r.settle files now chatKey answer = (.ok v, files', env)) :
    ∃ data, r.finish files now chatKey data = (.ok v, files') := by
  unfold settle at h
  split at h
  · cases h
  next data env' =>
  obtain ⟨houtcome, hrest⟩ := Prod.mk.inj h
  exact ⟨data, Prod.ext houtcome (Prod.mk.inj hrest).1⟩

section

variable (hmissing : cache.get files now key = .ok .null)
include hcache hmissing

theorem set_of_receive {c : Chat} {retries : Nat} (hkey : c.key = some key)
    (hasking : c.progress = .asking retries)
    (h : r.receive files now (.ok v) c = ({ c with progress := .ended (.ok v) }, files')) :
    cache.set files now key v r.ttl = .ok files' := by
  rw [receive_ok hasking, hkey] at h
  obtain ⟨hchat, hfiles⟩ := Prod.mk.inj h
  have houtcome := Progress.ended.inj (congrArg Chat.progress hchat)
  exact (set_of_finish hcache hmissing (Prod.ext houtcome hfiles)).2

theorem set_of_fetch {ε : Type} {net : Network ε} {p : List Value} {env env' : ε}
    (hkey : r.cacheKey p = .ok key)
    (h : r.fetch net files now (r.begin files now p) env = (.ok v, files', env')) :
    cache.set files now key v r.ttl = .ok files' := by
  rw [fetch] at h
  split at h
  · next outcome hended =>
    obtain rfl := (Prod.mk.inj h).1
    obtain ⟨key', hkey', hget, hv⟩ := of_begin_eq_ended hcache hended
    obtain rfl := Except.ok.inj (hkey'.symm.trans hkey)
    exact absurd (Except.ok.inj (hget.symm.trans hmissing)) hv
  · rw [key_begin hcache hkey] at h
    obtain ⟨data, hfinish⟩ := finish_of_settle h
    exact (set_of_finish hcache hmissing hfinish).2
  · next hwaiting => exact absurd hwaiting (begin_progress_ne r files now p _)

end

end Relay

namespace ReplyCache

section

variable {cache : ReplyCache} {files files' files'' : FileTree} {now : Binary64} {key : String}
  {v ttl limit : Value}

theorem exists_entry_of_compact (hlimit : IsLimit limit) {s : String}
    (h : Json.compact (entry v limit) = .ok s) :
    ∃ w, Json.read s = .ok (entry w limit) ∧ (w = .null → v = .null) ∧ (Json.Data v → w = v) := by
  by_cases hdata : Json.Data v
  · exact ⟨v, Json.read_compact (data_entry hdata hlimit) h, id, fun _ => rfl⟩
  · -- A tuple comes back as a list, say: it is enough that something does.
    obtain ⟨w, hread, hnull⟩ := Json.exists_read_pair (by decide) hlimit.data h
    exact ⟨w, hread, hnull, fun hv => absurd hv hdata⟩

theorem exists_get_of_set (h : cache.set files now key v ttl = .ok files')
    (hlimit : expiry now ttl = .ok limit) :
    ∃ w, (w = .null → v = .null) ∧ (Json.Data v → w = v) ∧ ∀ later,
      cache.get files' later key = .ok (if lasts limit later then w else .null) := by
  obtain ⟨content, hcontent, hcontains⟩ := contains_of_set h
  obtain ⟨_, s, hlimit', hs, rfl⟩ := of_encode_eq_ok hcontent
  obtain rfl := Except.ok.inj (hlimit'.symm.trans hlimit)
  obtain ⟨w, hread, hnull, hdata⟩ := exists_entry_of_compact (isLimit_expiry hlimit) hs
  refine ⟨w, hnull, hdata, fun later => ?_⟩
  rw [hcontains.get_eq, decode?_toUTF8 hread]
  exact entryValue_entry (isLimit_expiry hlimit) w later

theorem lasts_expiry {n : Int} (h : expiry now (.int n) = .ok limit) (later : Binary64) :
    lasts limit later = true ↔ ¬(n ≠ 0 ∧ (now + Binary64.ofInt n).less later = true) := by
  by_cases hn : n = 0
  · obtain rfl : Value.null = limit := by simpa [expiry, Value.isFalsy, hn] using h
    simp [lasts, hn]
  · have hfalsy : (Value.int n).isFalsy = false := by simpa [Value.isFalsy] using hn
    have hspan : (Value.int n).quantity? = some (.whole n) := rfl
    simp only [expiry, hfalsy, hspan, Bool.false_eq_true, if_false] at h
    obtain ⟨x, hx, rfl⟩ := map_eq_ok_iff.mp h
    rw [Quantity.after] at hx
    split at hx
    · obtain rfl := Except.ok.inj hx
      simp [lasts, hn]
    · cases hx

end

/-- How a value comes to be what is stored for a key at a time, for a span of time. -/
inductive Stored (cache : ReplyCache) (key : String) (ttl : Value) (now : Binary64) (v : Value)
    (files' : FileTree) : Prop
  | set {files : FileTree} (h : cache.set files now key v ttl = .ok files')
  | remembered {ε : Type} {world : Surroundings ε}
      (hworld : ∀ files env, world.files (world.withFiles files env) = files)
      {compute : ε → Except Fault Value × ε} {env env₁ env₂ : ε}
      (hmissing : cache.get (world.files env) (world.now env) key = .ok .null)
      (hcompute : compute env = (.ok v, env₁)) (hnow : world.now env₁ = now)
      (hstill : cache.get (world.files env₁) now key = .ok .null)
      (h : cache.remember world key ttl compute env = (.ok v, env₂))
      (hfiles : world.files env₂ = files')
  | received {r : Relay} {c : Relay.Chat} {retries : Nat} {files : FileTree}
      (hcache : r.cache = some cache) (httl : r.ttl = ttl) (hkey : c.key = some key)
      (hasking : c.progress = .asking retries) (hmissing : cache.get files now key = .ok .null)
      (h : r.receive files now (.ok v) c = ({ c with progress := .ended (.ok v) }, files'))
  | fetched {ε : Type} {net : Network ε} {r : Relay} {p : List Value} {files : FileTree}
      {env env' : ε} (hcache : r.cache = some cache) (httl : r.ttl = ttl)
      (hkey : r.cacheKey p = .ok key) (hmissing : cache.get files now key = .ok .null)
      (h : r.fetch net files now (r.begin files now p) env = (.ok v, files', env'))

section

variable {cache : ReplyCache} {files' files'' : FileTree} {now : Binary64} {key : String}
  {v ttl : Value}

theorem Stored.exists_set (h : cache.Stored key ttl now v files') :
    ∃ files, cache.set files now key v ttl = .ok files' := by
  cases h with
  | set h => exact ⟨_, h⟩
  | @remembered ε world hworld compute env env₁ env₂ hmissing hcompute hnow hstill h hfiles =>
    obtain rfl := hnow
    refine ⟨world.files env₁, ?_⟩
    rw [remember_of_missing hmissing hcompute hstill] at h
    split at h
    · cases h
    next written hset =>
    rw [hset, ← hfiles, ← (Prod.mk.inj h).2, hworld]
  | received hcache httl hkey hasking hmissing h =>
    exact ⟨_, httl ▸ Relay.set_of_receive hcache hmissing hkey hasking h⟩
  | fetched hcache httl hkey hmissing h =>
    exact ⟨_, httl ▸ Relay.set_of_fetch hcache hmissing hkey h⟩

/-- **A span of time is the life of what is stored for it, unless it is zero.**  Whichever way a
value that is not null came into the cache, something is found for its key, and the value itself if
it is data, up to the end of the span; nothing is found later.  But what was stored for no time at
all is found at all times. -/
theorem expires_unless_zero {n : Int} (h : cache.Stored key (.int n) now v files') (hv : v ≠ .null)
    (huntouched : cache.Untouched key files' files'') :
    ∃ w, w ≠ .null ∧ (Json.Data v → w = v) ∧ ∀ later,
      cache.get files'' later key =
        .ok (if n ≠ 0 ∧ (now + Binary64.ofInt n).less later then .null else w) := by
  obtain ⟨files, hset⟩ := h.exists_set
  obtain ⟨limit, hlimit⟩ := exists_expiry_of_set hset
  obtain ⟨w, hnull, hdata, hget⟩ := exists_get_of_set hset hlimit
  refine ⟨w, fun hw => hv (hnull hw), hdata, fun later => ?_⟩
  rw [huntouched.get_eq, hget]
  have hlasts := lasts_expiry hlimit later
  by_cases hover : n ≠ 0 ∧ (now + Binary64.ofInt n).less later = true
  · rw [if_pos hover, if_neg fun h => hlasts.mp h hover]
  · rw [if_neg hover, if_pos (hlasts.mpr hover)]

end

def timeless : Relay := { Relay.bare "http://one" "" with ttl := .int 0 }

/-- After a minute nothing is found any more of what was stored for a minute, while the reply to a
chat that is stored for no time at all is there years later. -/
theorem expires_unless_zero_bare :
    (∃ files', bare.1.set bare.2 (Binary64.ofInt 1000) "k" (.text "v") (.int 60) = .ok files' ∧
      bare.1.get files' (Binary64.ofInt 1060) "k" = .ok (.text "v") ∧
      bare.1.get files' (Binary64.ofInt 1061) "k" = .ok .null) ∧
    let done := timeless.fetch (Network.steady (Relay.accepted Relay.greeting)) bare.2
      (Binary64.ofInt 1000) (timeless.begin bare.2 (Binary64.ofInt 1000)
        (Relay.payload [Message.user "Hi"] (.text ""))) []
    bare.1.get done.2.1 (Binary64.ofInt 100000000) "llama3-8b_c1a5298f" = .ok Relay.greeting := by
  constructor
  · obtain ⟨files', hset⟩ : ∃ files', bare.1.set bare.2 (Binary64.ofInt 1000) "k" (.text "v")
        (.int 60) = .ok files' := ⟨_, rfl⟩
    obtain ⟨w, -, hw, hget⟩ := expires_unless_zero (.set hset) (by decide) (.refl _ _ _)
    obtain rfl := hw (.text "v")
    refine ⟨files', hset, ?_, ?_⟩
    · rw [hget, if_neg (by decide +kernel)]
    · rw [hget, if_pos (by decide +kernel)]
  · intro done
    have hdone : done.1 = .ok Relay.greeting := by decide +kernel
    have hkey : timeless.cacheKey (Relay.payload [Message.user "Hi"] (.text "")) =
        .ok "llama3-8b_c1a5298f" := by decide +kernel
    obtain ⟨w, -, hw, hget⟩ := expires_unless_zero
      (.fetched rfl rfl hkey (by decide +kernel) (Prod.ext hdone rfl)) (by decide) (.refl _ _ _)
    obtain rfl := hw Relay.data_greeting
    rw [hget, if_neg (by simp)]

end ReplyCache

end PromptChain
