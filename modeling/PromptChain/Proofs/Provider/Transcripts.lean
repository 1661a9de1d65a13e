import PromptChain.Proofs.Provider.Replies
/-!
# Conversations that share a reply

A reply is kept under the digits of what the user said.  These are taken from one text, in which the
messages stand as lines, so that the key does not show where one message ends and the next one
begins.  A chat is answered with the reply to another conversation exactly if both have the same
transcript (`transcript_of_draws`, `cacheKey_of_transcript`).
-/

namespace PromptChain

/-! ## Digits -/

theorem notMem_hexDigits {c : Char} (hc : ∀ k < 16, c ≠ Nat.digitChar k) (width n : Nat) :
    c ∉ Text.hexDigits width n := by
  induction width generalizing n with
  | zero => simp [Text.hexDigits]
  | succ width ih =>
    rw [Text.hexDigits, List.mem_append, not_or, List.mem_singleton]
    exact ⟨ih _, hc _ (Nat.mod_lt _ (by decide))⟩

namespace Relay

def shortDigest (s : String) : List Char := (Text.Digest.ofText s).take 8

theorem notMem_shortDigest {c : Char} (hc : ∀ k < 16, c ≠ Nat.digitChar k) (s : String) :
    c ∉ shortDigest s := by
  intro h
  obtain ⟨byte, -, hbyte⟩ := List.mem_flatMap.mp (List.mem_of_mem_take h)
  exact notMem_hexDigits hc 2 byte.toNat hbyte

theorem slash_notMem_shortDigest (s : String) : '/' ∉ shortDigest s :=
  notMem_shortDigest (by decide) s

/-! ## Transcripts -/

def SaysTexts (messages : List Message) : Prop :=
  ∀ m ∈ messages, m.role = Message.userRole → ∃ s, m.content = .text s

/-- The texts of the user's messages, without the blanks around them. -/
def said (messages : List Message) : List String :=
  (messages.filter fun m => m.role = Message.userRole).filterMap fun m =>
    m.content.text?.map Text.trim

/-- What the user said, as the lines of one text. -/
def transcript (messages : List Message) : String := "\n".intercalate (said messages)

theorem words_of_saysTexts {messages : List Message} (h : SaysTexts messages) :
    words messages = (said messages).map fun s => .ok (.text s) := by
  induction messages with
  | nil => rfl
  | cons m rest ih =>
    have hrest := ih fun n hn => h n (List.mem_cons_of_mem m hn)
    by_cases huser : m.role = Message.userRole
    · obtain ⟨s, hs⟩ := h m List.mem_cons_self huser
      have htrimmed : m.content.trimmed = .ok (.text (Text.trim s)) := by rw [hs]; rfl
      have htext : m.content.text? = some s := by rw [hs]; rfl
      simp only [words, said] at hrest ⊢
      simp [huser, htrimmed, htext, hrest]
    · simp only [words, said] at hrest ⊢
      simp [huser, hrest]

theorem userContents_of_saysTexts {messages : List Message} (h : SaysTexts messages)
    (system : Value) :
    userContents (payload messages system) = .ok ((said messages).map .text) := by
  rw [payload, userContents_toValue, words_system, words_of_saysTexts h, List.mapM_map]
  exact List.mapM_pure

theorem linePoints_text (index : Nat) (texts : List String) :
    Value.linePoints index (texts.map .text) = .ok (texts.map Text.CodePoint.ofText) := by
  induction texts generalizing index with
  | nil => rfl
  | cons s rest ih =>
    rw [List.map_cons, Value.linePoints, ih, List.map_cons]
    rfl

theorem joinLines_text (texts : List String) :
    Value.joinLines (texts.map .text) = .ok (Text.CodePoint.ofText ("\n".intercalate texts)) := by
  rw [Value.joinLines, linePoints_text]
  exact congrArg Except.ok (Text.CodePoint.ofText_intercalate '\n' texts).symm

theorem of_contentHash_eq_ok {payload : List Value} {hash : String}
    (h : contentHash payload = .ok hash) : ∃ s, hash = String.ofList (shortDigest s) := by
  rw [contentHash] at h
  split at h
  · cases h
  split at h
  · cases h
  · next cs _ => exact ⟨String.ofList cs, (Except.ok.inj h).symm⟩

theorem contentHash_of_saysTexts {messages : List Message} (h : SaysTexts messages)
    (system : Value) :
    contentHash (payload messages system) =
      .ok (String.ofList (shortDigest (transcript messages))) := by
  rw [contentHash, userContents_of_saysTexts h, Except.bind, joinLines_text, ← transcript]
  simp only [Text.CodePoint.ofText, Text.encodable_ofChars, String.ofList_toList, shortDigest]

theorem of_cacheKey_eq_ok {r : Relay} {messages : List Message} {system : Value} {key : String}
    (htexts : SaysTexts messages) (h : r.cacheKey (payload messages system) = .ok key) :
    ∃ model, r.catalog.model.plain = .ok model ∧
      key = String.ofList ((model ++ ['_']) ++ shortDigest (transcript messages)) := by
  rw [cacheKey, contentHash_of_saysTexts htexts] at h
  cases hmodel : r.catalog.model.plain with
  | error e => simp [hmodel] at h
  | ok model =>
    refine ⟨model, rfl, ?_⟩
    rw [hmodel] at h
    rw [← Except.ok.inj h, String.ofList_append, String.ofList_append]

theorem cacheKey_of_transcript {r r' : Relay} (hmodel : r'.catalog.model = r.catalog.model)
    {messages messages' : List Message} (htexts : SaysTexts messages)
    (htexts' : SaysTexts messages') (h : transcript messages' = transcript messages)
    (system system' : Value) :
    r'.cacheKey (payload messages' system') = r.cacheKey (payload messages system) := by
  simp only [cacheKey, hmodel, contentHash_of_saysTexts htexts, contentHash_of_saysTexts htexts', h]

/-! ## Entries -/

section

variable (r : Relay) (messages : List Message) (system : Value) (files : FileTree) (now : Binary64)
  (place : Place)

def EntryAt : Prop :=
  ∃ cache key, r.cache = some cache ∧ r.cacheKey (payload messages system) = .ok key ∧
    files.locate (cache.path key) = .ok place

/-- Whether a chat ends by storing the reply to its request in the file at a place. -/
structure Deposits (files' : FileTree) : Prop where
  chat : ∃ c retries data, Underway r (payload messages system) c ∧
    c.progress = .asking retries ∧
    r.receive files now (.ok data) c = ({ c with progress := .ended (.ok data) }, files')
  entry : EntryAt r messages system files place
  written : files'.get? place ≠ files.get? place

/-- Whether a chat ends with data from the file at a place.  It finds them before it asks, or they
stand in for the reply to its request. -/
structure Draws (v : Value) : Prop where
  chat : (r.begin files now (payload messages system)).progress = .ended (.ok v) ∨
    ∃ c retries data, Underway r (payload messages system) c ∧ c.progress = .asking retries ∧
      r.receive files now (.ok data) c = ({ c with progress := .ended (.ok v) }, files)
  entry : EntryAt r messages system files place

end

section

variable {r r' : Relay} {messages messages' : List Message} {system system' : Value}
  {files files' files'' : FileTree} {now later : Binary64} {place : Place} {v : Value}

theorem shortDigest_of_entryAt (hmodel : r'.catalog.model = r.catalog.model)
    (htexts : SaysTexts messages) (htexts' : SaysTexts messages')
    (h : EntryAt r messages system files place)
    (h' : EntryAt r' messages' system' files'' place) :
    shortDigest (transcript messages') = shortDigest (transcript messages) := by
  obtain ⟨cache, key, -, hkey, hplace⟩ := h
  obtain ⟨cache', key', -, hkey', hplace'⟩ := h'
  obtain ⟨model, hplain, rfl⟩ := of_cacheKey_eq_ok htexts hkey
  obtain ⟨model', hplain', rfl⟩ := of_cacheKey_eq_ok htexts' hkey'
  rw [hmodel] at hplain'
  obtain rfl := Except.ok.inj (hplain.symm.trans hplain')
  exact ReplyCache.eq_of_locate (slash_notMem_shortDigest _) (slash_notMem_shortDigest _)
    hplace hplace'

/-- Whether the user said something, and nothing of more than one line. -/
def SaysLines (messages : List Message) : Prop :=
  said messages ≠ [] ∧ ∀ s ∈ said messages, '\n' ∉ s.toList

theorem splitOn_transcript (h : SaysLines messages) :
    (transcript messages).toList.splitOn '\n' = (said messages).map String.toList := by
  have hlines : ∀ line ∈ (said messages).map String.toList, '\n' ∉ line := by
    simpa using h.2
  rw [transcript, String.toList_intercalate]
  exact List.splitOn_intercalate '\n' hlines (by simpa using h.1)

/-- **Only what has the same lines is answered from an entry.**  If a chat gets its data from the
entry that another chat with the same model stored, then what the user said is the same text in
both conversations, one line after the other.  So the messages are the same as well, unless one of
them has several lines or there are none. -/
theorem transcript_of_draws (hmodel : r'.catalog.model = r.catalog.model)
    (htexts : SaysTexts messages) (htexts' : SaysTexts messages')
    (hdigest : shortDigest (transcript messages') = shortDigest (transcript messages) →
      transcript messages' = transcript messages)
    (hstored : Deposits r messages system files now place files')
    (hdrawn : Draws r' messages' system' files'' later place v) :
    transcript messages' = transcript messages ∧
      (SaysLines messages → SaysLines messages' → said messages' = said messages) := by
  have hsame := hdigest (shortDigest_of_entryAt hmodel htexts htexts' hstored.entry hdrawn.entry)
  refine ⟨hsame, fun hlines hlines' => ?_⟩
  have hsplit := splitOn_transcript hlines'
  rw [hsame, splitOn_transcript hlines] at hsplit
  exact (List.map_injective_iff.mpr (fun _ _ => String.toList_injective) hsplit).symm

end

/-- Two messages, and one message of two lines: the second conversation gets the reply to the
first one. -/
theorem transcript_of_draws_lines :
    let r := bare "http://one" ""
    let two := [Message.user "a", Message.user "b"]
    let one := [Message.user "a\nb"]
    let first := r.chat (Network.steady (accepted greeting)) ReplyCache.bare.2
      (Binary64.ofInt 1000) two (.text "") []
    r.chat (Network.steady (accepted .null)) first.2.1 (Binary64.ofInt 1060) one (.text "") [] =
        (.ok (.text "Hello"), first.2.1, []) ∧
      transcript one = transcript two ∧ said one ≠ said two := by
  intro r two one first
  have hkey : r.cacheKey (payload two (.text "")) = .ok "llama3-8b_8cdeb444" := by decide +kernel
  have hkey' : r.cacheKey (payload one (.text "")) = .ok "llama3-8b_8cdeb444" := by
    decide +kernel
  have hget : ReplyCache.bare.1.get first.2.1 (Binary64.ofInt 1060) "llama3-8b_8cdeb444" =
      .ok greeting := by decide +kernel
  have hasking : (r.begin ReplyCache.bare.2 (Binary64.ofInt 1000)
      (payload two (.text ""))).progress = .asking 1 :=
    begin_of_null rfl hkey (by decide +kernel)
  have hstored : Deposits r two (.text "") ReplyCache.bare.2 (Binary64.ofInt 1000)
      ["cache", "llama3-8b_8cdeb444.json"] first.2.1 := by
    refine ⟨⟨_, 1, greeting, .begin _ _, hasking, ?_⟩, ⟨_, _, rfl, hkey, ?_⟩, ?_⟩
    · have hfinish : r.finish ReplyCache.bare.2 (Binary64.ofInt 1000)
          (r.begin ReplyCache.bare.2 (Binary64.ofInt 1000) (payload two (.text ""))).key greeting =
          (.ok greeting, first.2.1) := by decide +kernel
      rw [receive_ok hasking, hfinish]
    · decide +kernel
    · decide +kernel
  have hdrawn : Draws r one (.text "") first.2.1 (Binary64.ofInt 1060)
      ["cache", "llama3-8b_8cdeb444.json"] greeting :=
    ⟨.inl (begin_of_found rfl hkey' hget (by decide)), ⟨_, _, rfl, hkey', by decide +kernel⟩⟩
  have htexts : SaysTexts two := by simp [SaysTexts, two, Message.user]
  have htexts' : SaysTexts one := by simp [SaysTexts, one, Message.user]
  have hdigest : shortDigest (transcript one) = shortDigest (transcript two) →
      transcript one = transcript two := fun _ => by decide +kernel
  have hlines := transcript_of_draws rfl htexts htexts' hdigest hstored hdrawn
  exact ⟨chat_of_found rfl hkey' hget (by decide) _ _, hlines.1, by decide +kernel⟩

end Relay

end PromptChain
