import PromptChain.Proofs.Cache.Keys
/-!
# Damaged entries

What a file is worth to a cache that has something else in it than an entry.  It counts as missing,
and is replaced when the value of its key is computed, unless it has JSON of a wrong kind: something
that is no object, or an expiry that is no number.  Then the key can neither be looked up nor
remembered (`get_eq_error_iff`).
-/

namespace PromptChain

namespace ReplyCache

/-- What is wrong with data that are no entry. -/
inductive Misfit (data : Value) : Fault → Prop
  | notObject (hdata : data.entries? = none) : Misfit data (.noMember data.kind "get")
  | expiry (hdata : data.entries?.isSome) (hlimited : expiryIn data ≠ .null)
      (hnumber : (expiryIn data).quantity? = none) :
      Misfit data (.notOrdered ">" "float" (expiryIn data).kind)

/-- Whether data are an entry with a value that has not expired. -/
structure Current (now : Binary64) (data v : Value) : Prop where
  object : data.entries?.isSome
  value : valueIn data = v
  time : expiryIn data = .null ∨ ∃ q, (expiryIn data).quantity? = some q ∧ q.isBefore now = false

/-! ## Data -/

section

variable {data : Value} {now : Binary64}

theorem isLater_eq_error_iff {expiry : Value} {e : Fault} :
    isLater now expiry = .error e ↔
      expiry.quantity? = none ∧ e = .notOrdered ">" "float" expiry.kind := by
  unfold isLater
  cases expiry.quantity? <;> simp [Value.kind, eq_comm]

theorem isLater_eq_ok_iff {expiry : Value} {expired : Bool} :
    isLater now expiry = .ok expired ↔
      ∃ q, expiry.quantity? = some q ∧ q.isBefore now = expired := by
  unfold isLater
  cases expiry.quantity? <;> simp

theorem entryValue_of_limited {fields : Entries Value} (h : data.entries? = some fields)
    (hlimited : expiryIn data ≠ .null) :
    entryValue now data =
      (isLater now (expiryIn data)).map fun expired => if expired then .null else valueIn data := by
  rw [entryValue_eq h]
  split
  · next heq => exact absurd heq hlimited
  · rfl

theorem misfit_iff_of_object {fields : Entries Value} (h : data.entries? = some fields)
    {e : Fault} :
    Misfit data e ↔ expiryIn data ≠ .null ∧ isLater now (expiryIn data) = .error e := by
  rw [isLater_eq_error_iff]
  constructor
  · intro hmisfit
    cases hmisfit with
    | notObject hdata => simp [h] at hdata
    | expiry _ hlimited hnumber => exact ⟨hlimited, hnumber, rfl⟩
  · rintro ⟨hlimited, hnumber, rfl⟩
    exact .expiry (by simp [h]) hlimited hnumber

theorem entryValue_eq_error_iff {e : Fault} : entryValue now data = .error e ↔ Misfit data e := by
  cases hfields : data.entries? with
  | none =>
    have hvalue : entryValue now data = .error (.noMember data.kind "get") := by
      simp only [entryValue, hfields]
    rw [hvalue]
    constructor
    · intro h
      exact Except.error.inj h ▸ .notObject hfields
    · intro h
      cases h with
      | notObject => rfl
      | expiry hdata => simp [hfields] at hdata
  | some fields =>
    rw [misfit_iff_of_object hfields]
    by_cases hlimited : expiryIn data = .null
    · simp [entryValue_eq hfields, hlimited]
    · rw [entryValue_of_limited hfields hlimited]
      cases isLater now (expiryIn data) <;> simp [Except.map, hlimited]

theorem entryValue_eq_ok_iff {v : Value} (hv : v ≠ .null) :
    entryValue now data = .ok v ↔ Current now data v := by
  constructor
  · intro h
    obtain ⟨fields, hfields, hvalue⟩ := of_entryValue_eq_ok h hv
    refine ⟨by simp [hfields], hvalue, ?_⟩
    by_cases hlimited : expiryIn data = .null
    · exact .inl hlimited
    · rw [entryValue_of_limited hfields hlimited] at h
      obtain ⟨expired, hlater, hcase⟩ := map_eq_ok_iff.mp h
      cases expired with
      | true => exact absurd hcase.symm hv
      | false => exact .inr (isLater_eq_ok_iff.mp hlater)
  · rintro ⟨hobject, rfl, htime⟩
    obtain ⟨fields, hfields⟩ := Option.isSome_iff_exists.mp hobject
    by_cases hlimited : expiryIn data = .null
    · rw [entryValue_eq hfields, hlimited]
    · rw [entryValue_of_limited hfields hlimited,
        isLater_eq_ok_iff.mpr (htime.resolve_left hlimited)]
      rfl

end

/-! ## Files -/

section

variable {cache : ReplyCache} {files files' : FileTree} {now : Binary64} {key : String}
  {content : List UInt8}

theorem Contains.of_untouched (h : cache.Contains files key content)
    (huntouched : cache.Untouched key files files') : cache.Contains files' key content :=
  ⟨h.noNul, huntouched.read.trans h.read⟩

theorem Contains.exists_set (h : cache.Contains files key content) {v ttl : Value}
    {renewed : List UInt8} (hrenewed : encode now v ttl = .ok renewed) :
    ∃ files', cache.set files now key v ttl = .ok files' ∧ cache.Contains files' key renewed := by
  obtain ⟨files', hwrite⟩ := FileTree.exists_write h.read renewed
  refine ⟨files', ?_, h.noNul, FileTree.read_of_write hwrite⟩
  simp only [set, hrenewed, h.noNul, hwrite, Except.mapError, Bool.false_eq_true, if_false]

/-- **A key cannot be looked up if and only if its file has JSON of a wrong kind.** -/
theorem Contains.get_eq_error_iff (h : cache.Contains files key content) {e : Fault} :
    cache.get files now key = .error e ↔ ∃ data, decode? content = some data ∧ Misfit data e := by
  rw [h.get_eq]
  cases decode? content <;> simp [entryValue_eq_error_iff]

/-- **A value is found if and only if it is in an entry that has not expired.** -/
theorem Contains.get_eq_ok_iff (h : cache.Contains files key content) {v : Value}
    (hv : v ≠ .null) :
    cache.get files now key = .ok v ↔
      ∃ data, decode? content = some data ∧ Current now data v := by
  rw [h.get_eq]
  cases decode? content <;> simp [entryValue_eq_ok_iff hv, hv.symm]

end

theorem remember_of_error {ε : Type} {cache : ReplyCache} {world : Surroundings ε} {key : String}
    {env : ε} {e : Fault} (h : cache.get (world.files env) (world.now env) key = .error e)
    (ttl : Value) (compute : ε → Except Fault Value × ε) :
    cache.remember world key ttl compute env = (.error e, env) := by
  simp only [remember, h]

/-- **What is damaged counts as missing, unless it is JSON of a wrong kind.**  Whatever is in the
file of a key, a value is found only in an entry that has not expired.  JSON that is no object or
has an expiry that is no number is an error to whoever looks for the key, and is neither computed
anew nor replaced; everything else that is no value is replaced by what is computed. -/
theorem missing_unless_misfit {ε : Type} {cache : ReplyCache} {world : Surroundings ε}
    {key : String} {env : ε} {content : List UInt8}
    (h : cache.Contains (world.files env) key content) :
    (∀ now e, cache.get (world.files env) now key = .error e ↔
      ∃ data, decode? content = some data ∧ Misfit data e) ∧
    (∀ now v, v ≠ .null → (cache.get (world.files env) now key = .ok v ↔
      ∃ data, decode? content = some data ∧ Current now data v)) ∧
    (∀ data e ttl compute, decode? content = some data → Misfit data e →
      cache.remember world key ttl compute env = (.error e, env)) ∧
    ∀ ttl compute v env₁ renewed,
      cache.get (world.files env) (world.now env) key = .ok .null →
      compute env = (.ok v, env₁) → cache.Untouched key (world.files env) (world.files env₁) →
      ((world.now env).less (world.now env₁) || (world.now env).same (world.now env₁)) →
      encode (world.now env₁) v ttl = .ok renewed →
      ∃ files', cache.remember world key ttl compute env = (.ok v, world.withFiles files' env₁) ∧
        cache.Contains files' key renewed := by
  refine ⟨fun now e => h.get_eq_error_iff, fun now v hv => h.get_eq_ok_iff hv,
    fun data e ttl compute hdata hmisfit => ?_,
    fun ttl compute v env₁ renewed hmissing hcompute huntouched hlater hrenewed => ?_⟩
  · exact remember_of_error (h.get_eq_error_iff.mpr ⟨data, hdata, hmisfit⟩) ttl compute
  · have hstill : cache.get (world.files env₁) (world.now env₁) key = .ok .null :=
      (huntouched.get_eq _).trans (get_null_later hlater hmissing)
    obtain ⟨files', hset, hcontains⟩ := (h.of_untouched huntouched).exists_set hrenewed
    refine ⟨files', ?_, hcontains⟩
    rw [remember_of_missing hmissing hcompute hstill, hset]

/-- The files of the cache `bare` with a text in the file of the key `k`. -/
def bareWith (text : String) : FileTree :=
  bare.2.put ["cache", "k.json"] (.file text.toUTF8.toList)

def worldAt (now : Binary64) : Surroundings FileTree := ⟨id, fun files _ => files, fun _ => now⟩

theorem contains_bareWith (text : String) :
    bare.1.Contains (bareWith text) "k" text.toUTF8.toList := ⟨by decide, rfl⟩

/-- A list and an entry that expires on a text are errors, while a text that breaks off is replaced
by the value that is computed. -/
theorem missing_unless_misfit_bare :
    let now := Binary64.ofInt 1000
    let compute : FileTree → Except Fault Value × FileTree := fun files => (.ok (.text "v"), files)
    let kept := bareWith "\x7b\"value\": 1, \"expiry\": \"soon\"\x7d"
    bare.1.get (bareWith "[1]") now "k" = .error (.noMember "list" "get") ∧
    bare.1.remember (worldAt now) "k" (.int 60) compute (bareWith "[1]") =
      (.error (.noMember "list" "get"), bareWith "[1]") ∧
    bare.1.get kept now "k" = .error (.notOrdered ">" "float" "str") ∧
    ∃ files', bare.1.remember (worldAt now) "k" (.int 60) compute (bareWith "\x7b\"value\": ") =
        (.ok (.text "v"), files') ∧
      bare.1.Contains files' "k"
        "\x7b\"value\": \"v\", \"expiry\": 1060.0\x7d".toUTF8.toList := by
  intro now compute kept
  have hlist : decode? "[1]".toUTF8.toList = some (.list [.int 1]) := by decide +kernel
  have htext : decode? "\x7b\"value\": 1, \"expiry\": \"soon\"\x7d".toUTF8.toList =
      some (entry (.int 1) (.text "soon")) := by decide +kernel
  have hmisfit : Misfit (.list [.int 1]) (.noMember "list" "get") := .notObject rfl
  have hsoon : Misfit (entry (.int 1) (.text "soon")) (.notOrdered ">" "float" "str") :=
    .expiry rfl (by decide) rfl
  have hcontains : ∀ text, bare.1.Contains ((worldAt now).files (bareWith text)) "k"
      text.toUTF8.toList := contains_bareWith
  obtain ⟨hget, -, hremember, -⟩ := missing_unless_misfit (hcontains "[1]")
  obtain ⟨hgetSoon, -⟩ := missing_unless_misfit
    (hcontains "\x7b\"value\": 1, \"expiry\": \"soon\"\x7d")
  obtain ⟨-, -, -, hreplace⟩ := missing_unless_misfit (hcontains "\x7b\"value\": ")
  refine ⟨(hget now _).mpr ⟨_, hlist, hmisfit⟩, hremember _ _ _ _ hlist hmisfit,
    (hgetSoon now _).mpr ⟨_, htext, hsoon⟩, ?_⟩
  exact hreplace (.int 60) compute (.text "v") _ _ (by decide +kernel) rfl (.refl _ _ _)
    (by decide +kernel) (by decide +kernel)

end ReplyCache

end PromptChain
