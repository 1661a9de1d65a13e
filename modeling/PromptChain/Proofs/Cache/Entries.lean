import PromptChain.Proofs.Cache.Files
import PromptChain.Proofs.Json.Data
import PromptChain.ReplyCache
/-!
# The entries of a cache

What a cache finds for a key right after a value was stored for it: the value, as long as the clock
is not beyond the expiry (`get_of_set`).  It finds the value that was stored, and not just one like
it, since data are read back from JSON as they were.  Whoever wrote the entry of a key, its value is
found as long as it counts (`Stores.get_eq`).
-/

namespace PromptChain

/-! ## Times -/

theorem Quantity.isBefore_mono {now later : Binary64}
    (hlater : now.less later || now.same later) (q : Quantity) (h : q.isBefore now = true) :
    q.isBefore later = true := by
  cases q with
  | whole n =>
    cases now <;> cases later <;>
      simp_all [Quantity.isBefore, Binary64.intLess, Binary64.less, Binary64.same]
    omega
  | real x =>
    cases x <;> cases now <;> cases later <;>
      simp_all [Quantity.isBefore, Binary64.less, Binary64.same]
    omega

/-! ## Files of JSON -/

theorem toList_loop_eq (bytes : ByteArray) (i : Nat) (done : List UInt8) :
    ByteArray.toList.loop bytes i done = done.reverse ++ bytes.data.toList.drop i := by
  induction i, done using ByteArray.toList.loop.induct bytes with
  | case1 i done hlt ih =>
    have hi : i < bytes.data.toList.length := by simpa using hlt
    have hget : bytes.get! i = bytes.data.toList[i] := by
      rw [Array.getElem_toList]
      exact getElem!_pos bytes.data i (by simpa using hlt)
    rw [ByteArray.toList.loop, if_pos hlt, ih, List.drop_eq_getElem_cons hi, hget]
    simp
  | case2 i done hge =>
    have hlength : bytes.data.toList.length ≤ i := by simpa using hge
    rw [ByteArray.toList.loop, if_neg hge, List.drop_eq_nil_of_le hlength, List.append_nil]

theorem toList_eq (bytes : ByteArray) : bytes.toList = bytes.data.toList := by
  rw [ByteArray.toList, toList_loop_eq, List.reverse_nil, List.nil_append, List.drop_zero]

namespace ReplyCache

theorem decode?_toUTF8 {s : String} {v : Value} (h : Json.read s = .ok v) :
    decode? s.toUTF8.toList = some v := by
  have hbytes : ByteArray.mk s.toUTF8.toList.toArray = s.toUTF8 := by
    rw [toList_eq, Array.toArray_toList]
  have htext : String.fromUTF8? s.toUTF8 = some s := by
    rw [String.fromUTF8?]
    exact dif_pos s.isValidUTF8
  simp only [decode?, hbytes, htext, h]

/-! ## Expiry -/

inductive IsLimit : Value → Prop where
  | never : IsLimit .null
  | at (x : Binary64) : IsLimit (.real x)

theorem IsLimit.data {limit : Value} (h : IsLimit limit) : Json.Data limit := by
  cases h with
  | never => exact .null
  | «at» x => exact .real x

theorem isLimit_expiry {now : Binary64} {ttl limit : Value} (h : expiry now ttl = .ok limit) :
    IsLimit limit := by
  unfold expiry at h
  split at h
  · obtain rfl := Except.ok.inj h
    exact .never
  · split at h
    · obtain ⟨x, -, rfl⟩ := map_eq_ok_iff.mp h
      exact .at x
    · cases h

/-- Whether an entry that expires at a time still counts now. -/
def lasts (limit : Value) (now : Binary64) : Bool :=
  match limit with
  | .real x => !x.less now
  | _ => true

theorem data_entry {v limit : Value} (hv : Json.Data v) (hlimit : IsLimit limit) :
    Json.Data (entry v limit) := by
  refine .object (fun field hfield => ?_) (by simp)
  rcases List.mem_pair.mp hfield with rfl | rfl
  · exact hv
  · exact hlimit.data

theorem entryValue_entry {limit : Value} (hlimit : IsLimit limit) (v : Value) (now : Binary64) :
    entryValue now (entry v limit) = .ok (if lasts limit now then v else .null) := by
  cases hlimit with
  | never => rfl
  | «at» x =>
    cases hless : x.less now <;>
      simp [entry, entryValue, Value.entries?, Entries.get?, isLater, Value.quantity?,
        Quantity.isBefore, Except.map, lasts, hless]

/-! ## Writing and reading -/

section

variable {now : Binary64} {v ttl : Value} {content : List UInt8}

theorem of_encode_eq_ok (h : encode now v ttl = .ok content) :
    ∃ limit s, expiry now ttl = .ok limit ∧ Json.compact (entry v limit) = .ok s ∧
      content = s.toUTF8.toList := by
  rw [encode] at h
  split at h
  · cases h
  next limit hlimit =>
  obtain ⟨s, hs, rfl⟩ := map_eq_ok_iff.mp h
  exact ⟨limit, s, hlimit, hs, rfl⟩

theorem decode?_of_encode (hv : Json.Data v) (h : encode now v ttl = .ok content) {limit : Value}
    (hlimit : expiry now ttl = .ok limit) : decode? content = some (entry v limit) := by
  obtain ⟨_, s, hlimit', hs, rfl⟩ := of_encode_eq_ok h
  obtain rfl := Except.ok.inj (hlimit'.symm.trans hlimit)
  exact decode?_toUTF8 (Json.read_compact (data_entry hv (isLimit_expiry hlimit)) hs)

end

section

variable {cache : ReplyCache} {files files' : FileTree} {now : Binary64} {key : String}
  {v ttl : Value}

structure Untouched (cache : ReplyCache) (key : String) (files files' : FileTree) : Prop where
  contains : files'.contains (cache.path key) = files.contains (cache.path key)
  read : files'.read (cache.path key) = files.read (cache.path key)

theorem Untouched.refl (cache : ReplyCache) (key : String) (files : FileTree) :
    cache.Untouched key files files := ⟨rfl, rfl⟩

theorem Untouched.trans {files'' : FileTree} (h : cache.Untouched key files files')
    (h' : cache.Untouched key files' files'') : cache.Untouched key files files'' where
  contains := h'.contains.trans h.contains
  read := h'.read.trans h.read

theorem Untouched.get_eq (h : cache.Untouched key files files') (now : Binary64) :
    cache.get files' now key = cache.get files now key := by
  simp only [get, load?, h.contains, h.read]

structure Contains (cache : ReplyCache) (files : FileTree) (key : String) (content : List UInt8) :
    Prop where
  noNul : (cache.path key).hasNul = false
  read : files.read (cache.path key) = .ok content

theorem Contains.get_eq {content : List UInt8} (h : cache.Contains files key content)
    (now : Binary64) :
    cache.get files now key =
      match decode? content with
      | none => .ok .null
      | some data => entryValue now data := by
  have hload : load? files (cache.path key) = decode? content := by simp only [load?, h.read]
  cases hdata : decode? content <;>
    simp only [get, h.noNul, FileTree.contains_of_read h.read, hload, hdata, Bool.false_eq_true,
      if_false]

theorem of_set_eq_ok (h : cache.set files now key v ttl = .ok files') :
    ∃ content, encode now v ttl = .ok content ∧ (cache.path key).hasNul = false ∧
      files.write (cache.path key) content = .ok files' := by
  rw [set] at h
  split at h
  · cases h
  next content hcontent =>
  split at h
  · cases h
  next hnul =>
  refine ⟨content, hcontent, by simpa using hnul, ?_⟩
  cases hwrite : files.write (cache.path key) content with
  | error e => simp [hwrite, Except.mapError] at h
  | ok written => simpa [hwrite, Except.mapError] using h

theorem exists_expiry_of_set (h : cache.set files now key v ttl = .ok files') :
    ∃ limit, expiry now ttl = .ok limit := by
  obtain ⟨content, hcontent, -⟩ := of_set_eq_ok h
  obtain ⟨limit, -, hlimit, -⟩ := of_encode_eq_ok hcontent
  exact ⟨limit, hlimit⟩

theorem contains_of_set (h : cache.set files now key v ttl = .ok files') :
    ∃ content, encode now v ttl = .ok content ∧ cache.Contains files' key content := by
  obtain ⟨content, hcontent, hnul, hwrite⟩ := of_set_eq_ok h
  exact ⟨content, hcontent, hnul, FileTree.read_of_write hwrite⟩

theorem load?_of_set (hv : Json.Data v) (h : cache.set files now key v ttl = .ok files')
    {limit : Value} (hlimit : expiry now ttl = .ok limit) :
    load? files' (cache.path key) = some (entry v limit) := by
  obtain ⟨content, hcontent, hcontains⟩ := contains_of_set h
  rw [load?, hcontains.read]
  exact decode?_of_encode hv hcontent hlimit

/-- **What was stored for a key is found**, until it expires. -/
theorem get_of_set (hv : Json.Data v) (h : cache.set files now key v ttl = .ok files')
    {limit : Value} (hlimit : expiry now ttl = .ok limit) (later : Binary64) :
    cache.get files' later key = .ok (if lasts limit later then v else .null) := by
  obtain ⟨content, hcontent, hcontains⟩ := contains_of_set h
  rw [hcontains.get_eq, decode?_of_encode hv hcontent hlimit]
  exact entryValue_entry (isLimit_expiry hlimit) v later

/-! ## Ends of computations -/

theorem complete_of_null (h : cache.get files now key = .ok .null) :
    cache.complete files now key v ttl =
      (cache.set files now key v ttl).map fun files => (v, files) := by
  simp only [complete, h]

theorem complete_of_stored {w : Value} (h : cache.get files now key = .ok w) (hw : w ≠ .null) :
    cache.complete files now key v ttl = .ok (w, files) := by
  unfold complete
  split
  · next heq => cases h.symm.trans heq
  · next heq => exact absurd (Except.ok.inj (h.symm.trans heq)) hw
  · next heq => rw [Except.ok.inj (heq.symm.trans h)]

theorem complete_of_error {e : Fault} (h : cache.get files now key = .error e) :
    cache.complete files now key v ttl = .error e := by
  simp only [complete, h]

theorem remember_of_missing {ε : Type} {world : Surroundings ε}
    {compute : ε → Except Fault Value × ε} {env env₁ : ε}
    (h : cache.get (world.files env) (world.now env) key = .ok .null)
    (hcompute : compute env = (.ok v, env₁))
    (hstill : cache.get (world.files env₁) (world.now env₁) key = .ok .null) :
    cache.remember world key ttl compute env =
      match cache.set (world.files env₁) (world.now env₁) key v ttl with
      | .error e => (.error e, env₁)
      | .ok files => (.ok v, world.withFiles files env₁) := by
  simp only [remember, h, hcompute, complete_of_null hstill]
  cases cache.set (world.files env₁) (world.now env₁) key v ttl <;> rfl

end

/-! ## Entries that count -/

/-- The value of an entry, whether it counts or not. -/
def valueIn (data : Value) : Value := (Entries.get? data.fields "value").getD .null

def expiryIn (data : Value) : Value := (Entries.get? data.fields "expiry").getD .null

def counts (now : Binary64) (data : Value) : Bool :=
  match expiryIn data with
  | .null => true
  | expiry =>
    match isLater now expiry with
    | .ok expired => !expired
    | .error _ => false

theorem entryValue_eq {data : Value} {fields : Entries Value} (h : data.entries? = some fields)
    (now : Binary64) :
    entryValue now data =
      match expiryIn data with
      | .null => .ok (valueIn data)
      | expiry =>
        (isLater now expiry).map fun expired => if expired then .null else valueIn data := by
  cases hexpiry : (Entries.get? fields "expiry").getD .null <;>
    simp only [entryValue, h, expiryIn, valueIn, Value.fields, Option.getD_some, hexpiry]

theorem entryValue_of_counts {data : Value} {fields : Entries Value}
    (h : data.entries? = some fields) {now : Binary64} (hcounts : counts now data = true) :
    entryValue now data = .ok (valueIn data) := by
  rw [entryValue_eq h]
  unfold counts at hcounts
  split
  · rfl
  · next hnull =>
    split at hcounts
    · next heq => exact absurd heq hnull
    · split at hcounts
      · next expired hlater => simp_all [Except.map]
      · cases hcounts

theorem of_entryValue_eq_ok {data v : Value} {now : Binary64} (h : entryValue now data = .ok v)
    (hv : v ≠ .null) : ∃ fields, data.entries? = some fields ∧ valueIn data = v := by
  cases hfields : data.entries? with
  | none => simp [entryValue, hfields] at h
  | some fields =>
    refine ⟨fields, rfl, ?_⟩
    rw [entryValue_eq hfields] at h
    split at h
    · exact Except.ok.inj h
    · obtain ⟨expired, -, hvalue⟩ := map_eq_ok_iff.mp h
      cases expired with
      | true => exact absurd hvalue.symm hv
      | false => exact hvalue

/-- Time does not bring back what expired. -/
theorem isLater_mono {now later : Binary64} (hlater : now.less later || now.same later)
    {expiry : Value} (h : isLater now expiry = .ok true) : isLater later expiry = .ok true := by
  unfold isLater at h ⊢
  cases hexpiry : expiry.quantity? with
  | none => simp [hexpiry] at h
  | some q => simpa using q.isBefore_mono hlater (by simpa [hexpiry] using h)

theorem entryValue_null_later {data : Value} {now later : Binary64}
    (hlater : now.less later || now.same later) (h : entryValue now data = .ok .null) :
    entryValue later data = .ok .null := by
  cases hfields : data.entries? with
  | none => simp [entryValue, hfields] at h
  | some fields =>
    rw [entryValue_eq hfields] at h ⊢
    split at h
    · exact h
    · obtain ⟨expired, hexpired, hvalue⟩ := map_eq_ok_iff.mp h
      cases expired with
      | true => simp only [isLater_mono hlater hexpired, Except.map, if_true]
      | false =>
        have hnull : valueIn data = .null := hvalue
        cases hthen : isLater later (expiryIn data) with
        | error e => simp [isLater] at hexpired hthen; split at hexpired <;> simp_all
        | ok expired => simp [Except.map, hnull]

section

variable {cache : ReplyCache} {files files' : FileTree} {now later : Binary64} {key : String}
  {v ttl : Value}

def fresh (cache : ReplyCache) (files : FileTree) (now : Binary64) (key : String) : Bool :=
  (load? files (cache.path key)).any (counts now)

/-- Whether the file of a key has an entry with a value, whether it counts or not. -/
structure Stores (cache : ReplyCache) (files : FileTree) (key : String) (v : Value) : Prop where
  noNul : (cache.path key).hasNul = false
  contains : files.contains (cache.path key) = .ok true
  entry : ∃ data fields, load? files (cache.path key) = some data ∧
    data.entries? = some fields ∧ valueIn data = v

theorem Stores.of_untouched (h : cache.Stores files key v)
    (hfiles : cache.Untouched key files files') : cache.Stores files' key v where
  noNul := h.noNul
  contains := hfiles.contains.trans h.contains
  entry := by
    obtain ⟨data, fields, hload, hdata⟩ := h.entry
    exact ⟨data, fields, by simpa only [load?, hfiles.read] using hload, hdata⟩

theorem stores_of_get (h : cache.get files now key = .ok v) (hv : v ≠ .null) :
    cache.Stores files key v := by
  have hne : (.ok .null : Except Fault Value) ≠ .ok v := fun heq => hv (Except.ok.inj heq).symm
  simp only [get] at h
  split at h
  · exact absurd h hne
  next hnul =>
  split at h
  · cases h
  · exact absurd h hne
  next hcontains =>
  split at h
  · exact absurd h hne
  next data hload =>
  obtain ⟨fields, hfields, hvalue⟩ := of_entryValue_eq_ok h hv
  exact ⟨by simpa using hnul, hcontains, data, fields, hload, hfields, hvalue⟩

theorem stores_of_set (hv : Json.Data v) (h : cache.set files now key v ttl = .ok files') :
    cache.Stores files' key v := by
  obtain ⟨limit, hlimit⟩ := exists_expiry_of_set h
  obtain ⟨content, hcontent, hnul, hwrite⟩ := of_set_eq_ok h
  exact ⟨hnul, FileTree.contains_of_write hwrite, _, _, load?_of_set hv h hlimit, rfl, rfl⟩

/-- **What is in the file of a key is found as long as it counts.** -/
theorem Stores.get_eq (h : cache.Stores files key v)
    (hfresh : cache.fresh files now key = true) : cache.get files now key = .ok v := by
  obtain ⟨data, fields, hload, hfields, rfl⟩ := h.entry
  have hcounts : counts now data = true := by simpa [fresh, hload] using hfresh
  simp only [get, h.noNul, h.contains, hload, Bool.false_eq_true, if_false,
    entryValue_of_counts hfields hcounts]

theorem get_null_later (hlater : now.less later || now.same later)
    (h : cache.get files now key = .ok .null) : cache.get files later key = .ok .null := by
  simp only [get] at h ⊢
  split at h
  · next hnul => rw [if_pos hnul]
  next hnul =>
  rw [if_neg hnul]
  split at h
  · cases h
  · rfl
  · split at h
    · rfl
    · exact entryValue_null_later hlater h

end

end ReplyCache

end PromptChain
