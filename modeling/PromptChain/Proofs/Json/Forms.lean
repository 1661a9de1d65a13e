import PromptChain.Json.Reader
import PromptChain.Proofs.Json.Writable
import PromptChain.Proofs.Value.Table
/-!
# Values with a form in JSON

Everything that a text denotes has a form in JSON (`hasForm_of_readText`).  Writing a value with a
form never asks for a substitute, so that it fails for nothing but integers with too many digits
(`compact_told`).
-/

namespace PromptChain

open Text (CodePoint)

/-- The values that JSON has a form for: data without bytes and records, of any size and with any
texts.  Tuples are written as arrays. -/
inductive Value.HasForm : Value → Prop where
  | null : HasForm .null
  | bool (b : Bool) : HasForm (.bool b)
  | int (n : Int) : HasForm (.int n)
  | real (x : Binary64) : HasForm (.real x)
  | text (s : String) : HasForm (.text s)
  | brokenText (points : List CodePoint) : HasForm (.brokenText points)
  | tuple {items : List Value} (hitems : ∀ v ∈ items, HasForm v) : HasForm (.tuple items)
  | list {items : List Value} (hitems : ∀ v ∈ items, HasForm v) : HasForm (.list items)
  | object {fields : List (String × Value)} (hfields : ∀ field ∈ fields, HasForm field.2) :
      HasForm (.object fields)
  | brokenObject (keys : List (List CodePoint)) {items : List Value}
      (hitems : ∀ v ∈ items, HasForm v) : HasForm (.brokenObject keys items)

namespace Entries

variable {α : Type} {p : α → Prop}

theorem forall_put {entries : Entries α} (h : ∀ entry ∈ entries, p entry.2) (key : String)
    {value : α} (hvalue : p value) : ∀ entry ∈ entries.put key value, p entry.2 := by
  induction entries with
  | nil => simpa [put] using hvalue
  | cons first rest ih =>
    obtain ⟨hfirst, hrest⟩ := List.forall_mem_cons.mp h
    rw [put]
    split
    · exact List.forall_mem_cons.mpr ⟨hvalue, hrest⟩
    · exact List.forall_mem_cons.mpr ⟨hfirst, ih hrest⟩

theorem forall_foldl_put {entries : Entries α} (h : ∀ entry ∈ entries, p entry.2)
    {pairs : List (String × α)} (hpairs : ∀ pair ∈ pairs, p pair.2) :
    ∀ entry ∈ pairs.foldl (fun entries pair => Entries.put entries pair.1 pair.2) entries,
      p entry.2 := by
  induction pairs generalizing entries with
  | nil => exact h
  | cons pair rest ih =>
    obtain ⟨hpair, hrest⟩ := List.forall_mem_cons.mp hpairs
    exact ih (forall_put h pair.1 hpair) hrest

theorem forall_ofPairs {pairs : List (String × α)} (h : ∀ pair ∈ pairs, p pair.2) :
    ∀ entry ∈ ofPairs pairs, p entry.2 := forall_foldl_put (by simp) h

end Entries

namespace Json

open Value (HasForm)

/-! ## Writing -/

section

variable {layout : Layout} {foreign other : Substitute}

theorem encodeItems_congr {items : List Value}
    (h : ∀ v ∈ items, ∀ depth, encode layout foreign depth v = encode layout other depth v)
    (depth : Nat) :
    encodeItems layout foreign depth items = encodeItems layout other depth items := by
  induction items with
  | nil => rfl
  | cons v rest ih =>
    obtain ⟨hfirst, hrest⟩ := List.forall_mem_cons.mp h
    rw [encodeItems_cons, encodeItems_cons, hfirst, ih hrest]

theorem encodeFields_congr {fields : List (String × Value)}
    (h : ∀ field ∈ fields, ∀ depth,
      encode layout foreign depth field.2 = encode layout other depth field.2) (depth : Nat) :
    encodeFields layout foreign depth fields = encodeFields layout other depth fields := by
  induction fields with
  | nil => rfl
  | cons field rest ih =>
    obtain ⟨hfirst, hrest⟩ := List.forall_mem_cons.mp h
    rw [encodeFields_cons, encodeFields_cons, hfirst, ih hrest]

theorem encode_congr {v : Value} (h : HasForm v) (depth : Nat) :
    encode layout foreign depth v = encode layout other depth v := by
  induction h generalizing depth with
  | bool b => cases b <;> rfl
  | tuple _ ih => rw [encode, encode, encodeItems_congr ih]
  | list _ ih => rw [encode, encode, encodeItems_congr ih]
  | object _ ih => rw [encode, encode, encodeFields_congr ih]
  | brokenObject keys _ ih => rw [encode, encode, encodeItems_congr ih]
  | _ => simp only [encode]

end

theorem compact_told {v : Value} (h : HasForm v) : Told v.isWritable (compact v) := by
  have hsame : encode .line refuse 0 v = encode .line quoteLiteral 0 v := encode_congr h 0
  rw [compact, hsame]
  exact lenient_told v

/-! ## Reading -/

theorem hasForm_ofPoints (points : List CodePoint) : HasForm (.ofPoints points) := by
  unfold Value.ofPoints
  split
  · exact .text _
  · exact .brokenText points

theorem hasForm_numeralValue {dialect : Dialect} {n : Numeral} {v : Value}
    (h : numeralValue dialect n = .ok v) : HasForm v := by
  unfold numeralValue at h
  split at h
  · cases h
  · split at h <;> cases h
    · exact .int _
    · exact .real _

theorem hasForm_readNumber {dialect : Dialect} {points rest : List CodePoint} {v : Value}
    (h : readNumber dialect points = .ok (v, rest)) : HasForm v := by
  unfold readNumber at h
  dsimp only at h
  split at h
  · cases h
  · split at h
    · cases h
    · next hvalue =>
      cases h
      exact hasForm_numeralValue hvalue

theorem hasForm_readScalar {dialect : Dialect} {points rest : List CodePoint} {v : Value}
    (h : readScalar dialect points = .ok (v, rest)) : HasForm v := by
  unfold readScalar at h
  dsimp only at h
  split at h
  case h_7 => exact hasForm_readNumber h
  all_goals
    split at h
    · cases h
      constructor
    · exact hasForm_readNumber h

theorem forall_wholeFields? {p : Value → Prop} {fields : List (List CodePoint × Value)}
    (h : ∀ field ∈ fields, p field.2) {whole : List (String × Value)}
    (hwhole : wholeFields? fields = some whole) : ∀ field ∈ whole, p field.2 := by
  induction fields generalizing whole with
  | nil =>
    cases hwhole
    simp
  | cons first rest ih =>
    obtain ⟨hfirst, hrest⟩ := List.forall_mem_cons.mp h
    rw [wholeFields?, List.mapM_cons] at hwhole
    simp only [Option.bind_eq_bind, Option.bind_eq_some_iff, Option.map_eq_some_iff] at hwhole
    obtain ⟨entry, ⟨key, -, rfl⟩, more, hmore, heq⟩ := hwhole
    cases heq
    exact List.forall_mem_cons.mpr ⟨hfirst, ih hrest hmore⟩

theorem hasForm_objectOf {dialect : Dialect} {fields : List (List CodePoint × Value)}
    (h : ∀ field ∈ fields, HasForm field.2) : HasForm (objectOf dialect fields) := by
  unfold objectOf
  split
  · next whole hwhole =>
    have hforms := forall_wholeFields? h hwhole
    apply HasForm.object
    split
    · exact hforms
    · exact Entries.forall_ofPairs hforms
  · apply HasForm.brokenObject
    intro v hv
    obtain ⟨pair, hpair, rfl⟩ := List.mem_map.mp hv
    obtain ⟨other, hother, heq⟩ := Table.mem_ofPairs hpair
    obtain ⟨field, hfield, rfl⟩ := List.mem_map.mp hother
    exact heq ▸ h field hfield

structure ReadsForms (dialect : Dialect) (fuel : Nat) : Prop where
  value : ∀ {points rest v}, readValue dialect fuel points = .ok (v, rest) → HasForm v
  items : ∀ {points rest items}, readItems dialect fuel points = .ok (items, rest) →
    ∀ v ∈ items, HasForm v
  fields : ∀ {points rest fields}, readFields dialect fuel points = .ok (fields, rest) →
    ∀ field ∈ fields, HasForm field.2

theorem readsForms (dialect : Dialect) (fuel : Nat) : ReadsForms dialect fuel := by
  induction fuel with
  | zero =>
    refine ⟨?_, ?_, ?_⟩ <;> intro points rest _ h
    · rw [readValue] at h
      cases h
    · rw [readItems] at h
      cases h
    · rw [readFields] at h
      cases h
  | succ fuel ih =>
    refine ⟨?_, ?_, ?_⟩
    · intro points rest v h
      unfold readValue at h
      split at h
      · split at h
        · cases h
        · cases h
          exact hasForm_ofPoints _
      · split at h
        · cases h
          exact .list (by simp)
        · split at h
          · cases h
          · next hitems =>
            cases h
            exact .list (ih.items hitems)
      · split at h
        · cases h
          exact .object (by simp)
        · split at h
          · cases h
          · next hfields =>
            cases h
            exact hasForm_objectOf (ih.fields hfields)
      · exact hasForm_readScalar h
    · intro points rest items h
      unfold readItems at h
      split at h
      · cases h
      next item behind hitem =>
      split at h
      · cases h
        simpa using ih.value hitem
      · split at h
        · cases h
        next more _ hmore =>
        cases h
        exact List.forall_mem_cons.mpr ⟨ih.value hitem, ih.items hmore⟩
      · cases h
    · intro points rest fields h
      unfold readFields at h
      split at h
      · split at h
        · cases h
        split at h
        · split at h
          · cases h
          next item behind hitem =>
          split at h
          · cases h
            simpa using ih.value hitem
          · split at h
            · cases h
            next hmore =>
            cases h
            exact List.forall_mem_cons.mpr ⟨ih.value hitem, ih.fields hmore⟩
          · cases h
        · cases h
      · cases h

/-- Everything that a text denotes has a form. -/
theorem hasForm_readText {points : List CodePoint} {v : Value} (h : readText points = .ok v) :
    HasForm v := by
  unfold readText at h
  split at h
  · cases h
  unfold readPoints readDocument at h
  split at h
  · cases h
  next hdocument =>
  split at hdocument
  · cases hdocument
  next hvalue =>
  split at hdocument <;> cases hdocument
  cases h
  exact (readsForms _ _).value hvalue

end Json

end PromptChain
