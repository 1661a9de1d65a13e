import PromptChain.Proofs.Json.Data
/-!
# What texts are read as

Whatever is written as JSON is read as something (`exists_denotes`), also where a distinction gets
lost on the way: a tuple is read as a list, two halves of a pair as one character, and of several
fields under one key the last one counts.  But nothing is read as null except for null.
-/

namespace PromptChain.Json

open Text (CodePoint charOfPair)

/-! ## Pairs -/

theorem stringChar_of_large {c : Char} (h : 0x10000 ≤ c.toNat) :
    stringChar c = unitEscape (0xd800 + (c.toNat - 0x10000) / 0x400) ++
      unitEscape (0xdc00 + (c.toNat - 0x10000) % 0x400) := by
  have hne : ∀ d : Char, d.toNat < 0x10000 → c ≠ d := by
    rintro d hd rfl
    omega
  have hascii : ¬(32 ≤ c.toNat ∧ c.toNat < 127) := by omega
  simp [stringChar, hne '"' (by decide), hne '\\' (by decide), hne '\n' (by decide),
    hne '\r' (by decide), hne '\t' (by decide), hne '\x08' (by decide), hne '\x0c' (by decide),
    hascii, Nat.not_lt.mpr h]

theorem stringPoint_pair {high low : Fin 0x800} (hhigh : isHigh (.surrogate high) = true)
    (hlow : isLow (.surrogate low) = true) :
    stringPoint (.surrogate high) ++ stringPoint (.surrogate low) =
      stringPoint (.char (charOfPair (CodePoint.unitOf high) (CodePoint.unitOf low))) := by
  simp only [isHigh, Text.isHighSurrogate, Bool.and_eq_true, decide_eq_true_eq] at hhigh
  simp only [isLow, Text.isLowSurrogate, Bool.and_eq_true, decide_eq_true_eq] at hlow
  simp only [stringPoint]
  generalize CodePoint.unitOf high = h at hhigh ⊢
  generalize CodePoint.unitOf low = l at hlow ⊢
  have hnumber : (charOfPair h l).toNat = 0x10000 + (h - 0xd800) * 0x400 + (l - 0xdc00) := by
    rw [charOfPair, Char.ofNat, dif_pos (.inr ⟨by omega, by omega⟩)]
    rfl
  have hfirst : 0xd800 + ((charOfPair h l).toNat - 0x10000) / 0x400 = h := by omega
  have hsecond : 0xdc00 + ((charOfPair h l).toNat - 0x10000) % 0x400 = l := by omega
  rw [stringChar_of_large (by omega), hfirst, hsecond]

theorem unpaired_cons {p : CodePoint} {rest : List CodePoint} (h : Unpaired rest)
    (hp : ∀ q ∈ rest.head?, isHigh p = true → isLow q = false) : Unpaired (p :: rest) :=
  List.isChain_cons.mpr ⟨hp, h⟩

/-- Whatever stands in a text, it is written as a text in which no halves stand side by side. -/
theorem exists_unpaired (points : List CodePoint) :
    ∃ whole, Unpaired whole ∧ whole.flatMap stringPoint = points.flatMap stringPoint := by
  induction points with
  | nil => exact ⟨[], by simp [Unpaired], rfl⟩
  | cons p rest ih =>
    obtain ⟨whole, hwhole, htext⟩ := ih
    rw [List.flatMap_cons, ← htext]
    by_cases hpair : ∃ q more, whole = q :: more ∧ isHigh p = true ∧ isLow q = true
    · obtain ⟨q, more, rfl, hhigh, hlow⟩ := hpair
      rcases p with c | high
      · simp [isHigh] at hhigh
      rcases q with c | low
      · simp [isLow] at hlow
      -- The halves become one character, behind which anything may stand.
      refine ⟨.char (charOfPair (CodePoint.unitOf high) (CodePoint.unitOf low)) :: more,
        unpaired_cons (List.IsChain.tail hwhole) fun _ _ h => ?_, ?_⟩
      · simp [isHigh] at h
      · rw [List.flatMap_cons, List.flatMap_cons, ← List.append_assoc, stringPoint_pair hhigh hlow]
    · refine ⟨p :: whole, unpaired_cons hwhole fun q hq hhigh => ?_, by rw [List.flatMap_cons]⟩
      obtain ⟨more, rfl⟩ := List.head?_eq_some_iff.mp hq
      exact Bool.eq_false_iff.mpr fun hlow => hpair ⟨q, more, rfl, hhigh, hlow⟩

theorem exists_unpaired_keys (keys : List (List CodePoint)) :
    ∃ whole : List (List CodePoint),
      (∀ key ∈ whole, Unpaired key) ∧ whole.map pointString = keys.map pointString := by
  induction keys with
  | nil => exact ⟨[], by simp, rfl⟩
  | cons key rest ih =>
    obtain ⟨whole, hwhole, htexts⟩ := ih
    obtain ⟨first, hfirst, htext⟩ := exists_unpaired key
    refine ⟨first :: whole, List.forall_mem_cons.mpr ⟨hfirst, hwhole⟩, ?_⟩
    rw [List.map_cons, List.map_cons, htexts, pointString, htext, ← pointString]

/-! ## Values -/

theorem ofPoints_ne_null (points : List CodePoint) : Value.ofPoints points ≠ .null := by
  unfold Value.ofPoints
  split <;> simp

theorem objectOf_ne_null (fields : List (List CodePoint × Value)) :
    objectOf .plain fields ≠ .null := by
  unfold objectOf
  split <;> simp

/-- Whether a text is read as something, which is null only for null. -/
def Readable (cs : List Char) (v : Value) : Prop := ∃ w, Denotes cs w ∧ (w = .null → v = .null)

theorem Readable.of_ne {cs : List Char} {v w : Value} (h : Denotes cs w) (hw : w ≠ .null) :
    Readable cs v := ⟨w, h, fun hnull => absurd hnull hw⟩

theorem Readable.of_data {cs : List Char} {v : Value} (h : Data v) {layout : Layout} {depth : Nat}
    (hcs : encode layout refuse depth v = .ok cs) : Readable cs v :=
  ⟨v, h.decodes depth cs hcs, id⟩

mutual

/-- **Whatever is written is read as something.** -/
theorem exists_denotes {layout : Layout} {depth : Nat} {v : Value} {cs : List Char}
    (h : encode layout refuse depth v = .ok cs) : Readable cs v := by
  cases v with
  | null => exact .of_data .null h
  | bool b => exact .of_data (.bool b) h
  | int n => exact .of_data (.int n) h
  | real x => exact .of_data (.real x) h
  | text s => exact .of_data (.text s) h
  | brokenText points =>
    rw [encode] at h
    obtain ⟨whole, hwhole, htext⟩ := exists_unpaired points
    have hdenotes := denotes_pointString hwhole
    rw [pointString, htext, ← pointString] at hdenotes
    exact Except.ok.inj h ▸ .of_ne hdenotes (ofPoints_ne_null whole)
  | bytes content => cases h
  | record model fields => cases h
  | tuple items =>
    rw [encode] at h
    obtain ⟨written, hwritten, rfl⟩ := map_eq_ok_iff.mp h
    obtain ⟨read, hread⟩ := exists_denotes_items hwritten
    exact .of_ne (denotes_list layout depth hread) (by simp)
  | list items =>
    rw [encode] at h
    obtain ⟨written, hwritten, rfl⟩ := map_eq_ok_iff.mp h
    obtain ⟨read, hread⟩ := exists_denotes_items hwritten
    exact .of_ne (denotes_list layout depth hread) (by simp)
  | object fields =>
    rw [encode] at h
    obtain ⟨written, hwritten, rfl⟩ := map_eq_ok_iff.mp h
    obtain ⟨read, hread⟩ := exists_denotes_fields hwritten
    exact .of_ne (denotes_fields layout depth hread) (objectOf_ne_null _)
  | brokenObject keys items =>
    rw [encode] at h
    obtain ⟨written, hwritten, rfl⟩ := map_eq_ok_iff.mp h
    obtain ⟨read, hread⟩ := exists_denotes_items hwritten
    obtain ⟨whole, hwhole, htexts⟩ := exists_unpaired_keys keys
    have hfields := denotesField_zip hwhole hread
    rw [htexts] at hfields
    exact .of_ne (denotes_fields layout depth hfields) (objectOf_ne_null _)

theorem exists_denotes_items {layout : Layout} {depth : Nat} {items : List Value}
    {written : List (List Char)} (h : encodeItems layout refuse depth items = .ok written) :
    ∃ read, List.Forall₂ Denotes written read := by
  match items with
  | [] => exact ⟨[], Except.ok.inj h ▸ .nil⟩
  | item :: rest =>
    rw [encodeItems] at h
    split at h
    · cases h
    next cs hcs =>
    split at h
    · cases h
    next more hmore =>
    obtain ⟨first, hfirst, -⟩ := exists_denotes hcs
    obtain ⟨read, hread⟩ := exists_denotes_items hmore
    exact ⟨first :: read, Except.ok.inj h ▸ .cons hfirst hread⟩

theorem exists_denotes_fields {layout : Layout} {depth : Nat} {fields : List (String × Value)}
    {written : List (List Char)} (h : encodeFields layout refuse depth fields = .ok written) :
    ∃ read, List.Forall₂ DenotesField written read := by
  match fields with
  | [] => exact ⟨[], Except.ok.inj h ▸ .nil⟩
  | (key, item) :: rest =>
    rw [encodeFields] at h
    split at h
    · cases h
    next cs hcs =>
    split at h
    · cases h
    next more hmore =>
    obtain ⟨first, hfirst, -⟩ := exists_denotes hcs
    obtain ⟨read, hread⟩ := exists_denotes_fields hmore
    exact ⟨(CodePoint.ofText key, first) :: read,
      Except.ok.inj h ▸ .cons (denotesField_ofText key hfirst) hread⟩

end

theorem exists_read_pair {key other : String} (hne : key ≠ other) {v w : Value} (hw : Data w)
    {s : String} (h : compact (.object [(key, v), (other, w)]) = .ok s) :
    ∃ v', read s = .ok (.object [(key, v'), (other, w)]) ∧ (v' = .null → v = .null) := by
  obtain ⟨cs, hcs, rfl⟩ := map_eq_ok_iff.mp h
  rw [encode] at hcs
  obtain ⟨written, hwritten, rfl⟩ := map_eq_ok_iff.mp hcs
  simp only [encodeFields] at hwritten
  cases hv : encode .line refuse 1 v with
  | error e => simp [hv] at hwritten
  | ok first =>
    cases hother : encode .line refuse 1 w with
    | error e => simp [hv, hother] at hwritten
    | ok second =>
      simp only [hv, hother, Except.ok.injEq] at hwritten
      obtain ⟨v', hv', hnull⟩ := exists_denotes hv
      have hfields : List.Forall₂ DenotesField written
          ([(key, v'), (other, w)].map fun pair => (CodePoint.ofText pair.1, pair.2)) :=
        hwritten ▸ .cons (denotesField_ofText key hv')
          (.cons (denotesField_ofText other (hw.decodes 1 second hother)) .nil)
      exact ⟨v', (denotes_object .line 0 hfields (by simpa using hne)).read, hnull⟩

end PromptChain.Json
