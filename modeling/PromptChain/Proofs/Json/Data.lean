import PromptChain.Proofs.Json.Reals
import PromptChain.Proofs.Schema.Makes
/-!
# The data of JSON texts

Whatever a JSON text can hold is read back from the text that it is written as: integers and numbers
of any size, texts and keys in which surrogates stand alone, lists and objects.  Only writing may
fail, for an integer that has too many digits.
-/

namespace PromptChain

theorem map_eq_ok_iff {ε α β : Type} {x : Except ε α} {f : α → β} {b : β} :
    x.map f = .ok b ↔ ∃ a, x = .ok a ∧ f a = b := by
  cases x <;> simp [Except.map]

namespace Json

open Text (CodePoint)

/-- What JSON texts can hold.  Two halves of a pair that stand side by side are one character. -/
inductive Data : Value → Prop where
  | null : Data .null
  | bool (b : Bool) : Data (.bool b)
  | int (n : Int) : Data (.int n)
  | real (x : Binary64) : Data (.real x)
  | text (s : String) : Data (.text s)
  | brokenText {points : List CodePoint} (hbroken : CodePoint.chars? points = none)
      (hunpaired : Unpaired points) : Data (.brokenText points)
  | list {items : List Value} (hitems : ∀ v ∈ items, Data v) : Data (.list items)
  | object {fields : List (String × Value)} (hfields : ∀ field ∈ fields, Data field.2)
      (hdistinct : (fields.map Prod.fst).Nodup) : Data (.object fields)
  | brokenObject {keys : List (List CodePoint)} {items : List Value}
      (hlength : keys.length = items.length)
      (hbroken : ∃ key ∈ keys, CodePoint.chars? key = none)
      (hunpaired : ∀ key ∈ keys, Unpaired key) (hdistinct : keys.Nodup)
      (hitems : ∀ v ∈ items, Data v) : Data (.brokenObject keys items)

/-! ## Objects with broken keys -/

theorem wholeFields?_of_broken {fields : List (List CodePoint × Value)}
    {pair : List CodePoint × Value} (hpair : pair ∈ fields)
    (hbroken : CodePoint.chars? pair.1 = none) : wholeFields? fields = none := by
  induction fields with
  | nil => cases hpair
  | cons first rest ih =>
    rw [wholeFields?] at ih ⊢
    rw [List.mapM_cons]
    rcases List.mem_cons.mp hpair with rfl | hpair
    · simp [hbroken]
    · cases hfirst : CodePoint.chars? first.1 <;> simp_all

theorem objectOf_broken {keys : List (List CodePoint)} {items : List Value}
    (hlength : keys.length = items.length) (hbroken : ∃ key ∈ keys, CodePoint.chars? key = none)
    (hdistinct : keys.Nodup) :
    objectOf .plain (keys.zip items) = .brokenObject keys items := by
  have hwhole : wholeFields? (keys.zip items) = none := by
    obtain ⟨key, hkey, hnone⟩ := hbroken
    rw [← List.map_fst_zip hlength.le] at hkey
    obtain ⟨pair, hpair, rfl⟩ := List.mem_map.mp hkey
    exact wholeFields?_of_broken hpair hnone
  have htable : Table.Distinct
      ((keys.zip items).map fun pair => (Value.ofPoints pair.1, pair.2)) := by
    rw [Table.Distinct, List.pairwise_map]
    have hkeys : ((keys.zip items).map Prod.fst).Nodup := by rwa [List.map_fst_zip hlength.le]
    exact (List.pairwise_map.mp hkeys).imp fun hne => Value.same_ofPoints_of_ne hne
  have hpoints : (((keys.zip items).map Prod.fst).map Value.ofPoints).filterMap Value.points? =
      keys := by
    rw [List.map_fst_zip hlength.le, List.filterMap_map]
    simp [Value.points?_ofPoints]
  have hitems : (keys.zip items).map Prod.snd = items := List.map_snd_zip hlength.ge
  simp only [objectOf, hwhole, Table.ofPairs_of_distinct htable, Table.keys, List.map_map,
    Function.comp_def] at hpoints ⊢
  rw [hpoints, hitems]

/-! ## Values -/

variable {layout : Layout} {foreign : Substitute}

def Decodes (layout : Layout) (foreign : Substitute) (v : Value) : Prop :=
  ∀ depth cs, encode layout foreign depth v = .ok cs → Denotes cs v

theorem denotes_of_encodeItems {items : List Value}
    (h : ∀ v ∈ items, Decodes layout foreign v) {depth : Nat} {written : List (List Char)}
    (hwritten : encodeItems layout foreign depth items = .ok written) :
    List.Forall₂ Denotes written items := by
  induction items generalizing written with
  | nil =>
    obtain rfl := Except.ok.inj hwritten
    exact .nil
  | cons v rest ih =>
    obtain ⟨hfirst, hrest⟩ := List.forall_mem_cons.mp h
    rw [encodeItems] at hwritten
    split at hwritten
    · cases hwritten
    next cs hcs =>
    split at hwritten
    · cases hwritten
    next more hmore =>
    obtain rfl := Except.ok.inj hwritten
    exact .cons (hfirst depth cs hcs) (ih hrest hmore)

theorem denotes_of_encodeFields {fields : List (String × Value)}
    (h : ∀ pair ∈ fields, Decodes layout foreign pair.2) {depth : Nat}
    {written : List (List Char)}
    (hwritten : encodeFields layout foreign depth fields = .ok written) :
    List.Forall₂ DenotesField written
      (fields.map fun pair => (CodePoint.ofText pair.1, pair.2)) := by
  induction fields generalizing written with
  | nil =>
    obtain rfl := Except.ok.inj hwritten
    exact .nil
  | cons pair rest ih =>
    obtain ⟨hfirst, hrest⟩ := List.forall_mem_cons.mp h
    rw [encodeFields] at hwritten
    split at hwritten
    · cases hwritten
    next cs hcs =>
    split at hwritten
    · cases hwritten
    next more hmore =>
    obtain rfl := Except.ok.inj hwritten
    exact .cons (denotesField_ofText pair.1 (hfirst depth cs hcs)) (ih hrest hmore)

theorem denotesField_zip {keys : List (List CodePoint)} (hunpaired : ∀ key ∈ keys, Unpaired key)
    {written : List (List Char)} {items : List Value} (h : List.Forall₂ Denotes written items) :
    List.Forall₂ DenotesField ((keys.map pointString).zipWith field written)
      (keys.zip items) := by
  induction h generalizing keys with
  | nil => simp
  | @cons cs v more rest hfirst hrest ih =>
    cases keys with
    | nil => exact .nil
    | cons key keys =>
      obtain ⟨hkey, hkeys⟩ := List.forall_mem_cons.mp hunpaired
      exact .cons ⟨cs, rfl, hkey, hfirst⟩ (ih hkeys)

/-- **Data are read back from every text that they are written as.** -/
theorem Data.decodes {v : Value} (h : Data v) : Decodes layout foreign v := by
  induction h with
  | null =>
    rintro depth cs hcs
    obtain rfl := Except.ok.inj hcs
    exact denotes_null
  | bool b =>
    intro depth cs hcs
    cases b with
    | true => exact Except.ok.inj hcs ▸ denotes_bool true
    | false => exact Except.ok.inj hcs ▸ denotes_bool false
  | int n =>
    intro depth cs hcs
    rw [encode, intText] at hcs
    split at hcs
    · cases hcs
    · next hshort => exact Except.ok.inj hcs ▸ denotes_int (by simpa using hshort)
  | real x => exact fun depth cs hcs => Except.ok.inj hcs ▸ denotes_real x
  | text s => exact fun depth cs hcs => Except.ok.inj hcs ▸ denotes_string s
  | brokenText hbroken hunpaired =>
    intro depth cs hcs
    have hdenotes := denotes_pointString hunpaired
    rw [Value.ofPoints, hbroken] at hdenotes
    exact Except.ok.inj hcs ▸ hdenotes
  | list hitems ih =>
    intro depth cs hcs
    rw [encode] at hcs
    obtain ⟨written, hwritten, rfl⟩ := map_eq_ok_iff.mp hcs
    exact denotes_list layout depth (denotes_of_encodeItems ih hwritten)
  | object hfields hdistinct ih =>
    intro depth cs hcs
    rw [encode] at hcs
    obtain ⟨written, hwritten, rfl⟩ := map_eq_ok_iff.mp hcs
    exact denotes_object layout depth (denotes_of_encodeFields ih hwritten) hdistinct
  | brokenObject hlength hbroken hunpaired hdistinct hitems ih =>
    intro depth cs hcs
    rw [encode] at hcs
    obtain ⟨written, hwritten, rfl⟩ := map_eq_ok_iff.mp hcs
    have hfields := denotesField_zip hunpaired (denotes_of_encodeItems ih hwritten)
    exact objectOf_broken hlength hbroken hdistinct ▸ denotes_fields layout depth hfields

theorem read_compact {v : Value} (h : Data v) {s : String} (hs : compact v = .ok s) :
    read s = .ok v := by
  obtain ⟨cs, hcs, rfl⟩ := map_eq_ok_iff.mp hs
  exact (h.decodes 0 cs hcs).read

/-! ## Depths -/

theorem enclose_line (depth other : Nat) (left right : Char) (items : List (List Char)) :
    enclose .line depth left right items = enclose .line other left right items := by
  cases items <;> rfl

mutual

theorem encode_line (foreign : Substitute) (depth other : Nat) (v : Value) :
    encode .line foreign depth v = encode .line foreign other v := by
  have henclose := fun left right => funext (enclose_line depth other left right)
  cases v with
  | bool b => cases b <;> rfl
  | tuple items => rw [encode, encode, encodeItems_line foreign _ (other + 1) items, henclose]
  | list items => rw [encode, encode, encodeItems_line foreign _ (other + 1) items, henclose]
  | object fields => rw [encode, encode, encodeFields_line foreign _ (other + 1) fields, henclose]
  | brokenObject keys items =>
    rw [encode, encode, encodeItems_line foreign _ (other + 1) items, henclose]
  | _ => simp only [encode]

theorem encodeItems_line (foreign : Substitute) (depth other : Nat) (items : List Value) :
    encodeItems .line foreign depth items = encodeItems .line foreign other items := by
  match items with
  | [] => rfl
  | item :: rest =>
    rw [encodeItems, encodeItems, encode_line foreign depth other item,
      encodeItems_line foreign depth other rest]

theorem encodeFields_line (foreign : Substitute) (depth other : Nat)
    (fields : List (String × Value)) :
    encodeFields .line foreign depth fields = encodeFields .line foreign other fields := by
  match fields with
  | [] => rfl
  | (key, item) :: rest =>
    rw [encodeFields, encodeFields, encode_line foreign depth other item,
      encodeFields_line foreign depth other rest]

end

end Json

end PromptChain
