import PromptChain.Value.Table
/-!
# The keys of tables

However a table is built, no two of its keys mean the same, and it holds no values but those that
were put into it.
-/

namespace PromptChain

namespace Table

variable {α : Type}

/-- Whether no two keys of a table mean the same. -/
def Distinct (table : Table α) : Prop := table.Pairwise fun a b => a.1.same b.1 = false

theorem mem_put {table : Table α} {key : Value} {value : α} {pair : Value × α}
    (h : pair ∈ table.put key value) :
    pair ∈ table ∨ pair.2 = value ∧ (pair.1 = key ∨ pair.1 ∈ table.keys) := by
  induction table with
  | nil =>
    rw [put, List.mem_singleton] at h
    exact .inr ⟨congrArg Prod.snd h, .inl (congrArg Prod.fst h)⟩
  | cons first rest ih =>
    obtain ⟨k, v⟩ := first
    rw [put] at h
    split at h
    · rcases List.mem_cons.mp h with rfl | h
      · exact .inr ⟨rfl, .inr (by simp [keys])⟩
      · exact .inl (List.mem_cons_of_mem _ h)
    · rcases List.mem_cons.mp h with rfl | h
      · exact .inl List.mem_cons_self
      · rcases ih h with h | ⟨hvalue, hkey⟩
        · exact .inl (List.mem_cons_of_mem _ h)
        · exact .inr ⟨hvalue, hkey.imp_right fun hkey => List.mem_cons_of_mem _ hkey⟩

theorem Distinct.put {table : Table α} (h : table.Distinct) (key : Value) (value : α) :
    Distinct (Table.put table key value) := by
  induction table with
  | nil => exact List.pairwise_singleton _ _
  | cons first rest ih =>
    obtain ⟨k, v⟩ := first
    obtain ⟨hfirst, hrest⟩ := List.pairwise_cons.mp h
    rw [Table.put]
    split
    · exact List.pairwise_cons.mpr ⟨hfirst, hrest⟩
    · next hk =>
      refine List.pairwise_cons.mpr ⟨fun pair hpair => ?_, ih hrest⟩
      rcases mem_put hpair with hpair | ⟨-, heq | hkey⟩
      · exact hfirst pair hpair
      · rw [heq]
        simpa using hk
      · obtain ⟨other, hother, heq⟩ := List.mem_map.mp hkey
        rw [← heq]
        exact hfirst other hother

theorem distinct_foldl {table : Table α} (h : table.Distinct) (pairs : List (Value × α)) :
    Distinct (pairs.foldl (fun table pair => Table.put table pair.1 pair.2) table) := by
  induction pairs generalizing table with
  | nil => exact h
  | cons pair rest ih => exact ih (h.put pair.1 pair.2)

theorem distinct_ofPairs (pairs : List (Value × α)) : Distinct (ofPairs pairs) :=
  distinct_foldl List.Pairwise.nil pairs

theorem put_of_distinct {table : Table α} {key : Value} (value : α)
    (h : ∀ pair ∈ table, pair.1.same key = false) :
    table.put key value = table ++ [(key, value)] := by
  induction table with
  | nil => rfl
  | cons pair rest ih =>
    obtain ⟨hpair, hrest⟩ := List.forall_mem_cons.mp h
    simp [put, hpair, ih hrest]

theorem foldl_put_of_distinct (table : Table α) {pairs : List (Value × α)}
    (h : Distinct (table ++ pairs)) :
    pairs.foldl (fun table pair => Table.put table pair.1 pair.2) table = table ++ pairs := by
  induction pairs generalizing table with
  | nil => simp
  | cons pair rest ih =>
    have hsplit : table ++ pair :: rest = (table ++ [pair]) ++ rest := by simp
    have hfresh : ∀ other ∈ table, other.1.same pair.1 = false :=
      fun other hother => (List.pairwise_append.mp h).2.2 other hother pair List.mem_cons_self
    rw [List.foldl_cons, put_of_distinct pair.2 hfresh, ih _ (hsplit ▸ h), hsplit]

theorem ofPairs_of_distinct {pairs : List (Value × α)} (h : Distinct pairs) :
    ofPairs pairs = pairs := foldl_put_of_distinct [] h

theorem mem_foldl {table : Table α} {pairs : List (Value × α)} {pair : Value × α}
    (h : pair ∈ pairs.foldl (fun table pair => Table.put table pair.1 pair.2) table) :
    pair ∈ table ∨ ∃ other ∈ pairs, pair.2 = other.2 := by
  induction pairs generalizing table with
  | nil => exact .inl h
  | cons first rest ih =>
    rcases ih h with h | ⟨other, hother, heq⟩
    · rcases mem_put h with h | ⟨hvalue, -⟩
      · exact .inl h
      · exact .inr ⟨first, List.mem_cons_self, hvalue⟩
    · exact .inr ⟨other, List.mem_cons_of_mem _ hother, heq⟩

theorem mem_ofPairs {pairs : List (Value × α)} {pair : Value × α} (h : pair ∈ ofPairs pairs) :
    ∃ other ∈ pairs, pair.2 = other.2 :=
  (mem_foldl h).resolve_left (by simp)

end Table

end PromptChain
