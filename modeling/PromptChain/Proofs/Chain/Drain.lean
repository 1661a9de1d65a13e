import PromptChain.Proofs.Chain.Execution
import PromptChain.Chain.Run
/-!
# Drains

A walk over a queue as a list of visits.  `Walks` follows the steps of a walk that
succeed, one at a time; `walk_ends` says that a walk is made of such steps and in
which ways it can end.
-/

namespace PromptChain

/-! ## The next pending item -/

theorem of_nextPending?_eq_some {items : List Item} {index position : Nat} {i : Item}
    (h : nextPending? items index = some (position, i)) :
    ∃ skipped rest, items = items.take index ++ skipped ++ i :: rest ∧
      position = (items.take index ++ skipped).length ∧ i.executed = false ∧
      ∀ j ∈ skipped, j.executed = true := by
  induction items generalizing index position with
  | nil => simp [nextPending?] at h
  | cons first rest ih =>
    cases index with
    | succ index =>
      simp only [nextPending?, Option.map_eq_some_iff] at h
      obtain ⟨⟨place, j⟩, hnext, hfound⟩ := h
      simp only [Prod.mk.injEq] at hfound
      obtain ⟨rfl, rfl⟩ := hfound
      obtain ⟨skipped, behind, hitems, hplace, hpending, hskipped⟩ := ih hnext
      refine ⟨skipped, behind, ?_, ?_, hpending, hskipped⟩
      · rw [List.take_succ_cons, List.cons_append, List.cons_append, ← hitems]
      · simp [hplace]
    | zero =>
      cases hexecuted : first.executed with
      | false =>
        simp only [nextPending?, hexecuted, Bool.false_eq_true, if_false, Option.some.injEq,
          Prod.mk.injEq] at h
        obtain ⟨rfl, rfl⟩ := h
        exact ⟨[], rest, rfl, rfl, hexecuted, by simp⟩
      | true =>
        simp only [nextPending?, hexecuted, if_true, Option.map_eq_some_iff] at h
        obtain ⟨⟨place, j⟩, hnext, hfound⟩ := h
        simp only [Prod.mk.injEq] at hfound
        obtain ⟨rfl, rfl⟩ := hfound
        obtain ⟨skipped, behind, hitems, hplace, hpending, hskipped⟩ := ih hnext
        refine ⟨first :: skipped, behind, ?_, ?_, hpending, ?_⟩
        · simpa using hitems
        · simp [hplace]
        · simpa [hexecuted] using hskipped

theorem mem_of_nextPending? {items : List Item} {index position : Nat} {i : Item}
    (h : nextPending? items index = some (position, i)) : i ∈ items := by
  obtain ⟨skipped, rest, hitems, -, -, -⟩ := of_nextPending?_eq_some h
  rw [hitems]
  simp

theorem getElem?_of_nextPending? {items : List Item} {index position : Nat} {i : Item}
    (h : nextPending? items index = some (position, i)) :
    items[position]? = some i ∧ index ≤ position := by
  obtain ⟨skipped, rest, hitems, hposition, -, -⟩ := of_nextPending?_eq_some h
  constructor
  · rw [hitems, hposition, List.getElem?_append_right (Nat.le_refl _), Nat.sub_self]
    rfl
  · have hlength := congrArg List.length hitems
    simp only [List.length_append, List.length_take, List.length_cons] at hlength hposition
    omega

theorem take_nextPending? {items : List Item} {index position : Nat} {i : Item}
    (h : nextPending? items index = some (position, i)) :
    ∃ skipped, items.take (position + 1) = items.take index ++ skipped ++ [i] ∧
      position + 1 ≤ items.length ∧ ∀ j ∈ skipped, j.executed = true := by
  obtain ⟨skipped, rest, hitems, hposition, -, hskipped⟩ := of_nextPending?_eq_some h
  have hlength : (items.take index ++ skipped ++ [i]).length = position + 1 := by
    rw [List.length_append, ← hposition]
    rfl
  have hsplit : items = (items.take index ++ skipped ++ [i]) ++ rest := by simpa using hitems
  refine ⟨skipped, ?_, ?_, hskipped⟩
  · calc items.take (position + 1)
      _ = ((items.take index ++ skipped ++ [i]) ++ rest).take (position + 1) :=
        congrArg (List.take (position + 1)) hsplit
      _ = items.take index ++ skipped ++ [i] := List.take_left' hlength
  · have hcount := congrArg List.length hsplit
    rw [List.length_append, hlength] at hcount
    omega

theorem of_nextPending?_eq_none {items : List Item} {index : Nat}
    (h : nextPending? items index = none) : ∀ j ∈ items.drop index, j.executed = true := by
  induction items generalizing index with
  | nil => simp
  | cons first rest ih =>
    cases index with
    | succ index => exact ih (by simpa [nextPending?] using h)
    | zero =>
      cases hexecuted : first.executed with
      | false => simp [nextPending?, hexecuted] at h
      | true =>
        have hnone : nextPending? rest 0 = none := by simpa [nextPending?, hexecuted] using h
        have hrest := ih hnone
        simpa [hexecuted] using hrest

theorem nextPending?_eq_none {items : List Item} (h : ∀ j ∈ items, j.executed = true)
    (index : Nat) : nextPending? items index = none := by
  cases hnext : nextPending? items index with
  | none => rfl
  | some found =>
    obtain ⟨skipped, rest, hitems, -, hpending, -⟩ := of_nextPending?_eq_some hnext
    rw [h found.2 (by rw [hitems]; simp)] at hpending
    cases hpending

theorem nextPending?_of_length_le {items : List Item} {index : Nat}
    (h : items.length ≤ index) : nextPending? items index = none := by
  induction items generalizing index with
  | nil => rfl
  | cons first rest ih =>
    cases index with
    | zero => simp at h
    | succ index => rw [nextPending?, ih (by simpa using h)]; rfl

theorem nextPending?_append_pending {done : List Item} {i : Item}
    (hdone : ∀ j ∈ done, j.executed = true) (hpending : i.executed = false) {index : Nat}
    (hindex : index ≤ done.length) :
    nextPending? (done ++ [i]) index = some (done.length, i) := by
  induction done generalizing index with
  | nil =>
    have hzero : index = 0 := by simpa using hindex
    simp [hzero, nextPending?, hpending]
  | cons first rest ih =>
    have hfirst : first.executed = true := hdone first (by simp)
    have hrest : ∀ j ∈ rest, j.executed = true := fun j hj => hdone j (by simp [hj])
    cases index with
    | zero => simp [nextPending?, hfirst, ih hrest (Nat.zero_le _)]
    | succ index => simp [nextPending?, ih hrest (Nat.le_of_succ_le_succ hindex)]

theorem nextPending?_eq_zero {items : List Item} {index : Nat}
    (h : ∀ j ∈ items.take index, j.executed = true) :
    nextPending? items index = nextPending? items 0 := by
  induction items generalizing index with
  | nil => rfl
  | cons first rest ih =>
    cases index with
    | zero => rfl
    | succ index =>
      have hfirst : first.executed = true := h first (by simp)
      have hbefore : ∀ j ∈ rest.take index, j.executed = true := fun j hj => h j (by simp [hj])
      have hrest := ih hbefore
      simp [nextPending?, hfirst, hrest]

namespace Session

variable {ε : Type}

theorem marks_of_nextPending? {s : Session ε} {index position : Nat} {i : Item}
    (h : nextPending? s.chain.queue.entries index = some (position, i)) :
    ∃ skipped rest, s.chain.marks = s.chain.marks.take index ++ skipped ++ i.mark :: rest ∧
      s.chain.marks.take (position + 1) = s.chain.marks.take index ++ skipped ++ [i.mark] ∧
      position + 1 ≤ s.chain.marks.length ∧ ∀ m ∈ skipped, m.executed = true := by
  obtain ⟨skipped, htake, hlength, hskipped⟩ := take_nextPending? h
  have hmarks : s.chain.marks.take (position + 1) =
      s.chain.marks.take index ++ skipped.map Item.mark ++ [i.mark] := by
    rw [Chain.marks, ← List.map_take, htake]
    simp
  refine ⟨skipped.map Item.mark, s.chain.marks.drop (position + 1), ?_, hmarks, ?_, ?_⟩
  · calc s.chain.marks
      _ = s.chain.marks.take (position + 1) ++ s.chain.marks.drop (position + 1) :=
        (List.take_append_drop _ _).symm
      _ = s.chain.marks.take index ++ skipped.map Item.mark ++
          i.mark :: s.chain.marks.drop (position + 1) := by
        rw [hmarks]
        simp
  · simpa [Chain.marks] using hlength
  · intro m hm
    obtain ⟨j, hj, rfl⟩ := List.mem_map.mp hm
    exact hskipped j hj

theorem pending_of_nextPending? {items : List Item} {index position : Nat} {i : Item}
    (h : nextPending? items index = some (position, i)) : i.executed = false := by
  obtain ⟨-, -, -, -, hpending, -⟩ := of_nextPending?_eq_some h
  exact hpending

/-! ## Visits -/

/-- A step that a walk executes: where it stands, the item, and the session before it. -/
structure Visit (ε : Type) where
  position : Nat
  item : Item
  before : Session ε

namespace Visit

def outcome (b : Backend ε) (v : Visit ε) : Except Fault Value := (v.before.execute b v.item).1

def orders (b : Backend ε) (v : Visit ε) : List (Session ε × Command) :=
  v.before.orders b v.item

end Visit

/-- The steps that a walk executes, in order, the one that fails included. -/
def visits (b : Backend ε) : (budget index : Nat) → Session ε → List (Visit ε)
  | budget, index, s =>
    match nextPending? s.chain.queue.entries index with
    | none => []
    | some (position, i) =>
      match budget with
      | 0 => []
      | budget + 1 =>
        ⟨position, i, s⟩ ::
          match s.execute b i with
          | (.error _, _) => []
          | (.ok v, s) => visits b budget (position + 1) (s.complete i.serial v)

/-- `Walks b index s done last t`: from a position and a session, the steps of some visits succeed
one after the other and lead to another position and session. -/
inductive Walks (b : Backend ε) :
    Nat → Session ε → List (Visit ε) → Nat → Session ε → Prop where
  | stay (index : Nat) (s : Session ε) : Walks b index s [] index s
  | step {index position last : Nat} {s t u : Session ε} {i : Item} {v : Value}
      {done : List (Visit ε)}
      (hnext : nextPending? s.chain.queue.entries index = some (position, i))
      (hrun : s.execute b i = (.ok v, t))
      (rest : Walks b (position + 1) (t.complete i.serial v) done last u) :
      Walks b index s (⟨position, i, s⟩ :: done) last u

inductive Ends (b : Backend ε) (budget : Nat) (done : List (Visit ε)) (index : Nat)
    (t : Session ε) : Stop × Nat × Session ε → List (Visit ε) → Prop where
  | finished (hnext : nextPending? t.chain.queue.entries index = none) :
      Ends b budget done index t (.finished, done.length, t) done
  | paused {found : Nat × Item} (hnext : nextPending? t.chain.queue.entries index = some found)
      (hbudget : done.length = budget) :
      Ends b budget done index t (.paused, done.length, t) done
  | failed {position : Nat} {i : Item} {e : Fault} {u : Session ε}
      (hnext : nextPending? t.chain.queue.entries index = some (position, i))
      (hrun : t.execute b i = (.error e, u)) :
      Ends b budget done index t (.failed e, done.length, u) (done ++ [⟨position, i, t⟩])

theorem Ends.cons {b : Backend ε} {budget index : Nat} {done : List (Visit ε)} {t : Session ε}
    {result : Stop × Nat × Session ε} {visited : List (Visit ε)} (first : Visit ε)
    (h : Ends b budget done index t result visited) :
    Ends b (budget + 1) (first :: done) index t (result.1, result.2.1 + 1, result.2.2)
      (first :: visited) := by
  cases h with
  | finished hnext => exact .finished hnext
  | paused hnext hbudget => exact .paused hnext (by simp [hbudget])
  | failed hnext hrun => exact .failed hnext hrun

/-- A walk consists of the steps that `Walks` follows, and ends in one of three ways. -/
theorem walk_ends (b : Backend ε) (budget index : Nat) (s : Session ε) :
    ∃ done last t, Walks b index s done last t ∧
      Ends b budget done last t (walk b budget index s) (visits b budget index s) := by
  induction budget generalizing index s with
  | zero =>
    refine ⟨[], index, s, .stay index s, ?_⟩
    unfold walk visits
    cases hnext : nextPending? s.chain.queue.entries index with
    | none => exact .finished hnext
    | some found => exact .paused hnext rfl
  | succ budget ih =>
    unfold walk visits
    cases hnext : nextPending? s.chain.queue.entries index with
    | none => exact ⟨[], index, s, .stay index s, .finished hnext⟩
    | some found =>
      obtain ⟨position, i⟩ := found
      cases hrun : s.execute b i with
      | mk outcome t =>
        cases outcome with
        | error e =>
          refine ⟨[], index, s, .stay index s, ?_⟩
          simp only [hrun]
          exact .failed hnext hrun
        | ok v =>
          obtain ⟨done, last, u, hwalks, hends⟩ := ih (position + 1) (t.complete i.serial v)
          refine ⟨_, last, u, .step hnext hrun hwalks, ?_⟩
          simp only [hrun]
          exact hends.cons ⟨position, i, s⟩

end Session

end PromptChain
