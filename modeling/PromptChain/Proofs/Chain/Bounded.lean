import PromptChain.Proofs.Chain.Reshaping
/-!
# Runs with a bound

A run looks at one item of its queue after the other, while hooks append to the queue, even a
further hook each time that one runs.  Turn by turn the loop uses up either its bound or the items
that it has still to look at.  So it ends, and if nothing goes back it has executed what was pending
from the front on, as much as the bound allows.
-/

namespace PromptChain

/-! ## Hooks by name -/

/-- Hooks that can be queued by their names alone, so that a hook can queue itself. -/
abbrev Library := String → Option Hook

namespace Library

def empty : Library := fun _ => none

def Obeys (library : Library) (rule : Rule) : Prop :=
  ∀ name run, library name = some run → ∀ runs, (run runs).Obeys rule

theorem Obeys.mono {library : Library} {rule weaker : Rule} (h : library.Obeys rule)
    (hrule : ∀ command next, rule command next → weaker command next) : library.Obeys weaker :=
  fun name run hrun runs => (h name run hrun runs).mono hrule

end Library

/-- A hook whose name is in the library runs what the library has under it. -/
def Step.resolve (library : Library) : Step → Step
  | .hook shown run runs result => .hook shown ((library shown).getD run) runs result
  | step => step

def Item.resolve (library : Library) (i : Item) : Item := { i with step := i.step.resolve library }

theorem Step.kind_resolve (library : Library) (step : Step) :
    (step.resolve library).kind = step.kind := by
  cases step <;> rfl

@[simp] theorem Item.mark_resolve (library : Library) (i : Item) :
    (i.resolve library).mark = i.mark :=
  congrArg (Mark.mk i.serial i.executed) (Step.kind_resolve library i.step)

@[simp] theorem Item.resolve_empty (i : Item) : i.resolve .empty = i := by
  obtain ⟨serial, label, executed, step, result⟩ := i
  cases step <;> rfl

theorem Step.Obeys.resolve {library : Library} {rule : Rule} (hlibrary : library.Obeys rule)
    {step : Step} (h : step.Obeys rule) : (step.resolve library).Obeys rule := by
  cases step with
  | hook shown run runs result =>
    intro n
    cases hfound : library shown with
    | none => exact h n
    | some found => exact hlibrary shown found hfound n
  | foreign kind inner => exact h.elim
  | _ => trivial

/-! ## What is pending -/

def outstanding (marks : List Mark) : List Nat :=
  (marks.filter fun m => !m.executed).map Mark.serial

@[simp] theorem outstanding_append (front back : List Mark) :
    outstanding (front ++ back) = outstanding front ++ outstanding back := by
  simp [outstanding]

theorem outstanding_cons_pending {m : Mark} (h : m.executed = false) (rest : List Mark) :
    outstanding (m :: rest) = m.serial :: outstanding rest := by
  simp [outstanding, h]

theorem outstanding_of_executed {marks : List Mark} (h : ∀ m ∈ marks, m.executed = true) :
    outstanding marks = [] := by
  simpa [outstanding] using h

theorem outstanding_of_pending {marks : List Mark} (h : ∀ m ∈ marks, m.executed = false) :
    outstanding marks = marks.map Mark.serial := by
  rw [outstanding, List.filter_eq_self.mpr fun m hm => by simp [h m hm]]

theorem map_finish_of_nodup {before after : List Mark} {m : Mark}
    (h : ((before ++ m :: after).map Mark.serial).Nodup) :
    (before ++ m :: after).map (Mark.finish m.serial) = before ++ m.done :: after := by
  rw [List.map_append, List.map_cons, List.nodup_append, List.nodup_cons] at h
  obtain ⟨-, ⟨hafter, -⟩, hbefore⟩ := h
  have hkeep : ∀ marks : List Mark, m.serial ∉ marks.map Mark.serial →
      marks.map (Mark.finish m.serial) = marks := by
    intro marks habsent
    refine (List.map_congr_left fun n hn => ?_).trans (List.map_id marks)
    have hne : n.serial ≠ m.serial := fun heq => habsent (heq ▸ List.mem_map_of_mem hn)
    simp [Mark.finish, hne]
  rw [List.map_append, List.map_cons, hkeep after hafter, hkeep before, Mark.finish, if_pos rfl]
  exact fun hmem => hbefore _ hmem _ List.mem_cons_self rfl

/-- The steps that were pending in a queue, and those that were appended to it since. -/
def Chain.due (before after : Chain) : List Item :=
  (before.queue.entries.filter fun i => !i.executed) ++
    after.queue.entries.drop before.queue.entries.length

theorem Chain.serials_due {before after : Chain} {new : List Nat}
    (h : after.marks.map Mark.serial = before.marks.map Mark.serial ++ new) :
    (before.due after).map Item.serial = outstanding before.marks ++ new := by
  have hserials : ∀ c : Chain, c.marks.map Mark.serial = c.queue.entries.map Item.serial := by
    intro c
    rw [Chain.marks, List.map_map]
    rfl
  rw [hserials, hserials] at h
  rw [Chain.due, List.map_append, List.map_drop, h, List.drop_left' (List.length_map _),
    outstanding, Chain.marks, List.filter_map, List.map_map]
  rfl

theorem Edit.appends {marks marks' : List Mark} {created created' : Nat} {command : Command}
    (hedit : Edit marks created command marks' created') (hretry : command ≠ .retry)
    (hsystem : ∀ lines, command ≠ .system lines) :
    ∃ new, marks' = marks ++ new ∧ ∀ m ∈ new, m.executed = false := by
  cases hedit with
  | keep => exact ⟨[], by simp, by simp⟩
  | append kind => exact ⟨_, rfl, by simp⟩
  | evict => exact absurd rfl (hsystem _)
  | replace => exact absurd rfl (hsystem _)
  | stuck => exact absurd rfl hretry
  | undo => exact absurd rfl hretry

namespace Session

variable {ε : Type} {library : Library} {b : Backend ε} {bound : Nat}

/-! ## The loop -/

structure Place (ε : Type) where
  count : Nat
  index : Nat
  session : Session ε

abbrev Turned (ε : Type) := Place ε ⊕ (Stop × Nat × Session ε)

/-- One turn of the loop, with the item that it executes, if it executes one.  The loop ends behind
the last item, at a pending item if no more may be executed, and where an execution fails. -/
def Place.turn (library : Library) (b : Backend ε) (bound : Nat) (p : Place ε) :
    Option Item × Turned ε :=
  match p.session.chain.queue.entries[p.index]? with
  | none => (none, .inr (.finished, p.count, p.session))
  | some i =>
    if i.executed then (none, .inl { p with index := p.index + 1 })
    else if bound ≤ p.count then (none, .inr (.paused, p.count, p.session))
    else
      match p.session.execute b (i.resolve library) with
      | (.error e, s) => (some i, .inr (.failed e, p.count, s))
      | (.ok v, s) => (some i, .inl ⟨p.count + 1, p.index + 1, s.complete i.serial v⟩)

/-- `Turns library b bound p turns items result`: from a place on, the loop ends after a number of
turns, in which it executes the items, and comes to the result. -/
inductive Turns (library : Library) (b : Backend ε) (bound : Nat) :
    Place ε → Nat → List Item → Stop × Nat × Session ε → Prop where
  | last {p : Place ε} {tried : Option Item} {result : Stop × Nat × Session ε}
      (hturn : p.turn library b bound = (tried, .inr result)) :
      Turns library b bound p 1 tried.toList result
  | next {p q : Place ε} {tried : Option Item} {turns : Nat} {items : List Item}
      {result : Stop × Nat × Session ε} (hturn : p.turn library b bound = (tried, .inl q))
      (rest : Turns library b bound q turns items result) :
      Turns library b bound p (turns + 1) (tried.toList ++ items) result

inductive Place.Takes (library : Library) (b : Backend ε) (bound : Nat) (p : Place ε) :
    Option Item × Turned ε → Prop where
  | finished (hitem : p.session.chain.queue.entries[p.index]? = none) :
      Takes library b bound p (none, .inr (.finished, p.count, p.session))
  | passed {i : Item} (hitem : p.session.chain.queue.entries[p.index]? = some i)
      (hexecuted : i.executed = true) :
      Takes library b bound p (none, .inl { p with index := p.index + 1 })
  | paused {i : Item} (hitem : p.session.chain.queue.entries[p.index]? = some i)
      (hpending : i.executed = false) (hbound : bound ≤ p.count) :
      Takes library b bound p (none, .inr (.paused, p.count, p.session))
  | failed {i : Item} {e : Fault} {t : Session ε}
      (hitem : p.session.chain.queue.entries[p.index]? = some i) (hpending : i.executed = false)
      (hbound : p.count < bound)
      (hrun : p.session.execute b (i.resolve library) = (.error e, t)) :
      Takes library b bound p (some i, .inr (.failed e, p.count, t))
  | executed {i : Item} {v : Value} {t : Session ε}
      (hitem : p.session.chain.queue.entries[p.index]? = some i) (hpending : i.executed = false)
      (hbound : p.count < bound)
      (hrun : p.session.execute b (i.resolve library) = (.ok v, t)) :
      Takes library b bound p (some i, .inl ⟨p.count + 1, p.index + 1, t.complete i.serial v⟩)

theorem takes_turn (library : Library) (b : Backend ε) (bound : Nat) (p : Place ε) :
    p.Takes library b bound (p.turn library b bound) := by
  unfold Place.turn
  split
  · next hitem => exact .finished hitem
  next i hitem =>
  split
  · next hexecuted => exact .passed hitem hexecuted
  next hexecuted =>
  rw [Bool.not_eq_true] at hexecuted
  split
  · next hbound => exact .paused hitem hexecuted hbound
  next hbound =>
  rw [Nat.not_le] at hbound
  split
  · next hrun => exact .failed hitem hexecuted hbound hrun
  · next hrun => exact .executed hitem hexecuted hbound hrun

def Place.left (bound : Nat) (p : Place ε) : Nat × Nat :=
  (bound - p.count, p.session.chain.queue.entries.length - p.index)

/-- A turn that executes an item takes one off the bound, however many items it adds.  A turn that
passes an item over leaves the bound as it is, and has one item less to look at. -/
theorem left_turn {p q : Place ε} {tried : Option Item}
    (h : p.turn library b bound = (tried, .inl q)) :
    Prod.Lex (· < ·) (· < ·) (q.left bound) (p.left bound) := by
  have htakes := takes_turn library b bound p
  rw [h] at htakes
  cases htakes with
  | passed hitem =>
    have hlt := (List.getElem?_eq_some_iff.mp hitem).1
    exact .right _ (by simp only; omega)
  | executed _ _ hbound => exact .left _ _ (by simp only; omega)

theorem exists_turns (library : Library) (b : Backend ε) (bound : Nat) (p : Place ε) :
    ∃ turns items result, Turns library b bound p turns items result := by
  rcases hturn : p.turn library b bound with ⟨tried, q | result⟩
  · obtain ⟨turns, items, result, hrest⟩ := exists_turns library b bound q
    exact ⟨turns + 1, _, result, .next hturn hrest⟩
  · exact ⟨1, _, result, .last hturn⟩
termination_by p.left bound
decreasing_by exact left_turn hturn

theorem length_le_of_turns {p : Place ε} {turns : Nat} {items : List Item}
    {result : Stop × Nat × Session ε} (h : Turns library b bound p turns items result) :
    items.length ≤ bound - p.count := by
  induction h with
  | @last p tried result hturn =>
    have htakes := takes_turn library b bound p
    rw [hturn] at htakes
    cases htakes with
    | finished | paused => exact Nat.zero_le _
    | failed _ _ hbound => simp only [Option.toList, List.length_singleton]; omega
  | @next p q tried turns items result hturn rest ih =>
    have htakes := takes_turn library b bound p
    rw [hturn] at htakes
    cases htakes with
    | passed => exact ih
    | executed _ _ hbound =>
      simp only [Option.toList, List.length_append, List.length_singleton] at ih ⊢
      omega

/-! ## Chains in the loop -/

theorem wellFormed_resolved {s : Session ε} {i : Item} (hlibrary : library.Obeys Rule.overt)
    (hwf : s.chain.WellFormed) (hi : i ∈ s.chain.queue.entries) (hpending : i.executed = false) :
    (s.execute b (i.resolve library)).2.chain.WellFormed := by
  refine (execute_held (b := b) (i := i.resolve library) (fun _ => True) ?_ hwf ?_ ?_ hpending
    trivial ?_ ?_).1
  · exact fun _ _ _ _ _ _ => trivial
  · exact i.mark_resolve library ▸ hwf.holds hi
  · exact (hwf.overt i hi (.inl trivial)).resolve hlibrary
  · exact fun _ _ _ _ _ => trivial
  · exact fun _ _ _ _ _ => trivial

theorem wellFormed_turns (hlibrary : library.Obeys Rule.overt) {p : Place ε} {turns : Nat}
    {items : List Item} {result : Stop × Nat × Session ε}
    (h : Turns library b bound p turns items result) (hwf : p.session.chain.WellFormed) :
    result.2.2.chain.WellFormed := by
  induction h with
  | @last p tried result hturn =>
    have htakes := takes_turn library b bound p
    rw [hturn] at htakes
    cases htakes with
    | finished | paused => exact hwf
    | failed hitem hpending _ hrun =>
      have ht := wellFormed_resolved (b := b) hlibrary hwf (List.mem_of_getElem? hitem) hpending
      rw [hrun] at ht
      exact ht
  | @next p q tried turns items result hturn rest ih =>
    have htakes := takes_turn library b bound p
    rw [hturn] at htakes
    cases htakes with
    | passed => exact ih hwf
    | executed hitem hpending _ hrun =>
      have ht := wellFormed_resolved (b := b) hlibrary hwf (List.mem_of_getElem? hitem) hpending
      rw [hrun] at ht
      exact ih (wellFormed_complete ht _ _)

theorem marks_resolved {s : Session ε} {i : Item} (hlibrary : library.Obeys Rule.appending)
    (hwf : s.chain.WellFormed) (hi : i ∈ s.chain.queue.entries) (hpending : i.executed = false)
    (happending : i.step.Obeys Rule.appending) :
    ∃ new, (s.execute b (i.resolve library)).2.chain.marks = s.chain.marks ++ new ∧
      ∀ m ∈ new, m.executed = false := by
  have hresolved := happending.resolve hlibrary
  have hholds : s.chain.Holds (i.resolve library).mark := i.mark_resolve library ▸ hwf.holds hi
  refine (execute_held (b := b) (fun c => ∃ new, c.marks = s.chain.marks ++ new ∧
    ∀ m ∈ new, m.executed = false) ?_ hwf hholds (hresolved.mono fun _ _ h => h.1.1) hpending
    ⟨[], by simp, by simp⟩ ?_ ?_).2.2
  · exact fun c history artifacts active systemText hc => hc
  · intro c f hf hc hadded
    rw [Chain.marks_touch hc hf]
    exact hadded
  · intro g hg hc _ ⟨new, hmarks, hnew⟩
    obtain ⟨⟨next, ⟨hovert, hretry⟩, hsystem⟩, -⟩ := orders_obey hresolved g hg
    obtain ⟨more, hedit, hmore⟩ := (hc.edit hovert).appends hretry hsystem
    refine ⟨new ++ more, by rw [hedit, hmarks, List.append_assoc], fun m hm => ?_⟩
    exact (List.mem_append.mp hm).elim (hnew m) (hmore m)

/-- An executed step is taken from the front of those that are outstanding, and what it has added
stands behind them. -/
theorem outstanding_complete {s t : Session ε} {i : Item} {index : Nat} {new : List Mark}
    (hitem : s.chain.queue.entries[index]? = some i) (hpending : i.executed = false)
    (hpassed : ∀ m ∈ s.chain.marks.take index, m.executed = true) (hwf : t.chain.WellFormed)
    (hmarks : t.chain.marks = s.chain.marks ++ new) (hnew : ∀ m ∈ new, m.executed = false)
    (v : Value) :
    (t.complete i.serial v).chain.marks.map Mark.serial =
        s.chain.marks.map Mark.serial ++ new.map Mark.serial ∧
      i.serial :: outstanding (t.complete i.serial v).chain.marks =
        outstanding s.chain.marks ++ new.map Mark.serial ∧
      ∀ m ∈ (t.complete i.serial v).chain.marks.take (index + 1), m.executed = true := by
  have hmark : s.chain.marks[index]? = some i.mark := by simp [Chain.marks, hitem]
  obtain ⟨hlt, hget⟩ := List.getElem?_eq_some_iff.mp hmark
  have hsplit : s.chain.marks =
      s.chain.marks.take index ++ i.mark :: s.chain.marks.drop (index + 1) := by
    rw [← hget, List.getElem_cons_drop, List.take_append_drop]
  have hlength : (s.chain.marks.take index).length = index :=
    List.length_take_of_le (Nat.le_of_lt hlt)
  generalize s.chain.marks.take index = before at hsplit hpassed hlength
  generalize s.chain.marks.drop (index + 1) = after at hsplit
  rw [hsplit, List.append_assoc, List.cons_append] at hmarks
  have hdistinct := hwf.orderly.distinct
  rw [hmarks] at hdistinct
  have hdone : (t.complete i.serial v).chain.marks = before ++ i.mark.done :: (after ++ new) := by
    rw [marks_complete, hmarks]
    exact map_finish_of_nodup hdistinct
  rw [hdone, hsplit]
  refine ⟨by simp [Mark.done], ?_, ?_⟩
  · have hfirst : outstanding (i.mark.done :: (after ++ new)) = outstanding (after ++ new) := by
      simp [outstanding, Mark.done]
    rw [outstanding_append, outstanding_append, outstanding_of_executed hpassed, hfirst,
      outstanding_cons_pending (m := i.mark) hpending, outstanding_append,
      outstanding_of_pending hnew]
    rfl
  · intro m hm
    rw [← hlength, List.take_length_add_append] at hm
    simp only [List.take_succ_cons, List.take_zero, List.mem_append, List.mem_singleton] at hm
    rcases hm with hm | rfl
    · exact hpassed m hm
    · rfl

/-- What a loop executes and what it leaves outstanding is what was outstanding and what was
added. -/
theorem outstanding_turns (hlibrary : library.Obeys Rule.appending) {p : Place ε} {turns : Nat}
    {items : List Item} {result : Stop × Nat × Session ε}
    (h : Turns library b bound p turns items result) (hwf : p.session.chain.WellFormed)
    (happending : p.session.chain.Obeys Rule.appending False)
    (hpassed : ∀ m ∈ p.session.chain.marks.take p.index, m.executed = true)
    (hok : ∀ e, result.1 ≠ .failed e) :
    ∃ new, result.2.2.chain.marks.map Mark.serial =
        p.session.chain.marks.map Mark.serial ++ new ∧
      items.map Item.serial ++ outstanding result.2.2.chain.marks =
        outstanding p.session.chain.marks ++ new ∧
      (outstanding result.2.2.chain.marks = [] ∨ bound - p.count ≤ items.length) := by
  induction h with
  | @last p tried result hturn =>
    have htakes := takes_turn library b bound p
    rw [hturn] at htakes
    cases htakes with
    | finished hitem =>
      have htake : p.session.chain.marks.take p.index = p.session.chain.marks :=
        List.take_of_length_le (by simpa [Chain.marks] using hitem)
      rw [htake] at hpassed
      exact ⟨[], by simp, by simp, .inl (outstanding_of_executed hpassed)⟩
    | paused _ _ hbound =>
      exact ⟨[], by simp, by simp, .inr (by simp [Nat.sub_eq_zero_of_le hbound])⟩
    | failed => exact absurd rfl (hok _)
  | @next p q tried turns items result hturn rest ih =>
    have htakes := takes_turn library b bound p
    rw [hturn] at htakes
    cases htakes with
    | @passed i hitem hexecuted =>
      refine ih hwf happending ?_ hok
      have hmark : p.session.chain.marks[p.index]? = some i.mark := by simp [Chain.marks, hitem]
      intro m hm
      rw [List.take_add_one, hmark] at hm
      rcases List.mem_append.mp hm with hm | hm
      · exact hpassed m hm
      · rw [List.mem_singleton.mp hm]
        exact hexecuted
    | @executed i v t hitem hpending hbound hrun =>
      have hi := List.mem_of_getElem? hitem
      have hstep := happending i hi (.inr hpending)
      have ht := wellFormed_resolved (b := b)
        (hlibrary.mono fun _ _ h => h.1.1) hwf hi hpending
      have htobeys := obeys_execute (b := b) (i := i.resolve library) (fun _ _ h => ⟨h.1.1, h.1.2⟩)
        happending (hstep.resolve hlibrary)
      obtain ⟨added, hmarks, hadded⟩ := marks_resolved (b := b) hlibrary hwf hi hpending hstep
      rw [hrun] at ht htobeys hmarks
      obtain ⟨hserials, houtstanding, htaken⟩ :=
        outstanding_complete hitem hpending hpassed ht hmarks hadded v
      obtain ⟨new, hnew, haccount, hend⟩ := ih (wellFormed_complete ht _ _)
        (obeys_complete htobeys _ _) htaken hok
      refine ⟨added.map Mark.serial ++ new, ?_, ?_, ?_⟩
      · rw [hnew, hserials, List.append_assoc]
      · rw [List.map_append, List.append_assoc, haccount, ← List.append_assoc, ← List.append_assoc,
          ← houtstanding]
        rfl
      · refine hend.imp_right fun hle => ?_
        simp only [Option.toList, List.length_append, List.length_singleton] at hle ⊢
        omega

/-! ## Runs -/

theorem nextPending?_of_pending {items : List Item} {index : Nat} {i : Item}
    (hitem : items[index]? = some i) (hpending : i.executed = false) :
    nextPending? items index = some (index, i) := by
  induction items generalizing index with
  | nil => simp at hitem
  | cons first rest ih =>
    cases index with
    | zero =>
      cases hitem
      simp [nextPending?, hpending]
    | succ index => simp [nextPending?, ih (by simpa using hitem)]

theorem nextPending?_of_executed {items : List Item} {index : Nat} {i : Item}
    (hitem : items[index]? = some i) (hexecuted : i.executed = true) :
    nextPending? items index = nextPending? items (index + 1) := by
  induction items generalizing index with
  | nil => simp at hitem
  | cons first rest ih =>
    cases index with
    | zero =>
      cases hitem
      simp [nextPending?, hexecuted]
    | succ index => simp [nextPending?, ih (by simpa using hitem)]

/-- Without a library the loop comes to what the walk over the queue comes to. -/
theorem walk_of_turns {p : Place ε} {turns : Nat} {items : List Item}
    {result : Stop × Nat × Session ε} (h : Turns .empty b bound p turns items result)
    (hcount : p.count ≤ bound) :
    result = ((walk b (bound - p.count) p.index p.session).1,
      p.count + (walk b (bound - p.count) p.index p.session).2.1,
      (walk b (bound - p.count) p.index p.session).2.2) := by
  induction h with
  | @last p tried result hturn =>
    have htakes := takes_turn .empty b bound p
    rw [hturn] at htakes
    cases htakes with
    | finished hitem =>
      rw [walk, nextPending?_of_length_le (List.getElem?_eq_none_iff.mp hitem)]
      rfl
    | paused hitem hpending hbound =>
      rw [Nat.sub_eq_zero_of_le hbound, walk, nextPending?_of_pending hitem hpending]
      rfl
    | failed hitem hpending hbound hrun =>
      obtain ⟨left, hleft⟩ := Nat.exists_eq_add_of_lt hbound
      rw [Item.resolve_empty] at hrun
      rw [show bound - p.count = left + 1 by omega, walk, nextPending?_of_pending hitem hpending]
      simp only [hrun]
      rfl
  | @next p q tried turns items result hturn rest ih =>
    have htakes := takes_turn .empty b bound p
    rw [hturn] at htakes
    cases htakes with
    | passed hitem hexecuted =>
      have hwalk : walk b (bound - p.count) p.index p.session =
          walk b (bound - p.count) (p.index + 1) p.session := by
        unfold walk
        rw [nextPending?_of_executed hitem hexecuted]
      rw [hwalk]
      exact ih hcount
    | @executed i v t hitem hpending hbound hrun =>
      rw [Item.resolve_empty] at hrun
      obtain ⟨left, hleft⟩ := Nat.exists_eq_add_of_lt hbound
      have hrest : bound - (p.count + 1) = left := by omega
      have hwalk := ih hbound
      simp only [hrest] at hwalk
      rw [show bound - p.count = left + 1 by omega, walk, nextPending?_of_pending hitem hpending]
      simp only [hrun, hwalk]
      rw [Nat.add_assoc, Nat.add_comm 1]

/-- What a run makes of the end of its loop: it fails, formats the last result, or settles on it. -/
def conclude (b : Backend ε) (returnKey : Value) : Stop × Nat × Session ε → Answer × Session ε
  | (.failed e, _, s) => (some (.error e), s)
  | (_, count, s) =>
    match s.chain.formatter with
    | some schema => formatLast b schema count s
    | none =>
      let (outcome, s) := s.settle returnKey
      (some outcome, s)

theorem process_eq_conclude (b : Backend ε) (bound : Nat) (returnKey : Value) (s : Session ε) :
    process b (.steps bound) returnKey s = conclude b returnKey (walk b bound 0 s) := by
  unfold process walkThen
  rw [show (Limit.steps bound).budget = bound from rfl]
  rcases walk b bound 0 s with ⟨stop, count, t⟩
  cases stop <;> rfl

theorem exists_answer_formatLast (b : Backend ε) (schema : Schema) (count : Nat) (s : Session ε) :
    ∃ outcome, (formatLast b schema count s).1 = some outcome := by
  unfold formatLast
  split
  · split
    · exact ⟨_, rfl⟩
    have hapart : ∃ outcome, (reshapeApart b s.chain.last schema s).1 = some outcome := by
      unfold reshapeApart
      split
      · exact ⟨_, rfl⟩
      · next fresh hstart =>
        have hsettles : Settles b (0 + 2) (processPlain b (.all 2) .null) := settles_processPlain 2
        exact ⟨_, (comes_reshapeWith hsettles hstart s.channel s.env s.chain.last schema).1⟩
    split
    · exact ⟨_, rfl⟩
    · next answer t hne heq =>
      rw [heq] at hapart
      exact hapart
  · exact ⟨_, rfl⟩

theorem exists_answer_conclude (b : Backend ε) (returnKey : Value)
    (result : Stop × Nat × Session ε) :
    ∃ outcome, (conclude b returnKey result).1 = some outcome := by
  unfold conclude
  split
  · exact ⟨_, rfl⟩
  split
  · exact exists_answer_formatLast b _ _ _
  · exact ⟨_, rfl⟩

theorem wellFormed_conclude (b : Backend ε) (returnKey : Value) {result : Stop × Nat × Session ε}
    (h : result.2.2.chain.WellFormed) : (conclude b returnKey result).2.chain.WellFormed := by
  unfold conclude
  split
  · exact h
  next count s _ =>
  split
  · next schema _ =>
    obtain ⟨value, formatted, hchain⟩ := chain_formatLast b schema count s
    rw [hchain]
    exact ⟨h.opened, h.overt, h.orderly⟩
  · obtain ⟨value, hchain⟩ := chain_settle s returnKey
    simp only [hchain]
    exact ⟨h.opened, h.overt, h.orderly⟩

/-- **Runs with a bound end.**  On a well-formed chain, as every reachable chain is and as the run
leaves it, the loop of a run ends after finitely many turns, also if hooks queue themselves
whenever they run.  It has executed no more items than the bound allows, the one that fails
included, and the run concludes with an answer.  If no step failed and no hook retries or sets a
system prompt, it has executed, in order, what was pending or was appended, up to the bound.
Without a library this is what `process` does. -/
theorem process_within (library : Library) (hlibrary : library.Obeys Rule.overt) {s : Session ε}
    (hs : s.chain.WellFormed) (b : Backend ε) (bound : Nat) (returnKey : Value) :
    (∃ turns items result, Turns library b bound ⟨0, 0, s⟩ turns items result) ∧
    ∀ turns items result, Turns library b bound ⟨0, 0, s⟩ turns items result →
      items.length ≤ bound ∧
      (∃ outcome, (conclude b returnKey result).1 = some outcome) ∧
      (conclude b returnKey result).2.chain.WellFormed ∧
      (library = .empty → process b (.steps bound) returnKey s = conclude b returnKey result) ∧
      (s.chain.Obeys Rule.appending False → library.Obeys Rule.appending →
        (∀ e, result.1 ≠ .failed e) →
          items.map Item.serial = ((s.chain.due result.2.2.chain).map Item.serial).take bound ∧
          items.length = min bound (s.chain.due result.2.2.chain).length) := by
  refine ⟨exists_turns library b bound _, fun turns items result h => ?_⟩
  have hlength := length_le_of_turns h
  refine ⟨hlength, exists_answer_conclude b returnKey result,
    wellFormed_conclude b returnKey (wellFormed_turns hlibrary h hs), ?_, ?_⟩
  · rintro rfl
    rw [process_eq_conclude, walk_of_turns h (Nat.zero_le bound)]
    simp only [Nat.zero_add, Nat.sub_zero]
  · intro hobeys happending hok
    obtain ⟨new, hserials, haccount, hend⟩ := outstanding_turns happending h hs hobeys (by simp) hok
    have htake : items.map Item.serial =
        ((s.chain.due result.2.2.chain).map Item.serial).take bound := by
      rw [Chain.serials_due hserials, ← haccount]
      rcases hend with hdone | hfull
      · rw [hdone, List.append_nil, List.take_of_length_le (by simpa using hlength)]
      · refine (List.take_left' ?_).symm
        simp only [List.length_map, Nat.sub_zero] at hlength hfull ⊢
        exact Nat.le_antisymm hlength hfull
    refine ⟨htake, ?_⟩
    simpa using congrArg List.length htake

def echoing : Library := fun name =>
  if name = "echo" then
    some fun _ =>
      .call (.hook (.text "echo") "echo" fun _ => .finish (.ok .null)) fun _ => .finish (.ok .null)
  else none

/-- Of a hook that queues itself, three runs are made if three are allowed, and the fourth is
pending. -/
theorem process_within_echoing :
    let s := ((scripted []).perform Backend.scripted
      (.hook (.text "echo") "echo" fun _ => .finish (.ok .null))).2
    ∃ items result, Turns echoing Backend.scripted 3 ⟨0, 0, s⟩ 4 items result ∧
      result.1 = .paused ∧ (s.chain.due result.2.2.chain).length = 4 ∧ items.length = 3 := by
  intro s
  have hechoing : echoing.Obeys Rule.appending := by
    intro name run hrun
    unfold echoing at hrun
    split at hrun
    · cases hrun
      simp [Script.Obeys, Command.Obeys, Rule.appending, Rule.onward, Rule.overt]
    · cases hrun
  have hs : Reachable s := by
    apply (reachable_scripted []).perform
    · simp
    · simp [Command.Obeys, Script.Obeys]
  have hobeys : s.chain.Obeys Rule.appending False := by
    intro i hi _
    rw [List.mem_singleton.mp hi]
    simp [Step.Obeys, Script.Obeys]
  obtain ⟨items, result, hturns, hpaused, hdue⟩ :
      ∃ items result, Turns echoing Backend.scripted 3 ⟨0, 0, s⟩ 4 items result ∧
        result.1 = .paused ∧ (s.chain.due result.2.2.chain).length = 4 :=
    ⟨_, _, .next rfl (.next rfl (.next rfl (.last rfl))), rfl, rfl⟩
  have hok : ∀ e, result.1 ≠ .failed e := by simp [hpaused]
  have hwithin := (process_within echoing (hechoing.mono fun _ _ h => h.1.1) hs.wellFormed
    Backend.scripted 3 .null).2 _ _ _ hturns
  have hlength := (hwithin.2.2.2.2 hobeys hechoing hok).2
  rw [hdue] at hlength
  exact ⟨items, result, hturns, hpaused, hdue, hlength⟩

end Session

end PromptChain
