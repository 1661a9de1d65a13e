import PromptChain.Proofs.Chain.Flags
/-!
# Failing steps

A step that is refused, because its message cannot be resolved, because the provider fails, or
because no such provider is registered, leaves everything as the steps before it have left it.  It
is pending, and so are the steps behind it, which no walk has come to.
-/

namespace PromptChain

/-! ## The steps behind a walk -/

def Chain.taskItems (c : Chain) : List Item := c.queue.entries.filter fun i => !i.isSystem

/-- Whether an item was queued after a chain was what it is, and is as it was queued. -/
structure Chain.Precedes (c : Chain) (i : Item) : Prop where
  serial : c.created ≤ i.serial
  fresh : i.Fresh

/-- Whether the tasks of a chain are those of an earlier one, in their places and unchanged but for
the one with a serial number, and new ones. -/
structure Chain.Carries (serial : Nat) (c d : Chain) : Prop where
  created : c.created ≤ d.created
  tasks : ∀ (k : Nat) (j : Item), d.taskItems[k]? = some j → c.Precedes j ∨
    ∃ i, c.taskItems[k]? = some i ∧ j.serial = i.serial ∧ (i.serial ≠ serial → j = i)

namespace Chain

variable {c d : Chain} {serial : Nat}

theorem taskItems_perform (hopen : c.queue.incognito = false) {command : Command}
    (hovert : ∀ index kind, command ≠ .retype index kind) (hretry : command ≠ .retry) :
    c.created ≤ (c.perform command).2.1.created ∧
      ∃ new, (c.perform command).2.1.taskItems = c.taskItems ++ new ∧
        ∀ j ∈ new, c.Precedes j := by
  have hperforms := c.performs command
  generalize (c.perform command).2.1 = d at hperforms ⊢
  cases hperforms with
  | beside => exact ⟨Nat.le_refl _, [], by simp [taskItems], by simp⟩
  | append label step hkind _ _ _ hfresh =>
    refine ⟨Nat.le_succ _, [{ serial := c.created, label, step }], ?_, ?_⟩
    · simp [taskItems, entries_append hopen, Item.isSystem, hkind]
    · intro j hj
      rw [List.mem_singleton.mp hj]
      exact ⟨Nat.le_refl _, rfl, hfresh⟩
  | system lines =>
    have hdrop : c.dropSystem.1.taskItems = c.taskItems := by
      simp [taskItems, dropSystem, Journal.filter, Journal.retain]
    unfold system
    cases lines.joinInput with
    | error e => exact ⟨Nat.le_refl _, [], by simp [hdrop], by simp⟩
    | ok text =>
      refine ⟨Nat.le_succ _, [], ?_, by simp⟩
      rw [List.append_nil, ← hdrop]
      simp [taskItems, prependSystem, dropSystem, Journal.filter, Journal.retain, Journal.unshift,
        hopen, Item.isSystem, Step.kind]
  | retry => exact absurd rfl hretry
  | format schema => exact ⟨Nat.le_refl _, [], by simp [taskItems], by simp⟩
  | retype index kind => exact absurd rfl (hovert index kind)

theorem Carries.refl (serial : Nat) (c : Chain) : c.Carries serial c where
  created := Nat.le_refl _
  tasks _ j hj := .inr ⟨j, hj, rfl, fun _ => rfl⟩

theorem Carries.perform (h : c.Carries serial d) (hopen : d.queue.incognito = false)
    {command : Command} (hovert : ∀ index kind, command ≠ .retype index kind)
    (hretry : command ≠ .retry) : c.Carries serial (d.perform command).2.1 := by
  obtain ⟨hcreated, new, htasks, hnew⟩ := taskItems_perform hopen hovert hretry
  refine ⟨Nat.le_trans h.created hcreated, fun k j hj => ?_⟩
  rw [htasks] at hj
  rcases Nat.lt_or_ge k d.taskItems.length with hk | hk
  · rw [List.getElem?_append_left hk] at hj
    exact h.tasks k j hj
  · rw [List.getElem?_append_right hk] at hj
    have hfresh := hnew j (List.mem_of_getElem? hj)
    exact .inl ⟨Nat.le_trans h.created hfresh.serial, hfresh.fresh⟩

theorem taskItems_modifyItem {f : Item → Item}
    (hf : ∀ j ∈ d.queue.entries, j.serial = serial → (f j).isSystem = j.isSystem) :
    (d.modifyItem serial f).taskItems =
      d.taskItems.map fun j => if j.serial = serial then f j else j := by
  simp only [taskItems, modifyItem, List.filter_map]
  congr 1
  apply List.filter_congr
  intro j hj
  by_cases hserial : j.serial = serial
  · simp [hserial, hf j hj hserial]
  · simp [hserial]

theorem Carries.modifyItem (h : c.Carries serial d) (hserial : serial < c.created)
    {f : Item → Item} (hf : ∀ j ∈ d.queue.entries, j.serial = serial →
      (f j).isSystem = j.isSystem ∧ (f j).serial = j.serial) :
    c.Carries serial (d.modifyItem serial f) := by
  refine ⟨h.created, fun k j hj => ?_⟩
  rw [taskItems_modifyItem fun j hj heq => (hf j hj heq).1, List.getElem?_map,
    Option.map_eq_some_iff] at hj
  obtain ⟨l, hl, rfl⟩ := hj
  rcases h.tasks k l hl with hfresh | ⟨i, hi, hsame, hkept⟩
  · have hne : l.serial ≠ serial := by
      have hle := hfresh.serial
      omega
    rw [if_neg hne]
    exact .inl hfresh
  · right
    refine ⟨i, hi, ?_⟩
    by_cases heq : l.serial = serial
    · have hmem : l ∈ d.queue.entries := (List.mem_filter.mp (List.mem_of_getElem? hl)).1
      rw [if_pos heq, (hf l hmem heq).2]
      exact ⟨hsame, fun hne => absurd (hsame.symm.trans heq) hne⟩
    · rw [if_neg heq]
      exact ⟨hsame, hkept⟩

end Chain

namespace Session

variable {ε : Type} {b : Backend ε}

theorem carries_execute {s : Session ε} {i : Item} (hwf : s.chain.WellFormed)
    (hi : i ∈ s.chain.queue.entries) (hpending : i.executed = false)
    (honward : i.step.Obeys Rule.onward) :
    s.chain.Carries i.serial (s.execute b i).2.chain := by
  have hcreated : i.serial < s.chain.created := (hwf.holds hi).created
  refine (execute_holding (b := b) (s.chain.Carries i.serial) ?_ hwf hi hpending
    (Chain.Carries.refl _ _) ?_ ?_).2.2
  · exact fun c history artifacts active systemText hc => ⟨hc.created, hc.tasks⟩
  · intro c f hf hholds hc
    refine hc.modifyItem hcreated fun j hj hserial => ⟨?_, hf.serial j⟩
    have hmark := hholds.unique j.mark (List.mem_map_of_mem hj) hserial
    exact congrArg Mark.isSystem (hf.mark (congrArg Mark.kind hmark))
  · intro g hg hwf' _ hc
    obtain ⟨⟨next, hovert, hretry⟩, -⟩ := orders_obey honward g hg
    exact hc.perform hwf'.opened hovert hretry

theorem carries_complete {s t : Session ε} {serial : Nat} (h : s.chain.Carries serial t.chain)
    (hserial : serial < s.chain.created) (v : Value) :
    s.chain.Carries serial (t.complete serial v).chain :=
  Chain.Carries.modifyItem (d := { t.chain with last := if v = .null then t.chain.last else v })
    (f := Item.done) ⟨h.created, h.tasks⟩ hserial fun _ _ _ => ⟨rfl, rfl⟩

end Session

namespace Chain

def Untouched (c : Chain) (i : Item) : Prop := i ∈ c.queue.entries ∨ c.Precedes i

/-- Whether no task from a position on was touched since a chain was what it is.  A task is at most
one place further back in the queue, so that the last one before the position may count as well; it
may also be executed. -/
def Ahead (origin c : Chain) (index : Nat) : Prop :=
  ∀ (k : Nat) (j : Item), c.taskItems[k]? = some j → index ≤ k + 1 →
    origin.Untouched j ∨ j.executed = true ∧ k < index

variable {c d origin : Chain}

theorem WellFormed.entries_cases (h : c.WellFormed) :
    c.queue.entries = c.taskItems ∨
      ∃ i, i.isSystem = true ∧ c.queue.entries = i :: c.taskItems := by
  have hfront := h.orderly.front
  unfold taskItems
  rw [marks] at hfront
  cases hentries : c.queue.entries with
  | nil => exact .inl rfl
  | cons i rest =>
    have hrest : (rest.filter fun j => !j.isSystem) = rest := by
      rw [List.filter_eq_self]
      intro j hj
      have hj' := hfront j.mark (by
        rw [hentries]
        exact List.mem_map_of_mem hj)
      simpa [Item.isSystem_mark] using hj'
    cases hi : i.isSystem with
    | false => exact .inl (by simp [hi, hrest])
    | true => exact .inr ⟨i, hi, by simp [hi, hrest]⟩

theorem WellFormed.place (h : c.WellFormed) {position : Nat} {i : Item}
    (hi : c.queue.entries[position]? = some i) (hsystem : i.isSystem = false) :
    ∃ k, c.taskItems[k]? = some i ∧ k ≤ position ∧ position ≤ k + 1 := by
  rcases h.entries_cases with heq | ⟨first, hfirst, heq⟩
  · exact ⟨position, heq ▸ hi, Nat.le_refl _, Nat.le_succ _⟩
  · rw [heq] at hi
    cases position with
    | zero =>
      cases hi
      rw [hfirst] at hsystem
      cases hsystem
    | succ k => exact ⟨k, hi, Nat.le_succ _, Nat.le_refl _⟩

theorem WellFormed.place_unique (h : c.WellFormed) {position k : Nat} {i j : Item}
    (hi : c.queue.entries[position]? = some i) (hj : c.taskItems[k]? = some j)
    (hserial : j.serial = i.serial) : k ≤ position := by
  have hplace : ∀ q : Nat, c.queue.entries[q]? = some j → q = position := by
    intro q hq
    have hq' : (c.marks.map Mark.serial)[q]? = some i.serial := by
      simp [marks, hq, Item.mark, hserial]
    have hi' : (c.marks.map Mark.serial)[position]? = some i.serial := by
      simp [marks, hi, Item.mark]
    exact (List.getElem?_inj (List.getElem?_eq_some_iff.mp hq').1 h.orderly.distinct).mp
      (hq'.trans hi'.symm)
  rcases h.entries_cases with heq | ⟨first, -, heq⟩
  · exact Nat.le_of_eq (hplace k (heq ▸ hj))
  · have hnext : c.queue.entries[k + 1]? = some j := by
      rw [heq]
      exact hj
    have hplaced := hplace (k + 1) hnext
    omega

theorem Ahead.step {index position : Nat} {i : Item} (h : origin.Ahead c index)
    (hwf : c.WellFormed) (hcreated : origin.created ≤ c.created)
    (hnext : nextPending? c.queue.entries index = some (position, i))
    (hcarries : c.Carries i.serial d)
    (hdone : ∀ j ∈ d.queue.entries, j.serial = i.serial → j.executed = true) :
    origin.Ahead d (position + 1) := by
  obtain ⟨hplace, hindex⟩ := getElem?_of_nextPending? hnext
  intro k j hj hk
  rcases hcarries.tasks k j hj with hfresh | ⟨l, hl, hserial, hkept⟩
  · exact .inl (.inr ⟨Nat.le_trans hcreated hfresh.serial, hfresh.fresh⟩)
  by_cases heq : l.serial = i.serial
  · have hle := hwf.place_unique hplace hl heq
    have hmem : j ∈ d.queue.entries := (List.mem_filter.mp (List.mem_of_getElem? hj)).1
    exact .inr ⟨hdone j hmem (hserial.trans heq), by omega⟩
  · rw [hkept heq]
    rcases h k l hl (by omega) with huntouched | ⟨-, hlt⟩
    · exact .inl huntouched
    · omega

theorem Ahead.untouched {index position : Nat} {i : Item} (h : origin.Ahead c index)
    (hwf : c.WellFormed) (hnext : nextPending? c.queue.entries index = some (position, i))
    (hsystem : i.isSystem = false) :
    ∀ j ∈ c.queue.entries.drop position, origin.Untouched j := by
  obtain ⟨hplace, hindex⟩ := getElem?_of_nextPending? hnext
  intro j hj
  obtain ⟨n, hn⟩ := List.mem_iff_getElem?.mp hj
  rw [List.getElem?_drop] at hn
  have htask : j.isSystem = false := by
    cases n with
    | zero =>
      rw [Nat.add_zero, hplace] at hn
      cases hn
      exact hsystem
    | succ n =>
      have htail : j.mark ∈ c.marks.tail := by
        rw [marks, ← List.map_tail]
        refine List.mem_map_of_mem (List.mem_iff_getElem?.mpr ⟨position + n, ?_⟩)
        rw [List.getElem?_tail]
        exact hn
      exact hwf.orderly.front _ htail
  obtain ⟨k, hk, hle, hge⟩ := hwf.place hn htask
  rcases h k j hk (by omega) with huntouched | ⟨hexecuted, hlt⟩
  · exact huntouched
  · -- Only the next pending step itself could stand here.
    obtain rfl : n = 0 := by omega
    rw [Nat.add_zero, hplace] at hn
    cases hn
    rw [Session.pending_of_nextPending? hnext] at hexecuted
    cases hexecuted

end Chain

/-- Whether a serial number was given, and no item that has it is pending. -/
def Spent (serial : Nat) (marks : List Mark) (created : Nat) : Prop :=
  serial < created ∧ ∀ m ∈ marks, m.serial = serial → m.executed = true

theorem Edit.spent {marks marks' : List Mark} {created created' serial : Nat} {command : Command}
    (hedit : Edit marks created command marks' created') (hretry : command ≠ .retry)
    (h : Spent serial marks created) : Spent serial marks' created' := by
  obtain ⟨hcreated, hexecuted⟩ := h
  cases hedit with
  | keep => exact ⟨hcreated, hexecuted⟩
  | append kind =>
    refine ⟨Nat.lt_succ_of_lt hcreated, fun m hm heq => ?_⟩
    rcases List.mem_append.mp hm with hm | hm
    · exact hexecuted m hm heq
    · rw [List.mem_singleton.mp hm] at heq
      exact absurd heq (Nat.ne_of_gt hcreated)
  | evict => exact ⟨hcreated, fun m hm => hexecuted m (List.mem_filter.mp hm).1⟩
  | replace =>
    refine ⟨Nat.lt_succ_of_lt hcreated, fun m hm heq => ?_⟩
    rcases List.mem_cons.mp hm with rfl | hm
    · exact absurd heq (Nat.ne_of_gt hcreated)
    · exact hexecuted m (List.mem_filter.mp hm).1 heq
  | stuck => exact absurd rfl hretry
  | undo => exact absurd rfl hretry

namespace Session

variable {ε : Type} {b : Backend ε}

theorem spent_complete {s : Session ε} {serial n : Nat}
    (h : n = serial ∨ ∀ m ∈ s.chain.marks, m.serial = n → m.executed = true) (v : Value) :
    ∀ m ∈ (s.complete serial v).chain.marks, m.serial = n → m.executed = true := by
  rw [marks_complete]
  intro m hm heq
  obtain ⟨l, hl, rfl⟩ := List.mem_map.mp hm
  rw [Mark.serial_finish] at heq
  unfold Mark.finish
  split
  · rfl
  · next hne =>
    rcases h with h | h
    · exact absurd (heq.trans h) hne
    · exact h l hl heq

theorem spent_execute {s : Session ε} {i : Item} {n : Nat} (hwf : s.chain.WellFormed)
    (hi : i ∈ s.chain.queue.entries) (hpending : i.executed = false)
    (honward : i.step.Obeys Rule.onward) (h : Spent n s.chain.marks s.chain.created) :
    Spent n (s.execute b i).2.chain.marks (s.execute b i).2.chain.created := by
  refine (execute_marks (b := b) (Spent n) hwf hi hpending h ?_).2.2
  intro g hg marks created _ _ hedit hspent
  obtain ⟨⟨next, -, hretry⟩, -⟩ := orders_obey honward g hg
  exact hedit.spent hretry hspent

/-- Steps that succeed one after the other stay executed, and a walk by them comes to no task behind
the position that it has reached. -/
theorem walks_onward {origin : Chain} {index last : Nat} {s t : Session ε} {done : List (Visit ε)}
    (h : Walks b index s done last t) (hwf : s.chain.WellFormed)
    (honward : s.chain.Obeys Rule.onward False) (hcreated : origin.created ≤ s.chain.created)
    (hahead : origin.Ahead s.chain index) :
    t.chain.WellFormed ∧ origin.Ahead t.chain last ∧
      (∀ n, Spent n s.chain.marks s.chain.created → Spent n t.chain.marks t.chain.created) ∧
      ∀ w ∈ done, Spent w.item.serial t.chain.marks t.chain.created := by
  induction h with
  | stay => exact ⟨hwf, hahead, fun n hn => hn, by simp⟩
  | @step index position last s t u i v done hnext hrun rest ih =>
    have hi := mem_of_nextPending? hnext
    have hpending := pending_of_nextPending? hnext
    have hstep : i.step.Obeys Rule.onward := honward i hi (.inr hpending)
    have htwf := wellFormed_execute (b := b) hwf hi hpending
    have htonward := obeys_execute (b := b) (fun _ _ h => ⟨h.1, h.2⟩) honward hstep
    have hcarries := carries_execute (b := b) hwf hi hpending hstep
    have hspent := fun n => spent_execute (b := b) (n := n) hwf hi hpending hstep
    rw [hrun] at htwf htonward hcarries hspent
    have hcarried := carries_complete hcarries (hwf.holds hi).created v
    have hself : Spent i.serial (t.complete i.serial v).chain.marks
        (t.complete i.serial v).chain.created :=
      ⟨Nat.lt_of_lt_of_le (hwf.holds hi).created hcarried.created, spent_complete (.inl rfl) v⟩
    have hnextAhead : origin.Ahead (t.complete i.serial v).chain (position + 1) :=
      hahead.step hwf hcreated hnext hcarried fun j hj => hself.2 j.mark (List.mem_map_of_mem hj)
    obtain ⟨huwf, hlast, hkept, hdone⟩ := ih (wellFormed_complete htwf _ _)
      (obeys_complete htonward _ _) (Nat.le_trans hcreated hcarried.created) hnextAhead
    refine ⟨huwf, hlast, fun n hn => ?_, fun w hw => ?_⟩
    · have hexecuted := hspent n hn
      exact hkept n ⟨hexecuted.1, spent_complete (.inr hexecuted.2) v⟩
    · rcases List.mem_cons.mp hw with rfl | hw
      · exact hkept _ hself
      · exact hdone w hw

/-! ## Refused steps -/

/-- Why a step may be refused: the message of a prompt cannot be resolved, the provider gives no
answer, or there is no such provider to change to. -/
inductive Visit.Refused (b : Backend ε) (v : Visit ε) (e : Fault) : Prop where
  | unresolved {p : Prompt} (hstep : v.item.step = .prompt p)
      (hmessage : p.message v.before.chain.artifacts = .error e)
  | unanswered {p : Prompt} {m : Message} {env : ε} (hstep : v.item.step = .prompt p)
      (hmessage : p.message v.before.chain.artifacts = .ok m)
      (hchat : b.chat v.before.chain.active (v.before.chain.history.entries ++ [m])
        v.before.chain.systemText v.before.env = (.error e, env))
  | unregistered {provider : Value} (hstep : v.item.step = .use provider)
      (hactivate : (v.before.activate provider).1 = .error e)

theorem chain_activate_of_error {s : Session ε} {provider : Value} {e : Fault}
    (h : (s.activate provider).1 = .error e) : (s.activate provider).2 = s := by
  unfold activate at h ⊢
  split at h
  · rfl
  · rfl
  · cases h

theorem Visit.Refused.execute {v : Visit ε} {e : Fault} (h : v.Refused b e) :
    ∃ env, v.before.execute b v.item = (.error e, { v.before with env }) := by
  cases h with
  | @unresolved p hstep hmessage =>
    refine ⟨v.before.env, ?_⟩
    simp [Session.execute, hstep, executePrompt, Prompt.send, hmessage]
  | @unanswered p m env hstep hmessage hchat =>
    refine ⟨env, ?_⟩
    simp [Session.execute, hstep, executePrompt, Prompt.send, hmessage, hchat]
  | @unregistered provider hstep hactivate =>
    refine ⟨v.before.env, ?_⟩
    have hchain := chain_activate_of_error hactivate
    rw [Session.execute, hstep]
    exact Prod.ext hactivate hchain

theorem Visit.Refused.isSystem {v : Visit ε} {e : Fault} (h : v.Refused b e) :
    v.item.isSystem = false := by
  cases h with
  | unresolved hstep => simp [Item.isSystem, hstep, Step.kind, Step.promptKind, Step.systemKind]
  | unanswered hstep => simp [Item.isSystem, hstep, Step.kind, Step.promptKind, Step.systemKind]
  | unregistered hstep => simp [Item.isSystem, hstep, Step.kind, Step.useKind, Step.systemKind]

/-- Whether a step may fail when it has changed something: a hook, or a prompt whose response cannot
be kept. -/
inductive Visit.Unguarded (v : Visit ε) : Prop where
  | hook {shown : String} {run : Hook} {runs : Nat} {result : Value}
      (hstep : v.item.step = .hook shown run runs result)
  | unkept {p : Prompt} (hstep : v.item.step = .prompt p) (hkey : ¬p.Keepable)

theorem Visit.refused_or_unguarded {v : Visit ε} {e : Fault} (hnative : v.item.step.Native)
    (h : v.outcome b = .error e) : v.Refused b e ∨ v.Unguarded := by
  obtain ⟨position, i, s⟩ := v
  rw [outcome, Session.execute] at h
  cases hstep : i.step with
  | prompt p =>
    simp only [hstep] at h
    have hsent := sent_executePrompt b s i.serial p
    generalize s.executePrompt b i.serial p = result at h hsent
    cases hsent with
    | unresolved hm =>
      cases h
      exact .inl (.unresolved hstep hm)
    | unanswered hm hchat =>
      cases h
      exact .inl (.unanswered hstep hm hchat)
    | answered hm hchat =>
      refine .inr (.unkept hstep fun hkeepable => ?_)
      simp only [keep_of_keepable hkeepable] at h
      cases h
  | hook shown run runs result => exact .inr (.hook hstep)
  | system text =>
    simp only [hstep, setSystem] at h
    cases h
  | use provider =>
    simp only [hstep] at h
    exact .inl (.unregistered hstep h)
  | foreign kind inner =>
    rw [hstep] at hnative
    exact hnative.elim

/-- How a run ends that a refused step breaks off.  The steps before it are done, and it leaves the
chain as they have left it.  It is pending, and so untouched as everything behind it. -/
structure BrokenOff (b : Backend ε) (s : Session ε) (done : List (Visit ε)) (v : Visit ε)
    (t : Session ε) : Prop where
  completed : ∃ index, Walks b 0 s done index v.before
  chain : t.chain = v.before.chain
  executed : ∀ w ∈ done, ∀ i ∈ t.chain.queue.entries, i.serial = w.item.serial → i.executed = true
  pending : t.chain.queue.entries[v.position]? = some v.item ∧ v.item.executed = false
  untouched : ∀ i ∈ t.chain.queue.entries.drop v.position, s.chain.Untouched i

/-- **Steps fail as a whole.** In every reachable session each item counts as executed exactly if
its prompt does.  If the pending hooks do not retry and a step fails, then the run raises its fault.
Unless the step is a hook or a prompt whose response cannot be kept, it was refused; and if it was
refused, the run leaves the chain exactly as the steps before it have left it: these count as
executed, and the refused step and all items behind it are as they were before the run, or as they
were queued since. -/
theorem matched_and_brokenOff {s : Session ε} (hs : Reachable s) :
    s.chain.Matched ∧
      ∀ (limit : Limit) (returnKey : Value) (e : Fault), s.chain.Obeys Rule.onward False →
        (walk b limit.budget 0 s).1 = .failed e →
        (process b limit returnKey s).1 = some (.error e) ∧
          ∃ done v, visits b limit.budget 0 s = done ++ [v] ∧ (v.Refused b e ∨ v.Unguarded) ∧
            (v.Refused b e → BrokenOff b s done v (process b limit returnKey s).2) := by
  refine ⟨hs.matched, fun limit returnKey e honward hfailed => ?_⟩
  have hprocess : process b limit returnKey s =
      (some (.error e), (walk b limit.budget 0 s).2.2) := by
    unfold process walkThen
    rcases hwalk : walk b limit.budget 0 s with ⟨stop, count, t⟩
    rw [hwalk] at hfailed
    cases hfailed
    rfl
  have horigin : s.chain.Ahead s.chain 0 := by
    intro k j hj _
    exact .inl (.inl (List.mem_filter.mp (List.mem_of_getElem? hj)).1)
  obtain ⟨done, index, t, hwalks, hends⟩ := walk_ends b limit.budget 0 s
  obtain ⟨hwf, hahead, -, hspent⟩ :=
    walks_onward hwalks hs.wellFormed honward (Nat.le_refl _) horigin
  rw [hprocess]
  refine ⟨rfl, ?_⟩
  generalize walk b limit.budget 0 s = result, visits b limit.budget 0 s = visited
    at hends hfailed
  cases hends with
  | finished => cases hfailed
  | paused => cases hfailed
  | @failed position i e' u hnext hrun =>
    cases hfailed
    have hnative := hwf.native i (mem_of_nextPending? hnext)
    have houtcome : (Visit.mk position i t).outcome b = .error e := by
      rw [Visit.outcome, hrun]
    refine ⟨done, ⟨position, i, t⟩, rfl, Visit.refused_or_unguarded hnative houtcome,
      fun hrefused => ?_⟩
    obtain ⟨env, hexecute⟩ := hrefused.execute
    rw [hrun] at hexecute
    obtain ⟨-, rfl⟩ := Prod.mk.inj hexecute
    refine ⟨⟨index, hwalks⟩, rfl, ?_, ⟨(getElem?_of_nextPending? hnext).1,
      pending_of_nextPending? hnext⟩, hahead.untouched hwf hnext hrefused.isSystem⟩
    intro w hw j hj hserial
    exact (hspent w hw).2 j.mark (List.mem_map_of_mem hj) hserial

/-- Of two prompts the first one is answered, and the provider fails at the second one. -/
theorem matched_and_brokenOff_offline :
    let b := Backend.scripted
    let s := (((scripted [.text "one"]).perform b (.prompt (.text "Hello"))).2.perform b
      (.prompt (.text "And then?"))).2
    let t := (process b (.all 2) .null s).2
    (process b (.all 2) .null s).1 = some (.error (.outside "ConnectionError" "offline")) ∧
      (∃ done v, visits b 2 0 s = done ++ [v] ∧ BrokenOff b s done v t) ∧
      t.chain.queue.entries.map Item.executed = [true, false] ∧
      t.chain.history.entries = [.user "Hello", .assistant (.text "one")] := by
  intro b s t
  have hs : Reachable s :=
    ((reachable_scripted _).perform b (by simp) (by simp [Command.Obeys])).perform b (by simp)
      (by simp [Command.Obeys])
  have honward : s.chain.Obeys Rule.onward False := by
    have hnew : (scripted [.text "one"]).chain.Obeys Rule.onward False :=
      fun i hi => absurd hi (by simp [scripted])
    have hfirst := hnew.perform (.prompt (.text "Hello")) (by simp [Command.Obeys]) (by simp)
      (by simp)
    exact hfirst.perform (.prompt (.text "And then?")) (by simp [Command.Obeys]) (by simp)
      (by simp)
  have hfailed : (walk b 2 0 s).1 = .failed (.outside "ConnectionError" "offline") := by
    decide +kernel
  obtain ⟨hanswer, done, v, hvisits, hrefused, hbroken⟩ :=
    (matched_and_brokenOff hs).2 (.all 2) .null _ honward hfailed
  have hstep : v.item.step = .prompt { content := "And then?" } := by
    have hlast : ((visits b (Limit.all 2).budget 0 s).getLast?.map fun v => v.item.step) =
        some (.prompt { content := "And then?" }) := rfl
    rw [hvisits] at hlast
    simpa using hlast
  refine ⟨hanswer, ⟨done, v, hvisits, hbroken (hrefused.resolve_right ?_)⟩, by decide +kernel,
    by decide +kernel⟩
  rintro (hhook | ⟨hprompt, hkey⟩)
  · rw [hstep] at hhook
    cases hhook
  · rw [hstep] at hprompt
    cases hprompt
    exact hkey fun key hkept => by cases hkept

end Session

end PromptChain
