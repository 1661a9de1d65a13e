import Mathlib.Data.List.Nodup
import PromptChain.Telemetry
/-!
# Channels

What a dispatch does to a channel: the sinks that are attached are called with the report, whatever
they do, and the mailboxes are given it (`exists_dispatch_eq`).  Nothing else of the channel
changes but the sinks that the sinks themselves attach and detach.
-/

namespace PromptChain.Telemetry

variable {π : Type}

namespace Mailbox

theorem size_eq_nil : 0 = ([] : List (Report π)).length + ([] : List (Report π)).length := rfl

variable (m : Mailbox π) (r : Report π)

@[simp] theorem bound_put : (m.put r).bound = m.bound := by
  unfold put
  split <;> rfl

@[simp] theorem flaw_put : (m.put r).flaw = m.flaw := by
  unfold put
  split <;> rfl

@[simp] theorem subscribed_put : (m.put r).subscribed = m.subscribed := by
  unfold put
  split <;> rfl

theorem size_put : (m.put r).size = if m.subscribed && !m.isFull then m.size + 1 else m.size := by
  unfold put
  split <;> rfl

@[simp] theorem bound_take : m.take.2.bound = m.bound := by
  unfold take
  split
  · rfl
  · split <;> rfl

@[simp] theorem subscribed_take : m.take.2.subscribed = m.subscribed := by
  unfold take
  split
  · rfl
  · split <;> rfl

theorem size_take : m.take.2.size = m.size - 1 := by
  rw [← length_reports, reports_snd_take, List.length_tail, length_reports]

theorem take_reports : m.take.1.toList ++ m.take.2.reports = m.reports := by
  rw [fst_take, reports_snd_take]
  cases m.reports <;> rfl

end Mailbox

namespace Channel

/-! ## Sinks -/

def calls (sink : String) (c : Channel π) : List (Report π) :=
  (c.delivered.filter fun call => call.1 = sink).map Prod.snd

def joined (sinks : List String) (sink : String) : List String :=
  if sink ∈ sinks then sinks else sinks ++ [sink]

theorem attach_eq (c : Channel π) (sink : String) :
    c.attach sink = { c with sinks := joined c.sinks sink } := by
  unfold attach joined
  split <;> rfl

theorem foldl_attach_eq (names : List String) (c : Channel π) :
    names.foldl attach c = { c with sinks := names.foldl joined c.sinks } := by
  induction names generalizing c with
  | nil => rfl
  | cons name rest ih => rw [List.foldl_cons, ih, attach_eq]; rfl

theorem foldl_detach_eq (names : List String) (c : Channel π) :
    names.foldl detach c = { c with sinks := names.foldl List.erase c.sinks } := by
  induction names generalizing c with
  | nil => rfl
  | cons name rest ih => exact ih _

theorem nodup_joined {sinks : List String} (h : sinks.Nodup) (sink : String) :
    (joined sinks sink).Nodup := by
  unfold joined
  split
  · exact h
  · next hsink => exact List.nodup_append.mpr ⟨h, List.nodup_singleton _, by grind⟩

theorem mem_joined {sinks : List String} {sink other : String} :
    other ∈ joined sinks sink ↔ other = sink ∨ other ∈ sinks := by
  unfold joined
  split <;> grind

theorem deliver_eq (r : Report π) (c : Channel π) (sink : String) :
    c.deliver r sink = (c.call r sink).2 := by
  unfold deliver
  split
  · next heq => rw [heq]
  · next heq => rw [heq]

def stirred (c : Channel π) (latest : List (String × Report π)) (sink : String)
    (sinks : List String) : List String :=
  (c.react sink latest).attach.foldl joined ((c.react sink latest).detach.foldl List.erase sinks)

theorem deliver_eq_stirred (r : Report π) (c : Channel π) (sink : String) :
    c.deliver r sink =
      { c with
        latest := (sink, r) :: c.latest
        sinks := stirred c ((sink, r) :: c.latest) sink c.sinks } := by
  rw [deliver_eq, call]
  dsimp only
  rw [foldl_detach_eq, foldl_attach_eq]
  split <;> rfl

/-! ## Dispatching -/

section

variable {c : Channel π} {P : List String → Prop}
  (hstirred : ∀ latest sink sinks, P sinks → P (stirred c latest sink sinks)) (h : P c.sinks)
include hstirred h

theorem exists_foldl_deliver_eq (r : Report π) (names : List String) :
    ∃ sinks, P sinks ∧ names.foldl (deliver r) c =
      { c with latest := (names.map fun name => (name, r)).reverse ++ c.latest, sinks } := by
  induction names generalizing c with
  | nil => exact ⟨c.sinks, h, rfl⟩
  | cons name rest ih =>
    have hstep := deliver_eq_stirred r c name
    obtain ⟨sinks, hsinks, hrest⟩ := ih (c := c.deliver r name)
      (by rw [hstep]; exact hstirred) (by rw [hstep]; exact hstirred _ _ _ h)
    refine ⟨sinks, hsinks, ?_⟩
    rw [List.foldl_cons, hrest, hstep]
    simp

/-- **What a dispatch does**, where `P` stays true of the sinks whatever they do. -/
theorem exists_dispatch_eq (name : Value) (payload : π) :
    ∃ sinks, P sinks ∧ c.dispatch name payload =
      if c.enabled then
        { c with
          latest := (c.sinks.map fun sink => (sink, c.report name payload)).reverse ++ c.latest
          sinks
          mailboxes := c.mailboxes.map fun m => m.put (c.report name payload) }
      else c := by
  obtain ⟨sinks, hsinks, hcalled⟩ :=
    exists_foldl_deliver_eq hstirred h (c.report name payload) c.sinks
  by_cases hattached : c.attached = true
  · refine ⟨sinks, hsinks, ?_⟩
    simp only [dispatch, hattached, hcalled, Bool.and_true]
  · -- Nobody listens: no sink is attached, and all mailboxes are left as they are.
    obtain ⟨hnone, hsilent⟩ : c.sinks = [] ∧ ∀ m ∈ c.mailboxes, m.subscribed = false := by
      simpa [attached] using hattached
    have hkept : c.mailboxes.map (fun m => m.put (c.report name payload)) = c.mailboxes := by
      rw [List.map_congr_left (g := id) fun m hm => by simp [Mailbox.put, hsilent m hm],
        List.map_id]
    refine ⟨c.sinks, h, ?_⟩
    rw [dispatch, if_neg (by simp [hattached]), hkept, List.map_eq_nil_iff.mpr hnone]
    split <;> rfl

end

theorem nodup_stirred (c : Channel π) (latest : List (String × Report π)) (sink : String)
    (sinks : List String) (h : sinks.Nodup) : (stirred c latest sink sinks).Nodup := by
  have hfolds : ∀ (f : List String → String → List String),
      (∀ sinks name, sinks.Nodup → (f sinks name).Nodup) → ∀ (names sinks : List String),
      sinks.Nodup → (names.foldl f sinks).Nodup := by
    intro f hf names
    induction names with
    | nil => exact fun sinks h => h
    | cons name rest ih => exact fun sinks h => ih _ (hf _ _ h)
  exact hfolds _ (fun _ name h => nodup_joined h name) _ _
    (hfolds _ (fun _ _ h => h.erase _) _ _ h)

section

variable (c : Channel π) (name : Value) (payload : π)

theorem dispatch_eq :
    ∃ sinks, c.dispatch name payload =
      if c.enabled then
        { c with
          latest := (c.sinks.map fun sink => (sink, c.report name payload)).reverse ++ c.latest
          sinks
          mailboxes := c.mailboxes.map fun m => m.put (c.report name payload) }
      else c := by
  obtain ⟨sinks, -, h⟩ := exists_dispatch_eq (c := c) (P := fun _ => True)
    (fun _ _ _ _ => trivial) trivial name payload
  exact ⟨sinks, h⟩

@[simp] theorem enabled_dispatch : (c.dispatch name payload).enabled = c.enabled := by
  obtain ⟨sinks, h⟩ := dispatch_eq c name payload
  rw [h]
  split <;> rfl

@[simp] theorem clock_dispatch : (c.dispatch name payload).clock = c.clock := by
  obtain ⟨sinks, h⟩ := dispatch_eq c name payload
  rw [h]
  split <;> rfl

@[simp] theorem react_dispatch : (c.dispatch name payload).react = c.react := by
  obtain ⟨sinks, h⟩ := dispatch_eq c name payload
  rw [h]
  split <;> rfl

theorem mailboxes_dispatch :
    (c.dispatch name payload).mailboxes =
      if c.enabled then c.mailboxes.map fun m => m.put (c.report name payload)
      else c.mailboxes := by
  obtain ⟨sinks, h⟩ := dispatch_eq c name payload
  rw [h]
  split <;> rfl

theorem latest_dispatch :
    (c.dispatch name payload).latest =
      if c.enabled then
        (c.sinks.map fun sink => (sink, c.report name payload)).reverse ++ c.latest
      else c.latest := by
  obtain ⟨sinks, h⟩ := dispatch_eq c name payload
  rw [h]
  split <;> rfl

theorem nodup_dispatch (h : c.sinks.Nodup) : (c.dispatch name payload).sinks.Nodup := by
  obtain ⟨sinks, hsinks, hdispatch⟩ := exists_dispatch_eq (nodup_stirred c) h name payload
  rw [hdispatch]
  split
  · exact hsinks
  · exact h

/-- A dispatch calls each sink that is attached, and each of them once. -/
theorem calls_dispatch (h : c.sinks.Nodup) (sink : String) :
    (c.dispatch name payload).calls sink =
      c.calls sink ++
        if c.enabled && sink ∈ c.sinks then [c.report name payload] else [] := by
  have hcalled : (c.sinks.map fun sink => (sink, c.report name payload)).filter
      (fun call => call.1 = sink) =
      List.replicate (c.sinks.count sink) (sink, c.report name payload) := by
    rw [List.filter_map, show ((fun call : String × Report π => decide (call.1 = sink)) ∘
      fun sink => (sink, c.report name payload)) = (· == sink) from rfl, List.filter_beq,
      List.map_replicate]
  rw [calls, delivered, latest_dispatch]
  cases c.enabled with
  | false => simp [calls, delivered]
  | true =>
    by_cases hsink : sink ∈ c.sinks
    · simp [calls, delivered, hcalled, hsink, List.count_eq_one_of_mem h hsink]
    · simp [calls, delivered, hcalled, hsink, List.count_eq_zero_of_not_mem hsink]

end

/-! ## Mailboxes -/

def mailbox (c : Channel π) (number : Nat) : Mailbox π :=
  c.mailboxes[number]?.getD
    { bound := none, size_eq := Mailbox.size_eq_nil, subscribed := false }

theorem mailboxOf_int (size : Int) : mailboxOf (.int size) = ({ bound := boundOf size } : Mailbox π) :=
  rfl

section

variable (c : Channel π) (number : Nat)

theorem mailbox_of_getElem? {m : Mailbox π} (h : c.mailboxes[number]? = some m) :
    c.mailbox number = m := by
  rw [mailbox, h, Option.getD_some]

theorem exists_getElem? (h : number < c.mailboxes.length) :
    c.mailboxes[number]? = some (c.mailbox number) := by
  rw [mailbox, List.getElem?_eq_getElem h, Option.getD_some]

theorem mailbox_dispatch (name : Value) (payload : π) :
    (c.dispatch name payload).mailbox number =
      if c.enabled then (c.mailbox number).put (c.report name payload) else c.mailbox number := by
  simp only [mailbox, mailboxes_dispatch]
  cases c.enabled with
  | false => rfl
  | true =>
    cases h : c.mailboxes[number]? with
    | none => simp [h, Mailbox.put]
    | some m => simp [h]

theorem mailbox_subscribe (size : Value) :
    (c.subscribe size).1.mailbox number =
      if number = c.mailboxes.length then mailboxOf size else c.mailbox number := by
  rw [mailbox, subscribe, List.getElem?_append]
  rcases Nat.lt_trichotomy number c.mailboxes.length with h | h | h
  · rw [if_pos h, if_neg (by omega), mailbox]
  · simp [h]
  · rw [if_neg (by omega), if_neg (by omega), mailbox, List.getElem?_eq_none (l := c.mailboxes)
      (by omega), List.getElem?_eq_none (by rw [List.length_singleton]; omega)]

theorem mailbox_modify (other : Nat) (f : Mailbox π → Mailbox π)
    (hf : f { bound := none, subscribed := false } = { bound := none, subscribed := false }) :
    mailbox { c with mailboxes := c.mailboxes.modify other f } number =
      if other = number then f (c.mailbox number) else c.mailbox number := by
  simp only [mailbox, List.getElem?_modify]
  split
  · cases c.mailboxes[number]? with
    | none => exact hf.symm
    | some m => rfl
  · cases c.mailboxes[number]? <;> rfl

theorem mailbox_unsubscribe (other : Nat) :
    (c.unsubscribe other).mailbox number =
      if other = number then { c.mailbox number with subscribed := false }
      else c.mailbox number :=
  mailbox_modify c number other (fun m => { m with subscribed := false }) rfl

theorem fst_take : (c.take number).1 = (c.mailbox number).take.1 := by
  unfold take
  split
  · next m hm => rw [mailbox_of_getElem? c number hm]
  · next hm => rw [mailbox, hm]; rfl

theorem snd_take (other : Nat) :
    (c.take other).2 =
      { c with mailboxes := c.mailboxes.modify other fun m => m.take.2 } := by
  unfold take
  split
  · next m hm =>
    have hset : c.mailboxes.set other m.take.2 =
        c.mailboxes.modify other fun m => m.take.2 := by
      apply List.ext_getElem?
      intro i
      grind
    simp [hset]
  · next hm => rw [List.modify_eq_self (by simpa using hm)]

theorem mailbox_take (other : Nat) :
    (c.take other).2.mailbox number =
      if other = number then (c.mailbox number).take.2 else c.mailbox number := by
  rw [snd_take, mailbox_modify c number other _ rfl]

end

end Channel

end PromptChain.Telemetry
