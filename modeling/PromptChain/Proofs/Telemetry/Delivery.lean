import PromptChain.Proofs.Telemetry.Channels
/-!
# Delivery

What everybody who listens to a channel has been given after any history of changes, dispatches and
takings.  What somebody is due is read off the history alone: a sink is due what was dispatched
while it was attached, a mailbox what was dispatched while it was subscribed and had room.  That is
what they get (`delivery`), although sinks may raise at any call.
-/

namespace PromptChain.Telemetry.Channel

variable {π : Type}

/-! ## Histories -/

inductive Event (π : Type) where
  | tune (change : Tuning)
  | tick (clock : Binary64)
  | dispatch (name : Value) (payload : π)
  | take (number : Nat)

def happen (c : Channel π) : Event π → Channel π
  | .tune change => c.tune change
  | .tick clock => { c with clock }
  | .dispatch name payload => c.dispatch name payload
  | .take number => (c.take number).2

/-- A channel after a history, in which the latest event comes first. -/
def after (c : Channel π) : List (Event π) → Channel π
  | [] => c
  | event :: past => (c.after past).happen event

/-- A channel that nobody listens to yet, and whose sinks will at most raise. -/
def opened (on : Bool) (start : Binary64)
    (raises : String → List (String × Report π) → Option Fault) : Channel π :=
  { enabled := on, clock := start, react := fun sink latest => { failure := raises sink latest } }

section

variable (on : Bool) (start : Binary64)

def isOn : List (Event π) → Bool
  | [] => on
  | .tune (.enable now) :: _ => now
  | _ :: past => isOn past

def time : List (Event π) → Binary64
  | [] => start
  | .tick now :: _ => now
  | _ :: past => time past

def isAttached (sink : String) : List (Event π) → Bool
  | [] => false
  | .tune (.attach other) :: past => other = sink || isAttached sink past
  | .tune (.detach other) :: past => other ≠ sink && isAttached sink past
  | _ :: past => isAttached sink past

def sizes : List (Event π) → List Int
  | [] => []
  | .tune (.subscribe size) :: past => sizes past ++ [size]
  | _ :: past => sizes past

def isSubscribed (number : Nat) : List (Event π) → Bool
  | [] => false
  | .tune (.subscribe _) :: past => number = (sizes past).length || isSubscribed number past
  | .tune (.unsubscribe other) :: past => other ≠ number && isSubscribed number past
  | _ :: past => isSubscribed number past

/-- The number of reports in a mailbox of a size after a history: one more for each report that was
dispatched while it was subscribed and held fewer than its size, one less for each taking. -/
def load (number : Nat) (size : Int) : List (Event π) → Nat
  | [] => 0
  | .dispatch _ _ :: past =>
    if isOn on past && isSubscribed number past && (size ≤ 0 || load number size past < size) then
      load number size past + 1
    else load number size past
  | .take other :: past =>
    if other = number then load number size past - 1 else load number size past
  | _ :: past => load number size past

def hasRoom (number : Nat) (size : Int) (past : List (Event π)) : Bool :=
  isOn on past && isSubscribed number past && (size ≤ 0 || load on number size past < size)

/-- The reports that were dispatched in a history at the moments at which something held, in order.
It is asked of the history before the moment. -/
def dispatched (held : List (Event π) → Bool) : List (Event π) → List (Report π)
  | [] => []
  | .dispatch name payload :: past =>
    dispatched held past ++
      if held past then [⟨name, .real (time start past * Binary64.ofInt 1000), payload⟩] else []
  | _ :: past => dispatched held past

end

def handed (c : Channel π) (number : Nat) : List (Event π) → List (Report π)
  | [] => []
  | .take other :: past =>
    handed c number past ++
      if other = number then ((c.after past).take number).1.toList else []
  | _ :: past => handed c number past

/-! ## Sinks -/

section

variable {on : Bool} {start : Binary64}
  {raises : String → List (String × Report π) → Option Fault} {history : List (Event π)}
  {c : Channel π}

theorem sinks_dispatch
    (hreact : c.react = fun sink latest => { failure := raises sink latest }) (name : Value)
    (payload : π) : (c.dispatch name payload).sinks = c.sinks := by
  have hstirred : ∀ latest sink sinks, sinks = c.sinks → stirred c latest sink sinks = c.sinks := by
    intro latest sink sinks h
    rw [stirred, hreact, h]
    rfl
  obtain ⟨sinks, hsinks, h⟩ := exists_dispatch_eq hstirred rfl name payload
  rw [h]
  split
  · exact hsinks
  · rfl

structure Reaches (on : Bool) (start : Binary64)
    (raises : String → List (String × Report π) → Option Fault) (history : List (Event π))
    (c : Channel π) : Prop where
  enabled : c.enabled = isOn on history
  clock : c.clock = time start history
  react : c.react = fun sink latest => { failure := raises sink latest }
  count : c.mailboxes.length = (sizes history).length
  nodup : c.sinks.Nodup
  attached : ∀ sink, sink ∈ c.sinks ↔ isAttached sink history = true
  calls : ∀ sink, c.calls sink =
    dispatched start (fun past => isOn on past && isAttached sink past) history

theorem reaches_dispatch (h : Reaches on start raises history c) (name : Value) (payload : π) :
    Reaches on start raises (.dispatch name payload :: history) (c.dispatch name payload) := by
  refine
    { enabled := (enabled_dispatch c name payload).trans h.enabled
      clock := (clock_dispatch c name payload).trans h.clock
      react := (react_dispatch c name payload).trans h.react
      count := ?_
      nodup := nodup_dispatch c name payload h.nodup
      attached := fun sink => ?_
      calls := fun sink => ?_ }
  · rw [mailboxes_dispatch]
    split
    · rw [List.length_map, h.count]; rfl
    · exact h.count
  · rw [sinks_dispatch h.react name payload]
    exact h.attached sink
  · have hsink : decide (sink ∈ c.sinks) = isAttached sink history := by
      rw [Bool.eq_iff_iff, decide_eq_true_eq, h.attached]
    rw [calls_dispatch c name payload h.nodup, h.calls, h.enabled, hsink, report, h.clock]
    rfl

/-- One step of a history, one case for each kind of event. -/
theorem reaches_happen (h : Reaches on start raises history c) (event : Event π) :
    Reaches on start raises (event :: history) (c.happen event) := by
  cases event with
  | tick now => exact { h with clock := rfl }
  | dispatch name payload => exact reaches_dispatch h name payload
  | take number =>
    rw [happen, snd_take]
    exact { h with count := by rw [List.length_modify, h.count]; rfl }
  | tune change =>
    cases change with
    | attach sink =>
      rw [happen, tune, attach_eq]
      refine { h with nodup := nodup_joined h.nodup sink, attached := fun other => ?_ }
      rw [mem_joined, h.attached, isAttached, Bool.or_eq_true, decide_eq_true_eq, eq_comm]
    | detach sink =>
      refine { h with nodup := h.nodup.erase sink, attached := fun other => ?_ }
      rw [happen, tune, detach, h.nodup.mem_erase_iff, h.attached, isAttached, Bool.and_eq_true,
        decide_eq_true_eq, ne_comm]
    | subscribe size =>
      refine { h with count := ?_ }
      rw [happen, tune, subscribe, sizes, List.length_append, List.length_append, h.count]
      rfl
    | unsubscribe number =>
      exact { h with count := by rw [happen, tune, unsubscribe, List.length_modify, h.count]; rfl }
    | enable now => exact { h with enabled := rfl }

theorem reaches_after (on : Bool) (start : Binary64)
    (raises : String → List (String × Report π) → Option Fault) (history : List (Event π)) :
    Reaches on start raises history ((opened on start raises).after history) := by
  induction history with
  | nil =>
    exact ⟨rfl, rfl, rfl, rfl, List.nodup_nil, fun sink => by simp [after, opened, isAttached],
      fun sink => rfl⟩
  | cons event past ih => exact reaches_happen ih event

end

/-! ## Mailboxes -/

theorem isFull_of_boundOf {m : Mailbox π} {size : Int} (h : m.bound = boundOf size) :
    (!m.isFull) = (size ≤ 0 || m.size < size) := by
  rw [Mailbox.isFull, h, boundOf, Bool.eq_iff_iff]
  by_cases hsize : size ≤ 0
  · simp [hsize]
  · simp only [hsize, if_false, Bool.not_eq_true', decide_eq_false_iff_not, decide_false,
      Bool.false_or, decide_eq_true_eq]
    omega

section

variable {on : Bool} {start : Binary64}
  {raises : String → List (String × Report π) → Option Fault} {history past : List (Event π)}
  {number : Nat} {size : Int} {given : List (Report π)} {m : Mailbox π}

structure Fills (on : Bool) (start : Binary64) (number : Nat) (size : Int)
    (history : List (Event π)) (given : List (Report π)) (m : Mailbox π) : Prop where
  subscribed : m.subscribed = isSubscribed number history
  bound : m.subscribed = true → m.bound = boundOf size
  amount : m.size = load on number size history
  reports : given ++ m.reports = dispatched start (hasRoom on number size) history

theorem fills_dispatch (h : Fills on start number size history given m) (name : Value)
    (payload : π) :
    Fills on start number size (.dispatch name payload :: history) given
      (if isOn on history then
        m.put ⟨name, .real (time start history * Binary64.ofInt 1000), payload⟩ else m) := by
  have hopen : hasRoom on number size history =
      (isOn on history && (m.subscribed && !m.isFull)) := by
    rw [hasRoom, ← h.subscribed, ← h.amount]
    cases hsubscribed : m.subscribed with
    | false => simp
    | true => rw [isFull_of_boundOf (h.bound hsubscribed), Bool.and_true, Bool.true_and]
  have hload : load on number size (.dispatch name payload :: history) =
      if hasRoom on number size history then m.size + 1 else m.size := by
    rw [h.amount]
    rfl
  cases hon : isOn on history with
  | false =>
    rw [hon, Bool.false_and] at hopen
    refine { h with amount := ?_, reports := ?_ }
    · rw [hload, hopen]
      rfl
    · simpa [dispatched, hopen] using h.reports
  | true =>
    rw [hon, Bool.true_and] at hopen
    refine ⟨?_, ?_, ?_, ?_⟩
    · exact (Mailbox.subscribed_put m _).trans h.subscribed
    · rw [if_pos rfl, Mailbox.subscribed_put, Mailbox.bound_put]
      exact h.bound
    · rw [hload, hopen]
      exact Mailbox.size_put m _
    · rw [if_pos rfl, Mailbox.reports_put, ← hopen, dispatched, ← h.reports]
      split
      · rw [List.append_assoc]
      · rw [List.append_nil]

theorem fills_take (h : Fills on start number size history given m) :
    Fills on start number size (.take number :: history) (given ++ m.take.1.toList) m.take.2 where
  subscribed := (Mailbox.subscribed_take m).trans h.subscribed
  bound := by rw [Mailbox.subscribed_take, Mailbox.bound_take]; exact h.bound
  amount := by rw [Mailbox.size_take, h.amount, load, if_pos rfl]
  reports := by rw [List.append_assoc, Mailbox.take_reports, h.reports]; rfl

/-- What a mailbox is like one step later, one case for each kind of event.  The size matters only
from the subscription on. -/
theorem fills_cons {event : Event π} (hsize : ∀ s ∈ (sizes (event :: past))[number]?, s = size)
    (h : Fills on start number size past (handed (opened on start raises) number past)
      (((opened on start raises).after past).mailbox number)) :
    Fills on start number size (event :: past)
      (handed (opened on start raises) number (event :: past))
      (((opened on start raises).after (event :: past)).mailbox number) := by
  have hreach := reaches_after on start raises past
  rw [after]
  generalize hc : (opened on start raises).after past = c at h hreach ⊢
  cases event with
  | tick now => exact { h with }
  | dispatch name payload =>
    rw [happen, mailbox_dispatch, report, hreach.enabled, hreach.clock]
    exact fills_dispatch h name payload
  | take other =>
    rw [happen, mailbox_take, handed, hc, fst_take]
    by_cases hother : other = number
    · subst hother
      rw [if_pos rfl, if_pos rfl]
      exact fills_take h
    · rw [if_neg hother, if_neg hother, List.append_nil]
      exact { h with amount := by rw [load, if_neg hother, h.amount] }
  | tune change =>
    cases change with
    | attach sink =>
      rw [happen, tune, attach_eq]
      exact { h with }
    | detach sink => exact { h with }
    | enable now => exact { h with }
    | subscribe asked =>
      rw [happen, tune, mailbox_subscribe, hreach.count]
      by_cases hnumber : number = (sizes past).length
      · -- The mailbox is new, and there was none of its number before.
        have hnone : c.mailbox number = { bound := none, subscribed := false } := by
          rw [mailbox, List.getElem?_eq_none (by rw [hreach.count]; omega)]
          rfl
        obtain rfl : asked = size := hsize asked (by simp [sizes, hnumber])
        rw [hnone] at h
        rw [if_pos hnumber, mailboxOf_int]
        exact { h with subscribed := by simp [isSubscribed, hnumber], bound := fun _ => rfl }
      · rw [if_neg hnumber]
        refine { h with subscribed := ?_ }
        simp [h.subscribed, isSubscribed, hnumber]
    | unsubscribe other =>
      rw [happen, tune, mailbox_unsubscribe]
      by_cases hother : other = number
      · rw [if_pos hother]
        exact { h with subscribed := by simp [isSubscribed, hother], bound := by simp }
      · rw [if_neg hother]
        exact { h with subscribed := by simp [h.subscribed, isSubscribed, hother] }

theorem mem_sizes_cons {event : Event π} {s : Int} (h : s ∈ (sizes past)[number]?) :
    s ∈ (sizes (event :: past))[number]? := by
  obtain ⟨hnumber, -⟩ := List.getElem?_eq_some_iff.mp h
  unfold sizes
  split
  · contradiction
  · next heq =>
    obtain ⟨-, rfl⟩ := List.cons.inj heq
    rwa [List.getElem?_append_left hnumber]
  · next heq =>
    obtain ⟨-, rfl⟩ := List.cons.inj heq
    exact h

theorem fills_after (hsize : ∀ s ∈ (sizes history)[number]?, s = size) :
    Fills on start number size history (handed (opened on start raises) number history)
      (((opened on start raises).after history).mailbox number) := by
  induction history with
  | nil => exact ⟨rfl, fun h => absurd h Bool.false_ne_true, rfl, rfl⟩
  | cons event past ih => exact fills_cons hsize (ih fun s hs => hsize s (mem_sizes_cons hs))

theorem load_le (hsize : 0 < size) (history : List (Event π)) :
    load on number size history ≤ size := by
  induction history with
  | nil =>
    rw [load]
    omega
  | cons event past ih =>
    cases event with
    | dispatch name payload =>
      rw [load]
      split <;> grind
    | take other =>
      rw [load]
      split <;> omega
    | tick now => exact ih
    | tune change => exact ih

/-- **What is delivered.**  After any history a sink was called with exactly the reports that were
dispatched while it was attached and the channel was on, each once and in order.  A mailbox holds no
more than its size, and what was taken from it and what it holds are together, in order, exactly the
reports that were dispatched while it was subscribed, the channel was on and it held fewer than its
size. -/
theorem delivery (on : Bool) (start : Binary64)
    (raises : String → List (String × Report π) → Option Fault) (history : List (Event π)) :
    (∀ sink, ((opened on start raises).after history).calls sink =
      dispatched start (fun past => isOn on past && isAttached sink past) history) ∧
    ∀ number size, (sizes history)[number]? = some size →
      ∃ m, ((opened on start raises).after history).mailboxes[number]? = some m ∧
        (0 < size → m.reports.length ≤ size) ∧
        m.reports.length = load on number size history ∧
        handed (opened on start raises) number history ++ m.reports =
          dispatched start (hasRoom on number size) history := by
  have hreach := reaches_after on start raises history
  refine ⟨hreach.calls, fun number size hsize => ?_⟩
  have hfills : Fills on start number size history (handed (opened on start raises) number history)
      (((opened on start raises).after history).mailbox number) :=
    fills_after (by simp [hsize])
  obtain ⟨hnumber, -⟩ := List.getElem?_eq_some_iff.mp hsize
  rw [← hreach.count] at hnumber
  refine ⟨_, exists_getElem? _ number hnumber, fun hpositive => ?_, ?_, hfills.reports⟩
  · rw [Mailbox.length_reports, hfills.amount]
    exact load_le hpositive history
  · rw [Mailbox.length_reports, hfills.amount]

/-- A sink that always raises, one that is attached twice and detached once, and a mailbox for one
report, which is full twice. -/
theorem delivery_full :
    let raises := fun sink (_ : List (String × Report Nat)) =>
      if sink = "bad" then some (Fault.outside "ValueError" "no") else none
    let history := [Event.dispatch .null 4, .tune (.detach "log"), .dispatch .null 3, .take 0,
      .dispatch .null 2, .dispatch .null 1, .tune (.subscribe 1), .tune (.attach "log"),
      .tune (.attach "log"), .tune (.attach "bad")]
    let start := opened true (.zero false) raises
    ((start.after history).calls "log").map Report.payload = [1, 2, 3] ∧
      (sizes history)[0]? = some 1 ∧
      ∃ m, (start.after history).mailboxes[0]? = some m ∧
        (handed start 0 history ++ m.reports).map Report.payload = [1, 3] := by
  intro raises history start
  obtain ⟨hcalls, hmailboxes⟩ := delivery true (.zero false) raises history
  obtain ⟨m, hm, -, -, hreports⟩ := hmailboxes 0 1 rfl
  refine ⟨?_, rfl, m, hm, ?_⟩
  · rw [hcalls]
    decide
  · rw [hreports]
    decide

end

end PromptChain.Telemetry.Channel
