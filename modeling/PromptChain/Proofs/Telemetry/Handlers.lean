import PromptChain.Proofs.Telemetry.Broadcasting
/-!
# Handlers

Each client is handled by a loop over what its socket brings.  While the loop goes on the client is
registered and its mailbox is subscribed; the last thing that the socket brings ends the loop, and
then both go, with the forwarder, and nothing else does (`registered_while_inside`).
-/

namespace PromptChain

open Telemetry

def Telemetry.Channel.subscribers (c : Channel Value) : List Nat :=
  (List.range c.mailboxes.length).filter fun number => (c.mailbox number).subscribed

namespace Broadcast

/-! ## Loops -/

inductive Arrival where
  | message (isError : Bool)
  | closed
  | raised
  deriving DecidableEq

def Arrival.isLast : Arrival → Bool
  | .message isError => isError
  | .closed | .raised => true

/-- What becomes of a client when the loop ends: its forwarder is cancelled. -/
def Arrival.part (arrival : Arrival) (c : Client) : Client :=
  { c with forwarding := false, held := none, closed := c.closed || arrival = .closed }

def arrive (b : Broadcast) (number : Nat) : Arrival → Broadcast
  | .message isError => b.receive number isError
  | .closed => b.disconnect number
  | .raised => b.leave number

inductive Occurrence where
  | dispatch (name payload : Value)
  | enable (on : Bool)
  | tick (clock : Binary64)
  | connect (resetAfter closeAfter : Option Nat)
  | arrive (number : Nat) (arrival : Arrival)
  | pick (number : Nat)
  | pass (number : Nat)
  /-- The socket of a client closes, which its loop does not notice. -/
  | close (number : Nat)

def occur (b : Broadcast) : Occurrence → Broadcast
  | .dispatch name payload => b.dispatch name payload
  | .enable on => { b with channel := { b.channel with enabled := on } }
  | .tick clock => { b with channel := { b.channel with clock } }
  | .connect resetAfter closeAfter => (b.connect resetAfter closeAfter).1
  | .arrive number arrival => b.arrive number arrival
  | .pick number => b.pick number
  | .pass number => b.pass number
  | .close number => b.modify number fun c => { c with closed := true }

/-- A server on a channel after a history, in which the latest occurrence comes first. -/
def since (channel : Channel Value) : List Occurrence → Broadcast
  | [] => { channel }
  | occurrence :: past => (since channel past).occur occurrence

def connections : List Occurrence → Nat
  | [] => 0
  | .connect _ _ :: past => connections past + 1
  | _ :: past => connections past

def isInside (number : Nat) : List Occurrence → Bool
  | [] => false
  | .connect _ _ :: past => number = connections past || isInside number past
  | .arrive other arrival :: past => !(other = number && arrival.isLast) && isInside number past
  | _ :: past => isInside number past

def insiders (history : List Occurrence) : List Nat :=
  (List.range (connections history)).filter fun number => isInside number history

/-! ## Loops as events -/

/-- An occurrence as the events that it consists of, the latest first. -/
def Occurrence.events : Occurrence → List Event
  | .dispatch name payload => [.dispatch name payload]
  | .enable on => [.enable on]
  | .tick clock => [.tick clock]
  | .connect resetAfter closeAfter => [.connect resetAfter closeAfter]
  | .arrive _ (.message false) => []
  | .arrive number .closed => [.leave number, .close number]
  | .arrive number _ => [.leave number]
  | .pick number => [.pick number]
  | .pass number => [.pass number]
  | .close number => [.close number]

section

variable (channel : Channel Value) (history : List Occurrence)

theorem since_eq : since channel history = after channel (history.flatMap Occurrence.events) := by
  induction history with
  | nil => rfl
  | cons occurrence past ih =>
    rw [since, ih]
    cases occurrence with
    | arrive number arrival =>
      cases arrival with
      | message isError => cases isError <;> rfl
      | closed => rfl
      | raised => rfl
    | _ => rfl

theorem connects_flatMap : connects (history.flatMap Occurrence.events) = connections history := by
  induction history with
  | nil => rfl
  | cons occurrence past ih =>
    cases occurrence with
    | arrive number arrival =>
      cases arrival with
      | message isError => cases isError <;> exact ih
      | closed => exact ih
      | raised => exact ih
    | connect resetAfter closeAfter => exact congrArg Nat.succ ih
    | _ => exact ih

theorem isConnected_flatMap (number : Nat) :
    isConnected number (history.flatMap Occurrence.events) = isInside number history := by
  induction history with
  | nil => rfl
  | cons occurrence past ih =>
    have hleave (other : Nat) :
        isConnected number (.leave other :: past.flatMap Occurrence.events) =
          (!(other = number && true) && isInside number past) := by
      rw [isConnected, ih]
      simp
    cases occurrence with
    | arrive other arrival =>
      cases arrival with
      | message isError =>
        cases isError with
        | true => exact hleave other
        | false =>
          rw [isInside, Arrival.isLast, Bool.and_false, Bool.not_false, Bool.true_and]
          exact ih
      | closed => exact hleave other
      | raised => exact hleave other
    | connect resetAfter closeAfter =>
      rw [isInside, ← ih, ← connects_flatMap]
      rfl
    | _ => exact ih

end

/-! ## Who is registered and subscribed -/

def present (history : List Event) : List Nat :=
  (List.range (connects history)).filter fun number => isConnected number history

theorem present_flatMap (history : List Occurrence) :
    present (history.flatMap Occurrence.events) = insiders history := by
  simp only [present, insiders, connects_flatMap, isConnected_flatMap]

section

variable {channel : Channel Value} {history : List Event} {b : Broadcast}

theorem leave_of_connected (h : Reached channel history b) {number : Nat}
    (hconnected : isConnected number history = true) :
    ∃ c, b.clients[number]? = some c ∧ c.mailbox = channel.mailboxes.length + number ∧
      b.leave number =
        { b with
          channel := b.channel.unsubscribe c.mailbox
          clients := b.clients.modify number Client.quit
          registered := b.registered.erase number } := by
  have hlt : number < b.clients.length := h.clients ▸ isConnected_lt hconnected
  have hc := List.getElem?_eq_getElem hlt
  refine ⟨_, hc, h.mailbox number _ hc, ?_⟩
  rw [leave, if_pos ((h.registered number).mpr hconnected), hc]

theorem leave_of_not_connected (h : Reached channel history b) {number : Nat}
    (hconnected : isConnected number history = false) : b.leave number = b := by
  rw [leave, if_neg]
  rw [h.registered, hconnected]
  exact Bool.false_ne_true

theorem registered_leave (h : Reached channel history b) (number : Nat) :
    (b.leave number).registered = b.registered.erase number := by
  cases hconnected : isConnected number history with
  | true =>
    obtain ⟨c, -, -, hleave⟩ := leave_of_connected h hconnected
    rw [hleave]
  | false =>
    have hgone : number ∉ b.registered := by
      rw [h.registered, hconnected]
      exact Bool.false_ne_true
    rw [leave_of_not_connected h hconnected, List.erase_of_not_mem hgone]

theorem registered_after (channel : Channel Value) (history : List Event) :
    (after channel history).registered = present history := by
  induction history with
  | nil => rfl
  | cons event past ih =>
    rw [present] at ih ⊢
    have hreached := reached_after channel past
    cases event with
    | connect resetAfter closeAfter =>
      have hothers : ∀ number ∈ List.range (connects past),
          isConnected number (.connect resetAfter closeAfter :: past) =
            isConnected number past := by
        intro number hnumber
        rw [isConnected, decide_eq_false (Nat.ne_of_lt (List.mem_range.mp hnumber)), Bool.false_or]
      -- The new number is the last one of the range, and of the clients.
      rw [connects, List.range_succ, List.filter_append, List.filter_congr hothers, ← ih]
      simp [after, happen, connect, hreached.clients, isConnected]
    | leave other =>
      rw [after, happen, registered_leave hreached, hreached.nodup.erase_eq_filter, ih,
        List.filter_filter]
      refine List.filter_congr fun number _ => ?_
      simp [isConnected, bne, Bool.beq_eq_decide_eq, eq_comm]
    | pick other =>
      obtain ⟨c, r, -, -, -, hpick⟩ | ⟨hpick, -⟩ := pick_cases (after channel past) other
      · rw [after, happen, hpick]
        exact ih
      · rw [after, happen, hpick]
        exact ih
    | _ => exact ih

/-- The mailboxes of others stay subscribed or not, and that of a client is subscribed as long as the
client is connected. -/
theorem subscribed_after (channel : Channel Value) (history : List Event) (mailbox : Nat) :
    ((after channel history).channel.mailbox mailbox).subscribed =
      if mailbox < channel.mailboxes.length then (channel.mailbox mailbox).subscribed
      else isConnected (mailbox - channel.mailboxes.length) history := by
  induction history with
  | nil =>
    rw [after]
    split
    · rfl
    · next hlt => rw [Channel.mailbox, List.getElem?_eq_none (Nat.not_lt.mp hlt)]; rfl
  | cons event past ih =>
    have hreached := reached_after channel past
    cases event with
    | dispatch name payload =>
      rw [after, happen, dispatch, Channel.mailbox_dispatch]
      split
      · rw [Mailbox.subscribed_put]
        exact ih
      · exact ih
    | connect resetAfter closeAfter =>
      rw [after, happen, connect, isConnected]
      dsimp only
      rw [Channel.mailbox_subscribe, hreached.mailboxes]
      split
      · next hnew =>
        rw [if_neg (by omega), decide_eq_true (by omega), Bool.true_or]
        rfl
      · next hold =>
        rw [ih]
        split
        · rfl
        · rw [decide_eq_false (by omega), Bool.false_or]
    | leave other =>
      rw [after, happen, isConnected]
      cases hconnected : isConnected other past with
      | true =>
        obtain ⟨c, -, hmailbox, hleave⟩ := leave_of_connected hreached hconnected
        rw [hleave]
        dsimp only
        rw [Channel.mailbox_unsubscribe, hmailbox]
        split
        · next hown =>
          rw [if_neg (by omega), decide_eq_false (by omega), Bool.false_and]
        · next hother =>
          rw [ih]
          split
          · rfl
          · rw [decide_eq_true (by omega), Bool.true_and]
      | false =>
        rw [leave_of_not_connected hreached hconnected, ih]
        split
        · rfl
        · by_cases hown : other = mailbox - channel.mailboxes.length
          · rw [← hown, hconnected, Bool.and_false]
          · rw [decide_eq_true hown, Bool.true_and]
    | pick other =>
      obtain ⟨c, r, -, -, -, hpick⟩ | ⟨hpick, -⟩ := pick_cases (after channel past) other
      · rw [after, happen, hpick, modify, Channel.mailbox_take]
        split
        · rw [Mailbox.subscribed_take]
          exact ih
        · exact ih
      · rw [after, happen, hpick]
        exact ih
    | _ => exact ih

theorem idle_happen {channel : Channel Value} {number : Nat} {past : List Event} {l : Line}
    (hl : (after channel past).line? number = some l)
    (h : isConnected number past = false → l.client.forwarding = false) (event : Event)
    (hgone : isConnected number (event :: past) = false) :
    (l.happen (after channel past).channel (isConnected number past) number
      event).client.forwarding = false := by
  cases event with
  | dispatch name payload =>
    rw [Line.happen]
    split <;> exact h hgone
  | enable on => exact h hgone
  | tick clock => exact h hgone
  | connect resetAfter closeAfter => exact h ((isConnected_connect hl).symm.trans hgone)
  | pick other =>
    have hidle := h hgone
    rw [Line.happen, Line.pick, hidle, Bool.false_and, if_neg Bool.false_ne_true, ite_self]
    exact hidle
  | pass other =>
    have hidle := h hgone
    rw [Line.happen, Client.pass, (serves_after hl).idle hidle, ite_self]
    exact hidle
  | close other =>
    rw [Line.happen]
    split <;> exact h hgone
  | leave other =>
    rw [Line.happen]
    split
    · rfl
    · next hstays =>
      rw [isConnected] at hgone
      refine h (Bool.eq_false_iff.mpr fun hconnected => ?_)
      rw [hconnected, Bool.and_true, decide_eq_false_iff_not, ne_eq, not_not] at hgone
      exact hstays (by rw [hgone, hconnected, decide_eq_true rfl, Bool.and_true])

theorem idle_after {channel : Channel Value} {number : Nat} {history : List Event} {l : Line}
    (hl : (after channel history).line? number = some l) :
    isConnected number history = false → l.client.forwarding = false := by
  refine line?_induction
    (P := fun history l => isConnected number history = false → l.client.forwarding = false)
    ?_ (fun past l event hl h => idle_happen hl h event) hl
  intro past resetAfter closeAfter hnumber hgone
  rw [isConnected, decide_eq_true hnumber] at hgone
  contradiction

theorem subscribers_after (channel : Channel Value) (history : List Event) :
    (after channel history).channel.subscribers =
      channel.subscribers ++ (present history).map (channel.mailboxes.length + ·) := by
  rw [present, Channel.subscribers, (reached_after channel history).mailboxes, List.range_add,
    List.filter_append, List.filter_map, Channel.subscribers]
  congr 1
  · refine List.filter_congr fun mailbox hmailbox => ?_
    rw [subscribed_after, if_pos (List.mem_range.mp hmailbox)]
  · congr 1
    refine List.filter_congr fun number _ => ?_
    rw [Function.comp_apply, subscribed_after, if_neg (by omega), Nat.add_sub_cancel_left]

theorem part_eq {arrival : Arrival} (h : arrival ≠ .closed) : arrival.part = Client.quit := by
  funext c
  simp [Arrival.part, Client.quit, h]

theorem part_closed :
    Arrival.closed.part = fun c => { c with forwarding := false, held := none, closed := true } := by
  funext c
  simp [Arrival.part]

theorem arrive_of_isLast (h : Reached channel history b) {number : Nat}
    (hconnected : isConnected number history = true) {arrival : Arrival}
    (hlast : arrival.isLast = true) :
    ∃ c, b.clients[number]? = some c ∧ b.arrive number arrival =
      { b with
        channel := b.channel.unsubscribe c.mailbox
        clients := b.clients.modify number arrival.part
        registered := b.registered.erase number } := by
  -- All ways out of the loop go through `leave`; a socket that closes is marked before.
  obtain ⟨c, hc, hmailbox, hleave⟩ := leave_of_connected h hconnected
  refine ⟨c, hc, ?_⟩
  cases arrival with
  | message isError =>
    rw [Arrival.isLast] at hlast
    rw [arrive, receive, if_pos hlast, hleave, part_eq Arrival.noConfusion]
  | raised => rw [arrive, hleave, part_eq Arrival.noConfusion]
  | closed =>
    obtain ⟨c', -, hmailbox', hleave'⟩ := leave_of_connected
      (h.modify number (fun c => { c with closed := true }) fun c => rfl) hconnected
    rw [arrive, disconnect, hleave', hmailbox', ← hmailbox, modify, List.modify_modify_eq]
    simp only [Function.comp_def, Client.quit, part_closed]

end

/-- **Clients are registered and subscribed as long as their loops go on.** -/
theorem registered_while_inside (channel : Channel Value) (history : List Occurrence) :
    let b := since channel history
    b.registered = insiders history ∧
    b.channel.subscribers =
      channel.subscribers ++ (insiders history).map (channel.mailboxes.length + ·) ∧
    (∀ number c, b.clients[number]? = some c →
      c.mailbox = channel.mailboxes.length + number ∧
        (isInside number history = false → c.forwarding = false ∧ c.held = none)) ∧
    (∀ number arrival, isInside number history = true → arrival.isLast = true →
      ∃ c, b.clients[number]? = some c ∧ b.arrive number arrival =
        { b with
          channel := b.channel.unsubscribe c.mailbox
          clients := b.clients.modify number arrival.part
          registered := b.registered.erase number }) ∧
    (insiders history = [] → b.registered.length = 0 ∧
      b.channel.subscribers = channel.subscribers) := by
  intro b
  have hb : b = after channel (history.flatMap Occurrence.events) := since_eq channel history
  have hreached := reached_after channel (history.flatMap Occurrence.events)
  have hregistered : b.registered = insiders history := by
    rw [hb, registered_after, present_flatMap]
  have hsubscribers : b.channel.subscribers =
      channel.subscribers ++ (insiders history).map (channel.mailboxes.length + ·) := by
    rw [hb, subscribers_after, present_flatMap]
  refine ⟨hregistered, hsubscribers, fun number c hc => ?_, fun number arrival hinside hlast => ?_,
    fun hnobody => ?_⟩
  · rw [hb] at hc
    have hl := line?_of_client hc
    refine ⟨hreached.mailbox number c hc, fun hgone => ?_⟩
    have hidle := idle_after hl ((isConnected_flatMap history number).trans hgone)
    exact ⟨hidle, (serves_after hl).idle hidle⟩
  · rw [← isConnected_flatMap] at hinside
    rw [hb]
    exact arrive_of_isLast hreached hinside hlast
  · rw [hregistered, hsubscribers, hnobody]
    exact ⟨rfl, List.append_nil _⟩

/-- Three clients, of which one reports an error and one cannot be read from; the third one is left
when it has gone as well, nobody is, and only the mailbox of somebody else is subscribed. -/
theorem registered_while_inside_three :
    let channel : Channel Value := ({} : Channel Value).tune (.subscribe 0)
    let history : List Occurrence := [.arrive 1 .raised, .pick 2, .arrive 0 (.message true),
      .dispatch (.text "n") (.int 1), .arrive 2 (.message false), .connect none none,
      .connect none none, .connect none none]
    let b := since channel history
    b.registered = [2] ∧ b.channel.subscribers = [0, 3] ∧
      (∃ c, b.clients[2]? = some c ∧ (b.arrive 2 .closed).registered = [] ∧
        (b.arrive 2 .closed).channel = b.channel.unsubscribe c.mailbox) ∧
      (since channel (.arrive 2 .closed :: history)).channel.subscribers = [0] := by
  intro channel history b
  obtain ⟨hregistered, hsubscribers, -, hleaves, -⟩ := registered_while_inside channel history
  obtain ⟨c, hc, hleft⟩ := hleaves 2 .closed (by decide +kernel) (by decide)
  obtain ⟨-, -, -, -, hnobody⟩ :=
    registered_while_inside channel (.arrive 2 .closed :: history)
  refine ⟨hregistered.trans (by decide +kernel), hsubscribers.trans (by decide +kernel),
    ⟨c, hc, ?_, ?_⟩, (hnobody (by decide +kernel)).2.trans (by decide +kernel)⟩
  · rw [hleft, hregistered]
    show (insiders history).erase 2 = []
    decide +kernel
  · rw [hleft]

end Broadcast

end PromptChain
