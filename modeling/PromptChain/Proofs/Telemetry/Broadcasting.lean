import PromptChain.Proofs.Telemetry.Lines
/-!
# Broadcasting

Whatever happens to a server, the socket of a client has been sent the reports that the client
accepted, from the first one on and in order, and what becomes of other clients makes no difference
to that (`sent_after`).
-/

namespace PromptChain.Broadcast

open Telemetry

/-! ## What a client is sent -/

/-- The reports that a client accepts in a history, in order: those that are dispatched while the
channel is on, the client is connected and fewer than a thousand wait for it. -/
def accepted (channel : Channel Value) (number : Nat) : List Event → List (Report Value)
  | [] => []
  | .dispatch name payload :: past =>
    let b := after channel past
    accepted channel number past ++
      if b.channel.enabled && (isConnected number past && b.waiting number < 1000) then
        [b.channel.report name payload]
      else []
  | _ :: past => accepted channel number past

theorem accepted_eq_nil {channel : Channel Value} {number : Nat} {history : List Event}
    (h : connects history ≤ number) : accepted channel number history = [] := by
  induction history with
  | nil => rfl
  | cons event past ih =>
    cases event with
    | connect resetAfter closeAfter => exact ih (Nat.le_of_succ_le h)
    | dispatch name payload =>
      have hconnected : isConnected number past = false := by
        by_contra hconnected
        have hlt := isConnected_lt (by simpa using hconnected)
        exact absurd hlt (Nat.not_lt.mpr h)
      rw [accepted, ih h, hconnected]
      simp
    | _ => exact ih h

namespace Line

/-- A line on which some reports were accepted.  The first ones were sent and the last ones wait; in
between there is at most the one that the forwarder holds, or held when it ended. -/
structure Serves (reports : List (Report Value)) (connected : Bool) (l : Line) : Prop where
  bound : l.box.bound = some 1000
  subscribed : l.box.subscribed = connected
  idle : l.client.forwarding = false → l.client.held = none
  sent : ∃ passed kept, passed ++ (kept ++ l.box.reports) = reports ∧
    l.client.sent.map Except.ok = passed.map Report.encode ∧
    (l.client.forwarding = true → kept = l.client.held.toList) ∧ kept.length ≤ 1

variable {l : Line} {reports : List (Report Value)} {connected : Bool}

theorem Serves.put (h : l.Serves reports connected) (r : Report Value) :
    Serves (reports ++ if connected && l.box.size < 1000 then [r] else []) connected
      { l with box := l.box.put r } := by
  obtain ⟨passed, kept, hreports, hrest⟩ := h.sent
  have hopen : (connected && decide (l.box.size < 1000)) = (l.box.subscribed && !l.box.isFull) := by
    rw [h.subscribed, Mailbox.isFull, h.bound]
    simp only [← decide_not, Nat.not_le]
  refine ⟨(Mailbox.bound_put _ _).trans h.bound, (Mailbox.subscribed_put _ _).trans h.subscribed,
    h.idle, passed, kept, ?_, hrest⟩
  rw [Mailbox.reports_put, hopen, ← hreports]
  split <;> simp

theorem forwarding_of_held (h : l.Serves reports connected) {r : Report Value}
    (hheld : l.client.held = some r) : l.client.forwarding = true := by
  by_contra hidle
  rw [h.idle (Bool.eq_false_iff.mpr hidle)] at hheld
  contradiction

theorem Serves.pick (h : l.Serves reports connected) : l.pick.Serves reports connected := by
  unfold Line.pick
  split
  · next hfree =>
    rw [Bool.and_eq_true, Option.isNone_iff_eq_none] at hfree
    split
    · next r htaken =>
      obtain ⟨passed, kept, hreports, hsent, hkept, -⟩ := h.sent
      have hbox := Mailbox.take_reports l.box
      rw [htaken] at hbox
      rw [hkept hfree.1, hfree.2, ← hbox] at hreports
      exact ⟨(Mailbox.bound_take _).trans h.bound, (Mailbox.subscribed_take _).trans h.subscribed,
        fun hidle => absurd hidle (by simp [hfree.1]), passed, [r], hreports, hsent, fun _ => rfl,
        Nat.le_refl 1⟩
    · exact h
  · exact h

theorem Serves.quit (h : l.Serves reports connected) :
    Serves reports connected { l with client := l.client.quit } := by
  obtain ⟨passed, kept, hreports, hsent, -, hlength⟩ := h.sent
  exact ⟨h.bound, h.subscribed, fun _ => rfl, passed, kept, hreports, hsent,
    fun hforwarding => absurd hforwarding Bool.false_ne_true, hlength⟩

theorem Serves.pass (h : l.Serves reports connected) :
    Serves reports connected { l with client := l.client.pass } := by
  unfold Client.pass
  split
  · next r hheld =>
    have hforwarding := forwarding_of_held h hheld
    unfold Client.forward
    split
    · next s hs =>
      unfold Client.send
      split
      · exact h.quit
      · -- What was held is sent.
        obtain ⟨passed, kept, hreports, hsent, hkept, -⟩ := h.sent
        rw [hkept hforwarding, hheld] at hreports
        refine ⟨h.bound, h.subscribed, fun _ => rfl, passed ++ [r], [], ?_, ?_, fun _ => rfl,
          Nat.zero_le 1⟩
        · rw [← hreports, List.append_assoc]
          rfl
        · simp [hsent, hs]
    · exact h.quit
  · exact h

theorem Serves.leave (h : l.Serves reports connected) : l.leave.Serves reports false :=
  { h.quit with subscribed := rfl }

end Line

section

variable {channel : Channel Value} {number : Nat} {past : List Event} {l : Line}

theorem serves_happen (hl : (after channel past).line? number = some l)
    (h : l.Serves (accepted channel number past) (isConnected number past)) (event : Event) :
    (l.happen (after channel past).channel (isConnected number past) number event).Serves
      (accepted channel number (event :: past)) (isConnected number (event :: past)) := by
  cases event with
  | dispatch name payload =>
    have hput := h.put ((after channel past).channel.report name payload)
    rw [← waiting_eq hl] at hput
    rw [Line.happen, accepted]
    cases (after channel past).channel.enabled with
    | true => exact hput
    | false =>
      rw [Bool.false_and, if_neg Bool.false_ne_true, List.append_nil]
      exact h
  | enable on => exact h
  | tick clock => exact h
  | connect resetAfter closeAfter =>
    rw [isConnected_connect hl]
    exact h
  | pick other =>
    rw [Line.happen]
    split
    · exact h.pick
    · exact h
  | pass other =>
    rw [Line.happen]
    split
    · exact h.pass
    · exact h
  | close other =>
    rw [Line.happen]
    split
    · exact { h with }
    · exact h
  | leave other =>
    rw [Line.happen, isConnected]
    show Line.Serves (accepted channel number past) _ _
    by_cases hother : other = number
    · cases hconnected : isConnected number past with
      | true => simpa [hother] using h.leave
      | false => simpa [hother, hconnected] using h
    · simpa [hother] using h

theorem serves_after {history : List Event} (hl : (after channel history).line? number = some l) :
    l.Serves (accepted channel number history) (isConnected number history) := by
  refine line?_induction
    (P := fun history l => l.Serves (accepted channel number history) (isConnected number history))
    ?_ (fun past l event hl h => serves_happen hl h event) hl
  intro past resetAfter closeAfter hnumber
  rw [isConnected, decide_eq_true hnumber, Bool.true_or]
  show Line.Serves (accepted channel number past) _ _
  rw [accepted_eq_nil (Nat.le_of_eq hnumber.symm)]
  exact ⟨rfl, rfl, fun _ => rfl, [], [], rfl, rfl, fun _ => rfl, Nat.zero_le 1⟩

end

/-! ## What other clients do -/

def Event.concerns (number : Nat) : Event → Bool
  | .pick other | .pass other | .close other | .leave other => other = number
  | _ => true

/-- What a client can see of an event that concerns it: of the sockets of others nothing. -/
def Event.shown (number others : Nat) : Event → Event
  | .connect resetAfter closeAfter =>
    if number = others then .connect resetAfter closeAfter else .connect none none
  | event => event

/-- What a client can see of a history. -/
def seen (number : Nat) : List Event → List Event
  | [] => []
  | event :: past =>
    if event.concerns number then event.shown number (connects past) :: seen number past
    else seen number past

section

variable {channel : Channel Value} {number : Nat}

theorem settings_happen (b : Broadcast) (event : Event) :
    ((b.happen event).channel.enabled, (b.happen event).channel.clock) =
      match event with
      | .enable on => (on, b.channel.clock)
      | .tick clock => (b.channel.enabled, clock)
      | _ => (b.channel.enabled, b.channel.clock) := by
  cases event with
  | dispatch name payload => simp [happen, dispatch]
  | pick other =>
    obtain ⟨c, r, -, -, -, hpick⟩ | ⟨hpick, -⟩ := pick_cases b other
    · rw [happen, hpick, Channel.snd_take]
      rfl
    · rw [happen, hpick]
  | leave other =>
    rw [happen, leave]
    split
    · split <;> rfl
    · rfl
  | _ => rfl

structure Alike (channel : Channel Value) (number : Nat) (history history' : List Event) : Prop where
  connects : connects history' = connects history
  connected : isConnected number history' = isConnected number history
  enabled : (after channel history').channel.enabled = (after channel history).channel.enabled
  clock : (after channel history').channel.clock = (after channel history).channel.clock
  line : (after channel history').line? number = (after channel history).line? number

variable {history history' history'' past past' : List Event}

theorem Alike.refl (history : List Event) : Alike channel number history history :=
  ⟨rfl, rfl, rfl, rfl, rfl⟩

theorem Alike.trans (h : Alike channel number history history')
    (h' : Alike channel number history' history'') : Alike channel number history history'' :=
  ⟨h'.connects.trans h.connects, h'.connected.trans h.connected, h'.enabled.trans h.enabled,
    h'.clock.trans h.clock, h'.line.trans h.line⟩

theorem happen_congr {now now' : Channel Value} (henabled : now'.enabled = now.enabled)
    (hclock : now'.clock = now.clock) (connected : Bool) (l : Line) (event : Event) :
    l.happen now' connected number event = l.happen now connected number event := by
  cases event with
  | dispatch name payload => simp only [Line.happen, Channel.report, henabled, hclock]
  | _ => rfl

theorem Alike.cons (h : Alike channel number past past') (event : Event) :
    Alike channel number (event :: past) (event :: past') := by
  have hsettings := Prod.ext_iff.mp (settings_happen (after channel past) event)
  have hsettings' := Prod.ext_iff.mp (settings_happen (after channel past') event)
  rw [h.enabled, h.clock] at hsettings'
  refine ⟨?_, ?_, hsettings'.1.trans hsettings.1.symm, hsettings'.2.trans hsettings.2.symm, ?_⟩
  · cases event with
    | connect resetAfter closeAfter => exact congrArg Nat.succ h.connects
    | _ => exact h.connects
  · cases event with
    | connect resetAfter closeAfter => simp only [isConnected, h.connects, h.connected]
    | leave other => simp only [isConnected, h.connected]
    | _ => exact h.connected
  · simp only [after, line?_happen (reached_after channel _), h.connects, h.connected, h.line,
      happen_congr h.enabled h.clock]

theorem alike_of_not_concerns {event : Event} (h : event.concerns number = false)
    (past : List Event) : Alike channel number (event :: past) past := by
  have hsettings := Prod.ext_iff.mp (settings_happen (after channel past) event)
  have hline : (after channel (event :: past)).line? number = _ :=
    line?_happen (reached_after channel past) number event
  cases event with
  | dispatch name payload => contradiction
  | enable on => contradiction
  | tick clock => contradiction
  | connect resetAfter closeAfter => contradiction
  | leave other =>
    have hother : other ≠ number := of_decide_eq_false h
    have hconnected : isConnected number (.leave other :: past) = isConnected number past := by
      simp [isConnected, hother]
    simp only [Line.opened?, Line.happen, hother] at hline
    exact ⟨rfl, hconnected.symm, hsettings.1.symm, hsettings.2.symm, by simpa using hline.symm⟩
  | _ =>
    have hother := of_decide_eq_false h
    simp only [Line.opened?, Line.happen, hother] at hline
    exact ⟨rfl, rfl, hsettings.1.symm, hsettings.2.symm, by simpa using hline.symm⟩

theorem alike_shown (event : Event) (past : List Event) :
    Alike channel number (event :: past) (event.shown number (connects past) :: past) := by
  cases event with
  | connect resetAfter closeAfter =>
    rw [Event.shown]
    split
    · exact .refl _
    · next hother =>
      refine ⟨rfl, rfl, rfl, rfl, ?_⟩
      simp only [after, line?_happen (reached_after channel past), Line.opened?, hother]
      rfl
  | _ => exact .refl _

theorem alike_seen (history : List Event) :
    Alike channel number history (seen number history) := by
  induction history with
  | nil => exact .refl _
  | cons event past ih =>
    rw [seen]
    split
    · exact (alike_shown event past).trans (ih.cons _)
    · next hother => exact (alike_of_not_concerns (by simpa using hother) past).trans ih

/-- **What a client is sent.**  After any history of dispatches, forwarders at work, clients that
come and go and sockets that close or refuse, the texts that a client was sent are those of the
first reports that it accepted, in order.  The last ones wait in its mailbox, and at most one was
taken from there and not sent.  All this is the same after any other history in which the client can
see the same, whatever becomes of other clients. -/
theorem sent_after (channel : Channel Value) (history : List Event) (number : Nat) (c : Client)
    (hc : (after channel history).clients[number]? = some c) :
    (∃ passed kept m, (after channel history).channel.mailboxes[c.mailbox]? = some m ∧
      passed ++ (kept ++ m.reports) = accepted channel number history ∧
      c.sent.map Except.ok = passed.map Report.encode ∧
      (c.forwarding = true → kept = c.held.toList) ∧ kept.length ≤ 1) ∧
    ∀ history', seen number history' = seen number history →
      (after channel history').clients[number]? = some c := by
  have hl := line?_of_client hc
  refine ⟨?_, fun history' hseen => ?_⟩
  · obtain ⟨passed, kept, hsent⟩ := (serves_after hl).sent
    have hreached := reached_after channel history
    have hnumber := (List.getElem?_eq_some_iff.mp hc).1
    refine ⟨passed, kept, _, Channel.exists_getElem? _ c.mailbox ?_, hsent⟩
    rw [hreached.mailbox number c hc, hreached.mailboxes, ← hreached.clients]
    omega
  · have hsame : Alike channel number history _ := alike_seen history
    have hsame' : Alike channel number history' _ := alike_seen history'
    have hline := hsame'.line.symm
    rw [hseen, hsame.line, hl] at hline
    exact (exists_client_of_line? hline).1

/-- Two clients, one of which resets its connection at once; the other one has been sent the first
report and holds the second one. -/
theorem sent_after_reset :
    let history : List Event :=
      [.pick 0, .pass 1, .dispatch (.text "e") (.int 2), .pick 1, .pass 0, .pick 0,
        .dispatch (.text "e") (.int 1), .connect (some 0) none, .connect none none]
    ∃ c, (after {} history).clients[0]? = some c ∧
      c.sent = ["\x7b\"name\": \"e\", \"timestamp\": 0.0, \"payload\": 1\x7d"] ∧
      (∃ passed kept m, (after {} history).channel.mailboxes[c.mailbox]? = some m ∧
        passed ++ (kept ++ m.reports) = accepted {} 0 history ∧ kept = c.held.toList) ∧
      (accepted {} 0 history).map Report.payload = [.int 1, .int 2] ∧
      (after {} (seen 0 history)).clients[0]? = some c := by
  intro history
  have hc : (after {} history).clients[0]? = some
      { mailbox := 0
        held := some ⟨.text "e", .real (.zero false), .int 2⟩
        sent := ["\x7b\"name\": \"e\", \"timestamp\": 0.0, \"payload\": 1\x7d"] } := by
    decide +kernel
  obtain ⟨⟨passed, kept, m, hm, hreports, -, hkept, -⟩, hsame⟩ := sent_after {} history 0 _ hc
  exact ⟨_, hc, rfl, ⟨passed, kept, m, hm, hreports, hkept rfl⟩, by decide +kernel, hsame _ rfl⟩

end

end PromptChain.Broadcast
