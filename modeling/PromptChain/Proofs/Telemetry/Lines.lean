import PromptChain.Broadcast
import PromptChain.Proofs.Telemetry.Channels
/-!
# Lines

A server is as many lines as it has clients, each with a client, its forwarder and its mailbox.  What
happens on one line does not depend on the others (`line?_happen`).
-/

namespace PromptChain.Broadcast

open Telemetry

/-! ## Histories -/

/-- What happens to a server.  A client that disconnects closes its socket and leaves. -/
inductive Event where
  | dispatch (name payload : Value)
  | enable (on : Bool)
  | tick (clock : Binary64)
  | connect (resetAfter closeAfter : Option Nat)
  | pick (number : Nat)
  | pass (number : Nat)
  | close (number : Nat)
  | leave (number : Nat)

def happen (b : Broadcast) : Event → Broadcast
  | .dispatch name payload => b.dispatch name payload
  | .enable on => { b with channel := { b.channel with enabled := on } }
  | .tick clock => { b with channel := { b.channel with clock } }
  | .connect resetAfter closeAfter => (b.connect resetAfter closeAfter).1
  | .pick number => b.pick number
  | .pass number => b.pass number
  | .close number => b.modify number fun c => { c with closed := true }
  | .leave number => b.leave number

/-- A server on a channel after a history, in which the latest event comes first. -/
def after (channel : Channel Value) : List Event → Broadcast
  | [] => { channel }
  | event :: past => (after channel past).happen event

def connects : List Event → Nat
  | [] => 0
  | .connect _ _ :: past => connects past + 1
  | _ :: past => connects past

def isConnected (number : Nat) : List Event → Bool
  | [] => false
  | .connect _ _ :: past => number = connects past || isConnected number past
  | .leave other :: past => other ≠ number && isConnected number past
  | _ :: past => isConnected number past

theorem isConnected_lt {number : Nat} {history : List Event} (h : isConnected number history = true) :
    number < connects history := by
  induction history with
  | nil => exact absurd h Bool.false_ne_true
  | cons event past ih =>
    cases event with
    | connect resetAfter closeAfter =>
      rw [isConnected, Bool.or_eq_true, decide_eq_true_eq] at h
      rw [connects]
      rcases h with h | h
      · omega
      · exact Nat.lt_succ_of_lt (ih h)
    | leave other =>
      rw [isConnected, Bool.and_eq_true] at h
      exact ih h.2
    | _ => exact ih h

/-! ## Lines -/

structure Line where
  client : Client
  box : Mailbox Value

namespace Line

def pick (l : Line) : Line :=
  if l.client.forwarding && l.client.held.isNone then
    match l.box.take.1 with
    | some r => ⟨{ l.client with held := some r }, l.box.take.2⟩
    | none => l
  else l

def leave (l : Line) : Line := ⟨l.client.quit, { l.box with subscribed := false }⟩

/-- What an event makes of the line of a client, where the channel and whether the client is
connected are given. -/
def happen (channel : Channel Value) (connected : Bool) (number : Nat) (l : Line) : Event → Line
  | .dispatch name payload =>
    if channel.enabled then { l with box := l.box.put (channel.report name payload) } else l
  | .pick other => if other = number then l.pick else l
  | .pass other => if other = number then { l with client := l.client.pass } else l
  | .close other =>
    if other = number then { l with client := { l.client with closed := true } } else l
  | .leave other => if other = number && connected then l.leave else l
  | _ => l

def opened? (channel : Channel Value) (others number : Nat) : Event → Option Line
  | .connect resetAfter closeAfter =>
    if number = others then
      some ⟨{ mailbox := channel.mailboxes.length + number, resetAfter, closeAfter },
        Channel.mailboxOf Channel.defaultSize⟩
    else none
  | _ => none

end Line

def line? (b : Broadcast) (number : Nat) : Option Line :=
  b.clients[number]?.map fun c => ⟨c, b.channel.mailbox c.mailbox⟩

/-- What a server is like after a history, apart from what its clients and mailboxes have got. -/
structure Reached (channel : Channel Value) (history : List Event) (b : Broadcast) : Prop where
  clients : b.clients.length = connects history
  mailboxes : b.channel.mailboxes.length = channel.mailboxes.length + connects history
  mailbox : ∀ number c, b.clients[number]? = some c →
    c.mailbox = channel.mailboxes.length + number
  nodup : b.registered.Nodup
  registered : ∀ number, number ∈ b.registered ↔ isConnected number history = true

section

variable {channel : Channel Value} {history : List Event} {b : Broadcast}

@[simp] theorem mailbox_quit (c : Client) : c.quit.mailbox = c.mailbox := rfl

@[simp] theorem mailbox_pass (c : Client) : c.pass.mailbox = c.mailbox := by
  unfold Client.pass
  split
  · unfold Client.forward
    split
    · unfold Client.send
      split <;> rfl
    · rfl
  · rfl

theorem Reached.modify (h : Reached channel history b) (other : Nat) (f : Client → Client)
    (hf : ∀ c, (f c).mailbox = c.mailbox) : Reached channel history (b.modify other f) where
  clients := (List.length_modify ..).trans h.clients
  mailboxes := h.mailboxes
  mailbox := by
    intro number c hc
    rw [Broadcast.modify, List.getElem?_modify] at hc
    obtain ⟨c', hc', rfl⟩ := Option.map_eq_some_iff.mp hc
    split
    · rw [hf]
      exact h.mailbox number c' hc'
    · exact h.mailbox number c' hc'
  nodup := h.nodup
  registered := h.registered

theorem Reached.connect (h : Reached channel history b) (resetAfter closeAfter : Option Nat) :
    Reached channel (.connect resetAfter closeAfter :: history)
      (b.connect resetAfter closeAfter).1 where
  clients := by
    rw [Broadcast.connect, Channel.subscribe]
    simp [h.clients, connects]
  mailboxes := by
    rw [Broadcast.connect, Channel.subscribe]
    simp [h.mailboxes, connects, Nat.add_assoc]
  mailbox := by
    intro number c hc
    simp only [Broadcast.connect, Channel.subscribe, List.getElem?_append] at hc
    split at hc
    · exact h.mailbox number c hc
    · next hnumber =>
      obtain ⟨hlast, hclient⟩ := List.getElem?_eq_some_iff.mp hc
      rw [List.getElem_singleton] at hclient
      rw [List.length_singleton] at hlast
      rw [← hclient]
      show b.channel.mailboxes.length = _
      rw [h.mailboxes, ← h.clients]
      omega
  nodup := by
    have hfresh : b.clients.length ∉ b.registered := by
      rw [h.registered, h.clients]
      exact fun hconnected => Nat.lt_irrefl _ (isConnected_lt hconnected)
    exact List.nodup_append.mpr ⟨h.nodup, List.nodup_singleton _, by grind⟩
  registered := by
    intro number
    rw [Broadcast.connect, Channel.subscribe]
    simp only [List.mem_append, List.mem_singleton, h.registered, h.clients, isConnected,
      Bool.or_eq_true, decide_eq_true_eq]
    exact or_comm

theorem Reached.take (h : Reached channel history b) (number : Nat) :
    Reached channel history { b with channel := (b.channel.take number).2 } :=
  { h with
    mailboxes := by
      rw [Channel.snd_take, List.length_modify]
      exact h.mailboxes }

theorem pick_cases (b : Broadcast) (number : Nat) :
    (∃ c r, b.clients[number]? = some c ∧ (c.forwarding && c.held.isNone) = true ∧
      (b.channel.take c.mailbox).1 = some r ∧
      b.pick number = { b with channel := (b.channel.take c.mailbox).2 }.modify number fun c =>
        { c with held := some r }) ∨
    b.pick number = b ∧ ∀ c, b.clients[number]? = some c →
      (c.forwarding && c.held.isNone) = true → (b.channel.take c.mailbox).1 = none := by
  unfold Broadcast.pick
  cases hc : b.clients[number]? with
  | none => exact .inr ⟨rfl, fun c h => absurd h (Option.some_ne_none c).symm⟩
  | some c =>
    by_cases hfree : (c.forwarding && c.held.isNone) = true
    · rcases htake : b.channel.take c.mailbox with ⟨_ | r, rest⟩
      · refine .inr ⟨by simp [hfree, htake], ?_⟩
        rintro _ ⟨⟩ -
        rw [htake]
      · exact .inl ⟨c, r, rfl, hfree, by rw [htake], by simp [hfree, htake]⟩
    · refine .inr ⟨by simp [hfree], ?_⟩
      rintro _ ⟨⟩ h
      exact absurd h hfree

theorem Reached.pick (h : Reached channel history b) (number : Nat) :
    Reached channel history (b.pick number) := by
  obtain ⟨c, r, -, -, -, hpick⟩ | ⟨hpick, -⟩ := pick_cases b number
  · rw [hpick]
    exact (h.take c.mailbox).modify number (fun c => { c with held := some r }) fun c => rfl
  · rw [hpick]
    exact h

theorem Reached.leave (h : Reached channel history b) (number : Nat) :
    Reached channel (.leave number :: history) (b.leave number) := by
  have hleft : ∀ other, isConnected other (.leave number :: history) = true ↔
      other ≠ number ∧ isConnected other history = true := by
    intro other
    rw [isConnected, Bool.and_eq_true, decide_eq_true_eq, ne_comm]
  by_cases hnumber : number ∈ b.registered
  · have hconnected := (h.registered number).mp hnumber
    have hlt : number < b.clients.length := h.clients ▸ isConnected_lt hconnected
    rw [Broadcast.leave, if_pos hnumber, List.getElem?_eq_getElem hlt]
    exact
      { h.modify number Client.quit mailbox_quit with
        mailboxes := (List.length_modify ..).trans h.mailboxes
        nodup := h.nodup.erase number
        registered := fun other => by rw [hleft, h.nodup.mem_erase_iff, h.registered] }
  · rw [Broadcast.leave, if_neg hnumber]
    refine { h with registered := fun other => ?_ }
    rw [hleft, h.registered]
    refine ⟨fun hother => ⟨?_, hother⟩, And.right⟩
    rintro rfl
    exact hnumber ((h.registered other).mpr hother)

theorem reached_happen (h : Reached channel history b) (event : Event) :
    Reached channel (event :: history) (b.happen event) := by
  cases event with
  | dispatch name payload =>
    refine { h with mailboxes := ?_ }
    rw [happen, dispatch, Channel.mailboxes_dispatch]
    split
    · rw [List.length_map]
      exact h.mailboxes
    · exact h.mailboxes
  | enable on => exact { h with }
  | tick clock => exact { h with }
  | connect resetAfter closeAfter => exact h.connect resetAfter closeAfter
  | pick number => exact { h.pick number with }
  | pass number => exact { h.modify number Client.pass mailbox_pass with }
  | close number => exact { h.modify number (fun c => { c with closed := true }) fun c => rfl with }
  | leave number => exact h.leave number

theorem reached_after (channel : Channel Value) (history : List Event) :
    Reached channel history (after channel history) := by
  induction history with
  | nil =>
    exact ⟨rfl, rfl, fun number c hc => by simp [after] at hc, List.nodup_nil,
      fun number => by simp [after, isConnected]⟩
  | cons event past ih => exact reached_happen ih event

/-! ## What happens on a line -/

theorem line?_modify (b : Broadcast) (number other : Nat) (f : Client → Client)
    (hf : ∀ c, (f c).mailbox = c.mailbox) :
    (b.modify other f).line? number =
      (b.line? number).map fun l => if other = number then { l with client := f l.client } else l := by
  simp only [line?, modify, List.getElem?_modify]
  cases b.clients[number]? with
  | none => rfl
  | some c =>
    by_cases hnumber : other = number
    · simp [hnumber, hf]
    · simp [hnumber]

theorem line?_connect (h : Reached channel history b) (number : Nat)
    (resetAfter closeAfter : Option Nat) :
    (b.connect resetAfter closeAfter).1.line? number =
      (Line.opened? channel (connects history) number (.connect resetAfter closeAfter)).or
        (b.line? number) := by
  simp only [connect, line?, Line.opened?, ← h.clients]
  rcases Nat.lt_trichotomy number b.clients.length with hnumber | hnumber | hnumber
  · -- The mailbox is another one than the new one.
    have hc := List.getElem?_eq_getElem hnumber
    have hmailbox := h.mailbox number _ hc
    rw [if_neg (by omega), Option.none_or, List.getElem?_append_left hnumber, hc, Option.map_some,
      Option.map_some, Channel.mailbox_subscribe, if_neg]
    rw [hmailbox, h.mailboxes, ← h.clients]
    omega
  · rw [if_pos hnumber, Option.some_or, hnumber, List.getElem?_concat_length, Option.map_some,
      Channel.mailbox_subscribe, h.clients, ← h.mailboxes]
    exact congrArg some (congrArg (Line.mk _) (if_pos rfl))
  · rw [if_neg (by omega), Option.none_or, List.getElem?_eq_none (by simp; omega),
      List.getElem?_eq_none (by omega)]
    rfl

theorem line?_pick (h : Reached channel history b) (number other : Nat) :
    (b.pick other).line? number =
      (b.line? number).map fun l => if other = number then l.pick else l := by
  obtain ⟨c, r, hc, hfree, htaken, hpick⟩ | ⟨hpick, hnone⟩ := pick_cases b other
  · rw [hpick, line?_modify _ number other (fun c => { c with held := some r }) fun c => rfl]
    rw [Channel.fst_take] at htaken
    simp only [line?, Option.map_map]
    cases hnumber : b.clients[number]? with
    | none => rfl
    | some c' =>
      have hmailbox : c.mailbox = c'.mailbox ↔ other = number := by
        rw [h.mailbox other c hc, h.mailbox number c' hnumber]
        omega
      by_cases heq : other = number
      · subst heq
        obtain rfl := Option.some.inj (hc.symm.trans hnumber)
        have hline : Line.pick ⟨c, b.channel.mailbox c.mailbox⟩ =
            ⟨{ c with held := some r }, (b.channel.mailbox c.mailbox).take.2⟩ := by
          rw [Line.pick, if_pos hfree, htaken]
        simp [hline, Channel.mailbox_take]
      · simp [heq, Channel.mailbox_take, hmailbox]
  · rw [hpick]
    cases hnumber : b.clients[number]? with
    | none => simp [line?, hnumber]
    | some c =>
      by_cases heq : other = number
      · subst heq
        have hline : Line.pick ⟨c, b.channel.mailbox c.mailbox⟩ =
            ⟨c, b.channel.mailbox c.mailbox⟩ := by
          rw [Line.pick]
          split
          · next hfree =>
            rw [← Channel.fst_take, hnone c hnumber hfree]
          · rfl
        simp [line?, hnumber, hline]
      · simp [line?, hnumber, heq]

theorem line?_leave (h : Reached channel history b) (number other : Nat) :
    (b.leave other).line? number =
      (b.line? number).map fun l =>
        if other = number && isConnected number history then l.leave else l := by
  by_cases hother : other ∈ b.registered
  · have hconnected := (h.registered other).mp hother
    have hlt : other < b.clients.length := h.clients ▸ isConnected_lt hconnected
    have hc := List.getElem?_eq_getElem hlt
    rw [leave, if_pos hother, hc]
    simp only [line?, List.getElem?_modify]
    cases hnumber : b.clients[number]? with
    | none => rfl
    | some c =>
      have hmailbox : b.clients[other].mailbox = c.mailbox ↔ other = number := by
        rw [h.mailbox other _ hc, h.mailbox number c hnumber]
        omega
      by_cases heq : other = number
      · subst heq
        simp [hconnected, Channel.mailbox_unsubscribe, hmailbox, Line.leave]
      · simp [heq, Channel.mailbox_unsubscribe, hmailbox]
  · rw [leave, if_neg hother]
    have hgone : (other = number && isConnected number history) = false := by
      rw [Bool.and_eq_false_imp, decide_eq_true_eq]
      rintro rfl
      exact Bool.eq_false_iff.mpr (mt (h.registered other).mpr hother)
    simp [hgone]

/-- **What happens on a line**: an event opens it or makes something of it that depends on nothing
but the line, and on whether the channel is on and what time it is. -/
theorem line?_happen (h : Reached channel history b) (number : Nat) (event : Event) :
    (b.happen event).line? number =
      (Line.opened? channel (connects history) number event).or
        ((b.line? number).map fun l =>
          l.happen b.channel (isConnected number history) number event) := by
  cases event with
  | dispatch name payload =>
    simp only [happen, dispatch, line?, Channel.mailbox_dispatch, Line.happen, Line.opened?,
      Option.none_or, Option.map_map]
    congr 1
    ext1 c
    dsimp only [Function.comp]
    split <;> rfl
  | enable on => exact (Option.map_id' ..).symm
  | tick clock => exact (Option.map_id' ..).symm
  | connect resetAfter closeAfter =>
    rw [happen, line?_connect h]
    congr 1
    exact (Option.map_id' ..).symm
  | pick other => exact line?_pick h number other
  | pass other => exact line?_modify b number other Client.pass mailbox_pass
  | close other =>
    exact line?_modify b number other (fun c => { c with closed := true }) fun c => rfl
  | leave other => exact line?_leave h number other

/-- What is true of a line that is opened, and stays true whatever happens, is true of a line after
every history. -/
theorem line?_induction {number : Nat} {P : List Event → Line → Prop}
    (hopened : ∀ past resetAfter closeAfter, number = connects past →
      P (.connect resetAfter closeAfter :: past)
        ⟨{ mailbox := channel.mailboxes.length + number, resetAfter, closeAfter },
          Channel.mailboxOf Channel.defaultSize⟩)
    (hhappen : ∀ past l event, (after channel past).line? number = some l → P past l →
      P (event :: past)
        (l.happen (after channel past).channel (isConnected number past) number event))
    {history : List Event} {l : Line} (hl : (after channel history).line? number = some l) :
    P history l := by
  induction history generalizing l with
  | nil => simp [after, line?] at hl
  | cons event past ih =>
    rw [after, line?_happen (reached_after channel past)] at hl
    rcases Option.or_eq_some_iff.mp hl with hnew | ⟨-, hmap⟩
    · cases event with
      | connect resetAfter closeAfter =>
        rw [Line.opened?, Option.ite_none_right_eq_some] at hnew
        obtain ⟨hnumber, hl⟩ := hnew
        obtain rfl := Option.some.inj hl
        exact hopened past resetAfter closeAfter hnumber
      | _ => contradiction
    · obtain ⟨before, hbefore, rfl⟩ := Option.map_eq_some_iff.mp hmap
      exact hhappen past before event hbefore (ih hbefore)

theorem line?_of_client {number : Nat} {c : Client} (hc : b.clients[number]? = some c) :
    b.line? number = some ⟨c, b.channel.mailbox c.mailbox⟩ := by
  rw [line?, hc, Option.map_some]

theorem exists_client_of_line? {number : Nat} {l : Line} (hl : b.line? number = some l) :
    b.clients[number]? = some l.client ∧ l.box = b.channel.mailbox l.client.mailbox := by
  obtain ⟨c, hc, rfl⟩ := Option.map_eq_some_iff.mp hl
  exact ⟨hc, rfl⟩

theorem isConnected_connect {number : Nat} {l : Line} {past : List Event}
    {resetAfter closeAfter : Option Nat} (hl : (after channel past).line? number = some l) :
    isConnected number (.connect resetAfter closeAfter :: past) = isConnected number past := by
  obtain ⟨hlt, -⟩ := List.getElem?_eq_some_iff.mp (exists_client_of_line? hl).1
  rw [(reached_after channel past).clients] at hlt
  rw [isConnected, decide_eq_false (by omega), Bool.false_or]

theorem waiting_eq {number : Nat} {l : Line} (hl : b.line? number = some l) :
    b.waiting number = l.box.size := by
  obtain ⟨hc, hbox⟩ := exists_client_of_line? hl
  rw [waiting, hc, hbox, Option.bind_some, Channel.mailbox]
  cases b.channel.mailboxes[l.client.mailbox]? <;> rfl

end

end PromptChain.Broadcast
