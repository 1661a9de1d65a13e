import Mathlib.Data.List.TakeWhile
import PromptChain.Proofs.Json.Writable
import PromptChain.Proofs.Telemetry.Broadcasting
/-!
# Silence

A forwarder ends when its socket is closed or refuses a text, but it ends at a report that cannot be
written as well.  Of the reports that a client accepted it is sent those before the first one that
holds an integer with too many digits, and nothing after that (`sent_until_unwritable`).
-/

namespace PromptChain

open Telemetry

/-- Whether a report can be written.  Its objects have texts for keys, as all values do, so that no
key can be what makes it unwritable. -/
def Telemetry.Report.isWritable (r : Report Value) : Bool := r.toValue.isWritable

theorem Telemetry.Report.encode_told (r : Report Value) : Told r.isWritable r.encode :=
  Json.lenient_told r.toValue

def Telemetry.tellable (reports : List (Report Value)) : List (Report Value) :=
  reports.takeWhile Report.isWritable

/-- Whether the socket of a client is closed, or refused one of as many texts as there were. -/
def Client.IsCut (c : Client) (texts : Nat) : Prop :=
  c.closed = true ∨ ∃ n ∈ c.resetAfter, n ≤ c.sent.length ∧ c.sent.length < texts

theorem Client.IsCut.mono {c : Client} {texts more : Nat} (h : c.IsCut texts)
    (hle : texts ≤ more) : c.IsCut more :=
  h.imp_right fun ⟨n, hn, hsent, hlt⟩ => ⟨n, hn, hsent, Nat.lt_of_lt_of_le hlt hle⟩

namespace Broadcast

section

variable {reports passed rest : List (Report Value)} {sent : List String}

theorem isWritable_of_sent (hsent : sent.map Except.ok = passed.map Report.encode)
    {r : Report Value} (hr : r ∈ passed) : r.isWritable = true := by
  have hmem : r.encode ∈ sent.map Except.ok := hsent ▸ List.mem_map_of_mem hr
  obtain ⟨s, -, hs⟩ := List.mem_map.mp hmem
  exact r.encode_told.exists_iff.mp ⟨s, hs.symm⟩

theorem tellable_eq (hsent : sent.map Except.ok = passed.map Report.encode)
    (hreports : passed ++ rest = reports) : tellable reports = passed ++ tellable rest := by
  -- What was sent could be written.
  rw [← hreports, tellable,
    List.takeWhile_append_of_pos fun r hr => isWritable_of_sent hsent hr]
  rfl

theorem length_tellable_append (reports more : List (Report Value)) :
    (tellable reports).length ≤ (tellable (reports ++ more)).length := by
  rw [tellable, tellable, List.takeWhile_append]
  split
  · next hall => simp [hall]
  · exact Nat.le_refl _

theorem tellable_append_of_lt {more : List (Report Value)}
    (h : (tellable reports).length < reports.length) :
    tellable (reports ++ more) = tellable reports := by
  unfold tellable at *
  rw [List.takeWhile_append, if_neg (Nat.ne_of_lt h)]

theorem tellable_eq_self : tellable reports = reports ↔ reports.all Report.isWritable = true := by
  rw [tellable, List.takeWhile_eq_self_iff, List.all_eq_true]

end

/-! ## Why a forwarder ends -/

namespace Line

/-- A line whose forwarder is at work, or has ended because of its socket or because the next report
cannot be written. -/
def Excused (reports : List (Report Value)) (l : Line) : Prop :=
  l.client.forwarding = false → l.client.IsCut (tellable reports).length ∨
    l.client.sent.length = (tellable reports).length ∧ (tellable reports).length < reports.length

variable {l : Line} {reports : List (Report Value)} {connected : Bool}

theorem Excused.append (h : l.Excused reports) (more : List (Report Value)) :
    l.Excused (reports ++ more) := by
  intro hended
  rcases h hended with hcut | ⟨hsent, hlt⟩
  · exact .inl (hcut.mono (length_tellable_append reports more))
  · rw [tellable_append_of_lt hlt, List.length_append]
    exact .inr ⟨hsent, Nat.lt_add_right _ hlt⟩

theorem Excused.pick (h : l.Excused reports) : l.pick.Excused reports := by
  unfold Line.pick
  split
  · split <;> exact h
  · exact h

theorem Excused.pass (h : l.Excused reports) (hserves : l.Serves reports connected) :
    Excused reports { l with client := l.client.pass } := by
  unfold Client.pass
  split
  · next r hheld =>
    obtain ⟨passed, kept, hreports, hsent, hkept, -⟩ := hserves.sent
    rw [hkept (forwarding_of_held hserves hheld), hheld] at hreports
    have htellable := tellable_eq hsent hreports
    have hlength : l.client.sent.length = passed.length := by
      simpa using congrArg List.length hsent
    unfold Client.forward
    split
    · next s hs =>
      have hwritable := r.encode_told.exists_iff.mp ⟨s, hs⟩
      unfold Client.send
      split
      · next hcut =>
        intro _
        rw [Bool.or_eq_true, Option.any_eq_true] at hcut
        refine .inl (hcut.imp_right fun ⟨n, hn, hle⟩ => ⟨n, hn, of_decide_eq_true hle, ?_⟩)
        rw [htellable]
        simp [tellable, hwritable, Client.quit, hlength]
      · -- Only a socket that closes afterwards ends the forwarder.
        intro hended
        exact .inl (.inl (by simpa using hended))
    · next e he =>
      intro _
      right
      rw [htellable, ← hreports]
      simp [tellable, r.encode_told.eq_false he, Client.quit, hlength]
  · exact h

end Line

section

variable {channel : Channel Value} {number : Nat} {past : List Event} {l : Line}

theorem excused_happen (hl : (after channel past).line? number = some l)
    (h : isConnected number past = true → l.Excused (accepted channel number past)) (event : Event)
    (hconnected : isConnected number (event :: past) = true) :
    (l.happen (after channel past).channel (isConnected number past) number event).Excused
      (accepted channel number (event :: past)) := by
  cases event with
  | dispatch name payload =>
    rw [Line.happen]
    split
    · exact (h hconnected).append _
    · exact (h hconnected).append _
  | enable on => exact h hconnected
  | tick clock => exact h hconnected
  | connect resetAfter closeAfter =>
    rw [isConnected_connect hl] at hconnected
    exact h hconnected
  | pick other =>
    rw [Line.happen]
    split
    · exact (h hconnected).pick
    · exact h hconnected
  | pass other =>
    rw [Line.happen]
    split
    · exact (h hconnected).pass (serves_after hl)
    · exact h hconnected
  | close other =>
    rw [Line.happen]
    split
    · exact fun _ => .inl (.inl rfl)
    · exact h hconnected
  | leave other =>
    rw [isConnected, Bool.and_eq_true, decide_eq_true_eq] at hconnected
    rw [Line.happen, if_neg (by simp [hconnected.1])]
    exact h hconnected.2

theorem excused_after {history : List Event} (hl : (after channel history).line? number = some l) :
    isConnected number history = true → l.Excused (accepted channel number history) :=
  line?_induction
    (P := fun history l => isConnected number history = true →
      l.Excused (accepted channel number history))
    (fun _ _ _ _ _ hended => absurd hended.symm Bool.false_ne_true)
    (fun _ _ event hl h => excused_happen hl h event) hl

end

/-! ## Letting a forwarder work -/

def worked (number : Nat) : (count : Nat) → List Event → List Event
  | 0, past => past
  | count + 1, past => worked number count (.pass number :: .pick number :: past)

section

variable {channel : Channel Value} {number : Nat}

theorem turns_after (count : Nat) (past : List Event) :
    turns number count (after channel past) = after channel (worked number count past) := by
  induction count generalizing past with
  | zero => rfl
  | succ count ih => exact ih (.pass number :: .pick number :: past)

theorem isConnected_worked (other count : Nat) (past : List Event) :
    isConnected other (worked number count past) = isConnected other past := by
  induction count generalizing past with
  | zero => rfl
  | succ count ih => exact ih _

theorem accepted_worked (other count : Nat) (past : List Event) :
    accepted channel other (worked number count past) = accepted channel other past := by
  induction count generalizing past with
  | zero => rfl
  | succ count ih => exact ih _

namespace Line

def turn (l : Line) : Line := { l.pick with client := l.pick.client.pass }

def burden (l : Line) : Nat := l.client.held.toList.length + l.box.size

variable {l : Line} {reports : List (Report Value)} {connected : Bool}

theorem burden_le (l : Line) : l.burden ≤ l.box.size + 1 := by
  unfold burden
  cases l.client.held <;> simp [Nat.add_comm]

theorem held_pass (c : Client) : c.pass.held = none := by
  unfold Client.pass
  split
  · unfold Client.forward
    split
    · unfold Client.send
      split <;> rfl
    · rfl
  · assumption

theorem size_pick (hforwarding : l.client.forwarding = true) : l.pick.box.size ≤ l.burden - 1 := by
  unfold Line.pick burden
  cases l.client.held with
  | some r => simp [hforwarding]
  | none =>
    have hsize := Mailbox.size_take l.box
    cases htaken : l.box.take.1 with
    | some r => simp [hforwarding, hsize]
    | none =>
      have hempty : l.box.size = 0 := by
        rw [Mailbox.fst_take, List.head?_eq_none_iff] at htaken
        rw [← Mailbox.length_reports, htaken, List.length_nil]
      simp [hforwarding, hempty]

theorem burden_turn (h : l.Serves reports connected) (hturn : l.turn.client.forwarding = true) :
    l.client.forwarding = true ∧ l.turn.burden ≤ l.burden - 1 := by
  -- A forwarder that has ended holds nothing, and a turn does not bring it back.
  have hforwarding : l.client.forwarding = true := by
    by_contra hidle
    have hended := Bool.eq_false_iff.mpr hidle
    rw [turn, Line.pick, hended, Client.pass] at hturn
    simp [h.idle hended, hended] at hturn
  refine ⟨hforwarding, ?_⟩
  rw [burden, turn, held_pass, Option.toList_none, List.length_nil, Nat.zero_add]
  exact size_pick hforwarding

theorem Serves.sent_prefix (h : l.Serves reports connected) :
    l.client.sent.map Except.ok <+: (tellable reports).map Report.encode := by
  obtain ⟨passed, kept, hreports, hsent, -⟩ := h.sent
  rw [hsent, tellable_eq hsent hreports, List.map_append]
  exact List.prefix_append _ _

theorem Serves.sent_all (h : l.Serves reports connected) (hforwarding : l.client.forwarding = true)
    (hburden : l.burden = 0) :
    l.client.sent.map Except.ok = reports.map Report.encode ∧ tellable reports = reports := by
  obtain ⟨passed, kept, hreports, hsent, hkept, -⟩ := h.sent
  obtain ⟨hheld, hsize⟩ := Nat.add_eq_zero_iff.mp hburden
  rw [← Mailbox.length_reports, List.length_eq_zero_iff] at hsize
  rw [hkept hforwarding, List.length_eq_zero_iff.mp hheld, hsize, List.append_nil,
    List.append_nil] at hreports
  subst hreports
  exact ⟨hsent, (tellable_eq hsent (List.append_nil passed)).trans (List.append_nil passed)⟩

/-- What was sent when the forwarder has ended or has nothing left to forward. -/
theorem Serves.settled (h : l.Serves reports connected) (hexcused : l.Excused reports)
    (hburden : l.client.forwarding = true → l.burden = 0) :
    l.client.IsCut (tellable reports).length ∨
      l.client.sent.map Except.ok = (tellable reports).map Report.encode ∧
        l.client.forwarding = reports.all Report.isWritable := by
  cases hforwarding : l.client.forwarding with
  | true =>
    obtain ⟨hsent, htellable⟩ := h.sent_all hforwarding (hburden hforwarding)
    rw [htellable]
    exact .inr ⟨hsent, (tellable_eq_self.mp htellable).symm⟩
  | false =>
    refine (hexcused hforwarding).imp_right fun ⟨hsent, hlt⟩ => ⟨?_, ?_⟩
    · exact h.sent_prefix.eq_of_length (by rw [List.length_map, List.length_map, hsent])
    · refine (Bool.eq_false_iff.mpr fun hall => ?_).symm
      rw [tellable_eq_self.mpr hall] at hlt
      exact Nat.lt_irrefl _ hlt

end Line

theorem line?_worked {past : List Event} {l : Line} (hl : (after channel past).line? number = some l)
    (count : Nat) :
    ∃ l', (after channel (worked number count past)).line? number = some l' ∧
      (l'.client.forwarding = true →
        l.client.forwarding = true ∧ l'.burden ≤ l.burden - count) := by
  induction count generalizing past l with
  | zero => exact ⟨l, hl, fun hforwarding => ⟨hforwarding, Nat.le_refl _⟩⟩
  | succ count ih =>
    have hturned : (after channel (.pass number :: .pick number :: past)).line? number =
        some l.turn := by
      show (((after channel past).pick number).pass number).line? number = _
      rw [pass, line?_modify _ _ _ _ mailbox_pass, line?_pick (reached_after channel past), hl]
      simp [Line.turn]
    obtain ⟨l', hl', hless⟩ := ih hturned
    refine ⟨l', hl', fun hforwarding => ?_⟩
    obtain ⟨hturn, hcount⟩ := hless hforwarding
    obtain ⟨hbefore, hone⟩ := Line.burden_turn (serves_after hl) hturn
    exact ⟨hbefore, by omega⟩

/-- **What becomes of a client's reports.** -/
theorem sent_until_unwritable (channel : Channel Value) (history : List Event) (number : Nat)
    (c : Client) (hc : (after channel history).clients[number]? = some c)
    (hconnected : isConnected number history = true) :
    let reports := accepted channel number history
    let texts := (tellable reports).length
    (∀ r : Report Value, r.isWritable = true ↔ ∃ s, r.encode = .ok s) ∧
    c.sent.map Except.ok <+: (tellable reports).map Report.encode ∧
    (c.forwarding = false → c.IsCut texts ∨ c.sent.length = texts ∧ texts < reports.length) ∧
    ∀ count > (after channel history).waiting number,
      ∃ c', (turns number count (after channel history)).clients[number]? = some c' ∧
        (c'.IsCut texts ∨
          c'.sent.map Except.ok = (tellable reports).map Report.encode ∧
            c'.forwarding = reports.all Report.isWritable) := by
  intro reports texts
  have hl := line?_of_client hc
  have hserves := serves_after hl
  refine ⟨fun r => r.encode_told.exists_iff.symm, hserves.sent_prefix, excused_after hl hconnected,
    fun count hcount => ?_⟩
  obtain ⟨l', hl', hless⟩ := line?_worked hl count
  have hserves' := serves_after hl'
  have hexcused := excused_after hl' ((isConnected_worked _ _ _).trans hconnected)
  rw [accepted_worked] at hserves' hexcused
  rw [turns_after]
  refine ⟨l'.client, (exists_client_of_line? hl').1, hserves'.settled hexcused fun hforwarding => ?_⟩
  have hburden := (hless hforwarding).2
  have hle := Line.burden_le ⟨c, (after channel history).channel.mailbox c.mailbox⟩
  rw [waiting_eq hl] at hcount
  omega

/-- A report with too many digits between two others: the one after it is accepted and never sent,
although the socket is open and refuses nothing. -/
theorem silent_after_long_integer :
    let history : List Event :=
      [.dispatch (.text "n") (.int 2), .dispatch (.text "n") (.int (.ofNat (Nat.pow 10 4300))),
        .dispatch (.text "n") (.int 1), .connect none none]
    (accepted {} 0 history).map Report.isWritable = [true, false, true] ∧
      ∃ c, (turns 0 4 (after {} history)).clients[0]? = some c ∧
        c.closed = false ∧ c.resetAfter = none ∧ c.forwarding = false ∧
        c.sent.map Except.ok = (tellable (accepted {} 0 history)).map Report.encode ∧
        c.sent = ["\x7b\"name\": \"n\", \"timestamp\": 0.0, \"payload\": 1\x7d"] := by
  intro history
  have hc : (after {} history).clients[0]? = some { mailbox := 0 } := by decide +kernel
  have hend : (turns 0 4 (after {} history)).clients[0]? = some
      { mailbox := 0
        forwarding := false
        sent := ["\x7b\"name\": \"n\", \"timestamp\": 0.0, \"payload\": 1\x7d"] } := by
    decide +kernel
  obtain ⟨-, -, -, hturns⟩ := sent_until_unwritable {} history 0 _ hc (by decide +kernel)
  obtain ⟨c, hc', hcases⟩ := hturns 4 (by decide +kernel)
  obtain rfl := Option.some.inj (hend.symm.trans hc')
  refine ⟨by decide +kernel, _, hend, rfl, rfl, rfl, ?_, rfl⟩
  rcases hcases with (hclosed | ⟨n, hn, -⟩) | ⟨hsent, -⟩
  · exact absurd hclosed Bool.false_ne_true
  · exact absurd hn (Option.not_mem_none n)
  · exact hsent

end

end Broadcast

end PromptChain
