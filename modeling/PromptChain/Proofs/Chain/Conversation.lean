import PromptChain.Proofs.Chain.Account
/-!
# Conversations

The history of a chain consists of the exchanges that were completed, in order, but for those of
incognito prompts and of the incognito mode.  Each is entered as a whole, with the message that was
sent, so that every request is a conversation in which the user has the first and the last word.
-/

namespace PromptChain

structure Turn where
  provider : Value
  system : Value
  history : List Message
  content : String
  /-- Whether the prompt or the history was incognito. -/
  hidden : Bool
  reply : Except Fault Value

namespace Turn

def request (turn : Turn) : Request where
  provider := turn.provider
  messages := turn.history ++ [.user turn.content]
  system := turn.system

def entry (turn : Turn) : Request × Except Fault Value := (turn.request, turn.reply)

/-- What a turn adds to a conversation: both messages if it was answered, unless it is hidden. -/
def exchange (turn : Turn) : List Message :=
  match turn.reply with
  | .error _ => []
  | .ok v => if turn.hidden then [] else [.user turn.content, .assistant v]

end Turn

/-- Whether messages come from the user and from the model in turns, the first and the last one from
the user. -/
def Alternates : List Message → Prop
  | [] => False
  | [m] => m.role = Message.userRole
  | m :: n :: rest =>
    m.role = Message.userRole ∧ n.role = Message.assistantRole ∧ Alternates rest

theorem alternates_exchanges (turns : List Turn) (content : String) :
    Alternates (turns.flatMap Turn.exchange ++ [.user content]) := by
  induction turns with
  | nil => rfl
  | cons turn rest ih =>
    rw [List.flatMap_cons, List.append_assoc]
    unfold Turn.exchange
    split
    · exact ih
    split
    · exact ih
    · exact ⟨rfl, rfl, ih⟩

theorem Chain.perform_conversing (c : Chain) {command : Command}
    {next : Except Fault Reply → Script} (hcommand : Rule.conversing command next) :
    (c.perform command).2.1.history.entries = c.history.entries ∧
      ((c.perform command).2.1.formatter = none → c.formatter = none) := by
  obtain ⟨-, hclear, hdelete⟩ := hcommand
  cases command with
  | clearHistory => exact absurd rfl hclear
  | deleteHistory index => exact absurd rfl (hdelete index)
  | format schema => exact ⟨rfl, nofun⟩
  | system lines =>
    simp only [perform, system]
    cases lines.joinInput <;> exact ⟨rfl, id⟩
  | prompt lines =>
    simp only [perform, build]
    cases Prompt.editAll c.artifacts {} [.text lines] <;> exact ⟨rfl, id⟩
  | build edits =>
    simp only [perform, build]
    cases Prompt.editAll c.artifacts {} edits <;> exact ⟨rfl, id⟩
  | insert key v =>
    simp only [perform, insert]
    cases c.artifacts.set key v <;> exact ⟨rfl, id⟩
  | use provider =>
    simp only [perform, use]
    cases useLabel provider <;> exact ⟨rfl, id⟩
  | retry =>
    simp only [perform, retry]
    rcases undoLast c.queue.entries with _ | _ | _ <;> exact ⟨rfl, id⟩
  | retype index kind =>
    simp only [perform, retype]
    cases Value.place "tuple" "tuple index" c.queue.length index <;> exact ⟨rfl, id⟩
  | _ => exact ⟨rfl, id⟩

namespace Session

variable {ε : Type}

def turn (b : Backend ε) (s : Session ε) (p : Prompt) (content : String) : Turn where
  provider := s.chain.active
  system := s.chain.systemText
  history := s.chain.history.entries
  content := content
  hidden := p.incognito || s.chain.history.incognito
  reply := (b.chat s.chain.active (s.chain.history.entries ++ [.user content]) s.chain.systemText
    s.env).1

def Visit.turn? (b : Backend ε) (v : Visit ε) : Option Turn :=
  match v.item.step with
  | .prompt p =>
    match resolve v.before.chain.artifacts p.content with
    | .error _ => none
    | .ok content => some (v.before.turn b p content)
  | _ => none

def Visit.turns (b : Backend ε) (visited : List (Visit ε)) : List Turn :=
  visited.filterMap (Visit.turn? b)

theorem Visit.turns_append (b : Backend ε) (front back : List (Visit ε)) :
    Visit.turns b (front ++ back) = Visit.turns b front ++ Visit.turns b back :=
  List.filterMap_append

theorem Visit.turns_singleton (b : Backend ε) (v : Visit ε) :
    Visit.turns b [v] = (v.turn? b).toList := by
  cases hturn : v.turn? b <;> simp [Visit.turns, hturn]

theorem Visit.turns_of_error {b : Backend ε} {v : Visit ε} {p : Prompt} {e : Fault}
    (hstep : v.item.step = .prompt p) (hm : p.message v.before.chain.artifacts = .error e) :
    Visit.turns b [v] = [] := by
  unfold Prompt.message at hm
  cases hresolve : resolve v.before.chain.artifacts p.content with
  | error fault => simp [Visit.turns, Visit.turn?, hstep, hresolve]
  | ok content =>
    rw [hresolve] at hm
    cases hm

theorem Visit.turns_of_ok {b : Backend ε} {v : Visit ε} {p : Prompt} {m : Message}
    (hstep : v.item.step = .prompt p) (hm : p.message v.before.chain.artifacts = .ok m) :
    ∃ content, m = .user content ∧ Visit.turns b [v] = [v.before.turn b p content] := by
  unfold Prompt.message at hm
  cases hresolve : resolve v.before.chain.artifacts p.content with
  | error e =>
    rw [hresolve] at hm
    cases hm
  | ok content =>
    rw [hresolve] at hm
    cases hm
    exact ⟨content, rfl, by simp [Visit.turns, Visit.turn?, hstep, hresolve]⟩

/-! ## Moves -/

inductive Move where
  | command (command : Command)
  | process (limit : Limit) (returnKey : Value)

namespace Move

def Obeys (rule : Rule) : Move → Prop
  | command c => (Script.answer c).Obeys rule
  | process .. => True

def make (b : Backend ε) (s : Session ε) : Move → Session ε
  | command c => (s.perform b c).2
  | process limit returnKey => (Session.process b limit returnKey s).2

def visits (b : Backend ε) (s : Session ε) : Move → List (Visit ε)
  | command _ => []
  | process limit _ => Session.visits b limit.budget 0 s

def turns (b : Backend ε) (s : Session ε) : Move → List Turn
  | command _ => []
  | process limit _ => Visit.turns b (Session.visits b limit.budget 0 s)

end Move

def play (b : Backend ε) (moves : List Move) (s : Session ε) : Session ε :=
  moves.foldl (Move.make b) s

def visited (b : Backend ε) : List Move → Session ε → List (Visit ε)
  | [], _ => []
  | move :: rest, s => move.visits b s ++ visited b rest (move.make b s)

def turns (b : Backend ε) : List Move → Session ε → List Turn
  | [], _ => []
  | move :: rest, s => move.turns b s ++ turns b rest (move.make b s)

/-! ## Steps -/

variable {b : Backend ε}

structure Spoken (past : List Turn) (s : Session (ε × Account)) : Prop where
  /-- A formatter talks to providers as well. -/
  accounted : (past.map Turn.entry).Sublist s.account
  plain : s.chain.formatter = none → s.account = past.map Turn.entry
  history : s.chain.history.entries = past.flatMap Turn.exchange
  ordered : ∀ before turn after, past = before ++ turn :: after →
    turn.history = before.flatMap Turn.exchange

variable {past : List Turn} {s t : Session (ε × Account)}

theorem Spoken.later (h : Spoken past s) (haccount : s.account <+: t.account)
    (hhistory : t.chain.history.entries = s.chain.history.entries)
    (hplain : t.chain.formatter = none → s.chain.formatter = none ∧ t.account = s.account) :
    Spoken past t where
  accounted := h.accounted.trans haccount.sublist
  plain := fun hformatter => (hplain hformatter).2.trans (h.plain (hplain hformatter).1)
  history := hhistory.trans h.history
  ordered := h.ordered

theorem Spoken.of_eq (h : Spoken past s) (haccount : t.account = s.account)
    (hhistory : t.chain.history.entries = s.chain.history.entries)
    (hformatter : t.chain.formatter = none → s.chain.formatter = none) : Spoken past t :=
  h.later (haccount ▸ List.prefix_refl _) hhistory fun hnone => ⟨hformatter hnone, haccount⟩

theorem Spoken.append (h : Spoken past s) {turn : Turn}
    (hturn : turn.history = s.chain.history.entries)
    (haccount : t.account = s.account ++ [turn.entry])
    (hhistory : t.chain.history.entries = s.chain.history.entries ++ turn.exchange)
    (hformatter : t.chain.formatter = s.chain.formatter) : Spoken (past ++ [turn]) t where
  accounted := by
    rw [haccount, List.map_append]
    exact h.accounted.append_right _
  plain := fun hnone => by rw [haccount, h.plain (hformatter ▸ hnone), List.map_append]; rfl
  history := by simp [hhistory, h.history]
  ordered := by
    intro before other after hsplit
    rcases List.eq_nil_or_concat after with rfl | ⟨front, last, rfl⟩
    · obtain ⟨rfl, heq⟩ := List.append_inj' hsplit rfl
      cases heq
      rw [hturn, h.history]
    · have hsplit' : past ++ [turn] = (before ++ other :: front) ++ [last] := by simpa using hsplit
      obtain ⟨hpast, -⟩ := List.append_inj' hsplit' rfl
      exact h.ordered before other front hpast

theorem Spoken.perform (h : Spoken past s) {command : Command}
    {next : Except Fault Reply → Script} (hcommand : Rule.conversing command next) :
    Spoken past (s.perform b.traced command).2 := by
  obtain ⟨hhistory, hformatter⟩ := s.chain.perform_conversing hcommand
  rw [← chain_perform (b := b.traced)] at hhistory hformatter
  exact h.of_eq (account_perform b s command) hhistory hformatter

theorem Spoken.executePrompt (h : Spoken past s) (position : Nat) {i : Item} {p : Prompt}
    (hstep : i.step = .prompt p)
    (hreply : ∀ turn ∈ Visit.turns b.traced [⟨position, i, s⟩], turn.reply ≠ .ok .null) :
    Spoken (past ++ Visit.turns b.traced [⟨position, i, s⟩])
      (s.executePrompt b.traced i.serial p).2 := by
  have hsent := sent_executePrompt b.traced s i.serial p
  generalize s.executePrompt b.traced i.serial p = result at hsent
  cases hsent with
  | unresolved hm =>
    rw [Visit.turns_of_error hstep hm, List.append_nil]
    exact h
  | @unanswered m e env hm hchat =>
    obtain ⟨content, rfl, hturns⟩ :=
      Visit.turns_of_ok (b := b.traced) (v := ⟨position, i, s⟩) hstep hm
    have henv := congrArg (fun r => r.2.2) hchat
    have houtcome : (s.turn b.traced p content).reply = .error e := congrArg Prod.fst hchat
    rw [hturns]
    refine h.append rfl henv.symm ?_ rfl
    simp [Turn.exchange, houtcome]
  | @answered m response env hm hchat =>
    obtain ⟨content, rfl, hturns⟩ :=
      Visit.turns_of_ok (b := b.traced) (v := ⟨position, i, s⟩) hstep hm
    have henv := congrArg (fun r => r.2.2) hchat
    have houtcome : (s.turn b.traced p content).reply = .ok response := congrArg Prod.fst hchat
    have hresponse : response ≠ .null := by
      rintro rfl
      exact hreply _ (hturns ▸ List.mem_singleton_self _) houtcome
    obtain ⟨artifacts, hchain, hkept⟩ := chain_keep
      (s := s.answer i.serial p (.user content) response env)
      (p.delivery (.user content) response).kept
    rw [hturns]
    refine h.append rfl ?_ ?_ ?_
    · rw [account, hkept, env_answer]
      exact henv.symm
    · have hexchange : (s.turn b.traced p content).exchange =
          if p.incognito || s.chain.history.incognito then []
          else [.user content, .assistant response] := by
        rw [Turn.exchange, houtcome]
        rfl
      rw [hchain, chain_answer, hexchange]
      simp only [hresponse, decide_false, Bool.or_false]
      split
      · exact (List.append_nil _).symm
      · rfl
    · rw [hchain, chain_answer]
      rfl

theorem Spoken.runScript (h : Spoken past s) {script : Script}
    (hobeys : script.Obeys Rule.conversing) : Spoken past (runScript b.traced script s).2 := by
  apply runScript_invariant (Spoken past) h
  intro g hg hspoken
  obtain ⟨⟨next, hcommand⟩, -⟩ := given_obeys hobeys g hg
  exact hspoken.perform hcommand

theorem Spoken.execute (h : Spoken past s) (position : Nat) {i : Item}
    (hobeys : i.step.Obeys Rule.conversing)
    (hreply : ∀ turn ∈ Visit.turns b.traced [⟨position, i, s⟩], turn.reply ≠ .ok .null) :
    Spoken (past ++ Visit.turns b.traced [⟨position, i, s⟩]) (s.execute b.traced i).2 := by
  obtain ⟨serial, label, executed, step, result⟩ := i
  cases step with
  | prompt p => exact h.executePrompt position rfl hreply
  | hook shown run runs last =>
    have hrunning : Spoken past (s.modifyItem serial Item.running) := h.of_eq rfl rfl id
    have hran := hrunning.runScript (b := b) (hobeys (runs + 1))
    simp only [Visit.turns_singleton, Visit.turn?, Option.toList_none, List.append_nil,
      Session.execute, executeHook]
    split
    · next heq =>
      rw [heq] at hran
      exact hran
    · next heq =>
      rw [heq] at hran
      exact hran.of_eq rfl rfl id
  | system text =>
    rw [Visit.turns_singleton, Visit.turn?, Option.toList_none, List.append_nil]
    exact h.of_eq rfl rfl id
  | use provider =>
    simp only [Visit.turns_singleton, Visit.turn?, Option.toList_none, List.append_nil,
      Session.execute, activate]
    split
    · exact h
    · exact h
    · exact h.of_eq rfl rfl id
  | foreign kind inner => exact hobeys.elim

/-! ## Runs -/

theorem Spoken.complete (h : Spoken past s) (serial : Nat) (v : Value) :
    Spoken past (s.complete serial v) :=
  h.of_eq rfl rfl id

theorem obeys_step {i : Item} (hs : s.chain.Obeys Rule.conversing True)
    (hi : i.step.Obeys Rule.conversing) :
    (s.execute b.traced i).2.chain.Obeys Rule.conversing True :=
  obeys_execute (fun _ _ hrule => ⟨hrule.1, fun _ => trivial⟩) hs hi

theorem Spoken.walks {index last : Nat} {done : List (Visit (ε × _))}
    (hwalks : Walks b.traced index s done last t) (h : Spoken past s)
    (hs : s.chain.Obeys Rule.conversing True)
    (hreply : ∀ turn ∈ Visit.turns b.traced done, turn.reply ≠ .ok .null) :
    Spoken (past ++ Visit.turns b.traced done) t ∧ t.chain.Obeys Rule.conversing True := by
  induction hwalks generalizing past with
  | stay => exact ⟨by simpa [Visit.turns] using h, hs⟩
  | @step index position last s t u i v done hnext hrun rest ih =>
    have hi : i.step.Obeys Rule.conversing := hs i (mem_of_nextPending? hnext) (.inl trivial)
    rw [← List.singleton_append, Visit.turns_append] at hreply ⊢
    have hexecuted := h.execute (b := b) position hi fun turn hturn =>
      hreply turn (List.mem_append_left _ hturn)
    have hobeys := obeys_step (b := b) hs hi
    rw [hrun] at hexecuted hobeys
    rw [← List.append_assoc]
    exact ih (hexecuted.complete i.serial v) (obeys_complete hobeys _ _) fun turn hturn =>
      hreply turn (List.mem_append_right _ hturn)

theorem Spoken.walk (h : Spoken past s) (hs : s.chain.Obeys Rule.conversing True) (budget : Nat)
    (hreply : ∀ turn ∈ Visit.turns b.traced (visits b.traced budget 0 s),
      turn.reply ≠ .ok .null) :
    Spoken (past ++ Visit.turns b.traced (visits b.traced budget 0 s))
        (Session.walk b.traced budget 0 s).2.2 ∧
      (Session.walk b.traced budget 0 s).2.2.chain.Obeys Rule.conversing True := by
  obtain ⟨done, last, t, hwalks, hends⟩ := walk_ends b.traced budget 0 s
  generalize Session.walk b.traced budget 0 s = result, visits b.traced budget 0 s = visited
    at hends hreply
  cases hends with
  | finished => exact Spoken.walks hwalks h hs hreply
  | paused => exact Spoken.walks hwalks h hs hreply
  | @failed position i e u hnext hrun =>
    rw [Visit.turns_append] at hreply ⊢
    obtain ⟨ht, hobeys⟩ := Spoken.walks hwalks h hs fun turn hturn =>
      hreply turn (List.mem_append_left _ hturn)
    have hi : i.step.Obeys Rule.conversing := hobeys i (mem_of_nextPending? hnext) (.inl trivial)
    have hexecuted := ht.execute (b := b) position hi fun turn hturn =>
      hreply turn (List.mem_append_right _ hturn)
    have hstep := obeys_step (b := b) hobeys hi
    rw [hrun] at hexecuted hstep
    rw [← List.append_assoc]
    exact ⟨hexecuted, hstep⟩

theorem Spoken.process (h : Spoken past s) (hs : s.chain.Obeys Rule.conversing True)
    (limit : Limit) (returnKey : Value)
    (hreply : ∀ turn ∈ Visit.turns b.traced (visits b.traced limit.budget 0 s),
      turn.reply ≠ .ok .null) :
    Spoken (past ++ Visit.turns b.traced (visits b.traced limit.budget 0 s))
        (Session.process b.traced limit returnKey s).2 ∧
      (Session.process b.traced limit returnKey s).2.chain.Obeys Rule.conversing True := by
  obtain ⟨hwalked, hobeys⟩ := h.walk hs limit.budget hreply
  obtain ⟨hmore, hsame⟩ := account_process b s limit returnKey
  obtain ⟨result, formatted, hchain⟩ := chain_process b.traced limit returnKey s
  refine ⟨hwalked.later hmore (by rw [hchain]) fun hnone => ?_, ?_⟩
  · rw [hchain] at hnone
    exact ⟨hnone, hsame hnone⟩
  · rw [hchain]
    exact hobeys

theorem Spoken.make (h : Spoken past s) (hs : s.chain.Obeys Rule.conversing True) {move : Move}
    (hmove : move.Obeys Rule.conversing)
    (hreply : ∀ turn ∈ move.turns b.traced s, turn.reply ≠ .ok .null) :
    Spoken (past ++ move.turns b.traced s) (move.make b.traced s) ∧
      (move.make b.traced s).chain.Obeys Rule.conversing True := by
  cases move with
  | process limit returnKey => exact h.process hs limit returnKey hreply
  | command c =>
    obtain ⟨hcommand, hhook, -⟩ : Rule.conversing c _ ∧ c.Obeys Rule.conversing ∧ _ := by
      simpa only [Move.Obeys, Script.answer, Script.Obeys] using hmove
    rw [Move.turns, List.append_nil]
    refine ⟨h.perform hcommand, ?_⟩
    rw [Move.make, chain_perform]
    exact hs.perform c hhook hcommand.1 fun _ => trivial

theorem Spoken.play {moves : List Move} (h : Spoken past s)
    (hs : s.chain.Obeys Rule.conversing True)
    (hmoves : ∀ move ∈ moves, move.Obeys Rule.conversing)
    (hreply : ∀ turn ∈ turns b.traced moves s, turn.reply ≠ .ok .null) :
    Spoken (past ++ turns b.traced moves s) (Session.play b.traced moves s) := by
  induction moves generalizing past s with
  | nil => simpa [turns, Session.play] using h
  | cons move rest ih =>
    rw [turns] at hreply ⊢
    obtain ⟨hmade, hobeys⟩ := h.make (b := b) hs (hmoves move List.mem_cons_self)
      fun turn hturn => hreply turn (List.mem_append_left _ hturn)
    rw [← List.append_assoc]
    exact ih hmade hobeys (fun other hother => hmoves other (List.mem_cons_of_mem _ hother))
      fun turn hturn => hreply turn (List.mem_append_right _ hturn)

/-- **The history is the conversation.** Whatever a user does with a new chain and whatever its
hooks do, short of deleting messages, as long as providers do not answer with nothing: the requests
that the providers get are those of the turns, next to those of formatters if there are any; the
history consists of the exchanges that were completed, in order, hidden ones apart, with the very
text that was sent; and each request consists of the history at the time and one message of the
user, in which user and model alternate. -/
theorem play_conversation {providers : List Value} {active system formatKey : Value}
    {s : Session (ε × Account)}
    (hstart : Chain.start providers active system formatKey = .ok s.chain)
    (haccount : s.account = []) (b : Backend ε) {moves : List Move}
    (hmoves : ∀ move ∈ moves, move.Obeys Rule.conversing)
    (hreply : ∀ turn ∈ turns b.traced moves s, turn.reply ≠ .ok .null) :
    ((turns b.traced moves s).map Turn.entry).Sublist (play b.traced moves s).account ∧
      ((play b.traced moves s).chain.formatter = none →
        (play b.traced moves s).account = (turns b.traced moves s).map Turn.entry) ∧
      (play b.traced moves s).chain.history.entries =
        (turns b.traced moves s).flatMap Turn.exchange ∧
      ∀ before turn after, turns b.traced moves s = before ++ turn :: after →
        turn.history = before.flatMap Turn.exchange ∧ Alternates turn.request.messages := by
  obtain ⟨formatKey, hchain⟩ := start_eq hstart
  have hnew : Spoken [] s :=
    ⟨List.nil_sublist _, fun _ => haccount, by rw [hchain]; rfl, by simp⟩
  have hobeys : s.chain.Obeys Rule.conversing True := by
    rw [hchain]
    exact fun i hi => absurd hi (by simp)
  have hspoken : Spoken (turns b.traced moves s) (play b.traced moves s) := by
    have hplayed := hnew.play hobeys hmoves hreply
    rwa [List.nil_append] at hplayed
  refine ⟨hspoken.accounted, hspoken.plain, hspoken.history, fun before turn after hsplit => ?_⟩
  have hhistory := hspoken.ordered before turn after hsplit
  refine ⟨hhistory, ?_⟩
  rw [Turn.request, hhistory]
  exact alternates_exchanges before turn.content

/-- A prompt is sent, and sent again when the token in its text stands for what it was answered
before; an incognito one and one that meets a failing provider follow. -/
def remarks : List Move :=
  [.command (.build [.text (.text "About \x7b\x7btopic\x7d\x7d"), .saveAs (.text "topic")]),
    .process (.all 1) .null, .command .retry, .process (.all 1) .null,
    .command (.incognito true), .command (.prompt (.text "Aside")), .process (.all 1) .null,
    .command (.incognito false), .command (.prompt (.text "More")), .process (.all 1) .null]

/-- Of four requests the first two are completed exchanges that show in the history. -/
theorem play_conversation_remarks :
    let b := Backend.scripted
    let s : Session (List Value × Account) :=
      { chain := (scripted []).chain, env := ([.text "one", .text "two", .text "three"], []) }
    (play b.traced remarks s).account.length = 4 ∧
    (play b.traced remarks s).chain.history.entries =
      [.user "About \x7b\x7btopic\x7d\x7d", .assistant (.text "one"), .user "About one",
        .assistant (.text "two")] ∧
    ((turns b.traced remarks s).map Turn.entry).Sublist (play b.traced remarks s).account ∧
    ((play b.traced remarks s).chain.formatter = none →
      (play b.traced remarks s).account = (turns b.traced remarks s).map Turn.entry) ∧
    (play b.traced remarks s).chain.history.entries =
      (turns b.traced remarks s).flatMap Turn.exchange ∧
    ∀ before turn after, turns b.traced remarks s = before ++ turn :: after →
      turn.history = before.flatMap Turn.exchange ∧ Alternates turn.request.messages := by
  intro b s
  have hstart : Chain.start [Chain.fastKey] Chain.fastKey = .ok (scripted []).chain := by rfl
  have hmoves : ∀ move ∈ remarks, move.Obeys Rule.conversing := by
    simp [remarks, Move.Obeys, Script.answer, Script.Obeys, Command.Obeys, Rule.conversing,
      Rule.overt]
  have hreply : ∀ turn ∈ turns b.traced remarks s, turn.reply ≠ .ok .null := by decide +kernel
  exact ⟨by decide +kernel, by decide +kernel,
    play_conversation hstart rfl b hmoves hreply⟩

end Session

end PromptChain
