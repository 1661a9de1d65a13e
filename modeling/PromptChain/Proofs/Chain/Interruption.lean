import PromptChain.Proofs.Chain.Reachable
/-!
# Interruption

A run may stop at any step when its budget is used up, and any request to a
provider may fail.  A later run starts over at the front of the queue.  Where
hooks do no more than set artifacts and append steps, nothing of this shows in
the end: runs that are cut off, and continued until no step is pending, leave
what one run leaves that goes through.
-/

namespace PromptChain

structure Request where
  provider : Value
  messages : List Message
  system : Value

namespace Backend

variable {ε : Type}

def logged (b : Backend ε) : Backend (ε × List Request) where
  chat provider messages system env :=
    match b.chat provider messages system env.1 with
    | (.ok reply, world) => (.ok reply, world, env.2 ++ [⟨provider, messages, system⟩])
    | (.error e, world) => (.error e, world, env.2)
  useModel provider label env :=
    let (reply, world) := b.useModel provider label env.1
    (reply, world, env.2)

/-- Providers with a schedule of faults: a request that meets a fault is not answered, and leaves
everything as it was. -/
def flaky (b : Backend ε) : Backend (List (Option Fault) × ε) where
  chat provider messages system env :=
    match env.1 with
    | some e :: faults => (.error e, faults, env.2)
    | faults =>
      let (reply, world) := b.chat provider messages system env.2
      (reply, faults.tail, world)
  useModel provider label env :=
    let (reply, world) := b.useModel provider label env.2
    (reply, env.1, world)

theorem chat_flaky (b : Backend ε) (provider : Value) (messages : List Message) (system : Value)
    (env : List (Option Fault) × ε) :
    (∃ e faults, b.flaky.chat provider messages system env = (.error e, faults, env.2)) ∨
      ∃ faults, b.flaky.chat provider messages system env =
        ((b.chat provider messages system env.2).1, faults,
          (b.chat provider messages system env.2).2) := by
  obtain ⟨faults, world⟩ := env
  rcases faults with _ | ⟨_ | e, faults⟩
  · exact .inr ⟨_, rfl⟩
  · exact .inr ⟨_, rfl⟩
  · exact .inl ⟨e, faults, rfl⟩

end Backend

namespace Session

variable {ε : Type} {b : Backend ε}

def withFaults (faults : List (Option Fault)) (s : Session ε) :
    Session (List (Option Fault) × ε) where
  chain := s.chain
  channel := s.channel
  env := (faults, s.env)

/-- A session without the schedule of its providers, and with another result. -/
def calm (result : Value) (s : Session (List (Option Fault) × ε)) : Session ε where
  chain := { s.chain with result }
  channel := s.channel
  env := s.env.2

def runs (b : Backend ε) (limits : List Limit) (s : Session ε) : Session ε :=
  limits.foldl (fun s limit => (process b limit .null s).2) s

end Session

/-! ## Growing commands -/

namespace Chain

theorem perform_result {command : Command} {next : Except Fault Reply → Script}
    (h : Rule.growing command next) (c : Chain) (result : Value) :
    ({ c with result } : Chain).perform command =
      ((c.perform command).1, { (c.perform command).2.1 with result },
        (c.perform command).2.2) := by
  cases command with
  | insert key v =>
    simp only [perform, insert]
    cases c.artifacts.set key v <;> rfl
  | prompt lines =>
    simp only [perform, build]
    cases Prompt.editAll c.artifacts {} [.text lines] <;> rfl
  | build edits =>
    simp only [perform, build]
    cases Prompt.editAll c.artifacts {} edits <;> rfl
  | use provider =>
    simp only [perform, use]
    cases useLabel provider <;> rfl
  | hook label shown run => rfl
  | artifact key fallback => rfl
  | recent back role => rfl
  | historyLength => rfl
  | _ => exact h.elim

end Chain

namespace Session

variable {ε : Type} {b : Backend ε} {result : Value}

/-! ## Executions -/

theorem calm_perform {command : Command} {next : Except Fault Reply → Script}
    (h : Rule.growing command next) (s : Session (List (Option Fault) × ε)) :
    (s.calm result).perform b command =
      ((s.perform b.flaky command).1, (s.perform b.flaky command).2.calm result) := by
  have hchain := Chain.perform_result h s.chain result
  cases command with
  | useModel provider label => exact h.elim
  | tune change => exact h.elim
  | _ =>
    simp only [perform]
    rw [show (s.calm result).chain = { s.chain with result } from rfl, hchain]
    rfl

theorem calm_runScript (result : Value) {script : Script} (h : script.Obeys Rule.growing)
    (s : Session (List (Option Fault) × ε)) :
    runScript b script (s.calm result) =
      ((runScript b.flaky script s).1, (runScript b.flaky script s).2.calm result) := by
  induction script generalizing s with
  | finish outcome => rfl
  | call command next ih =>
    rw [Script.Obeys] at h
    rw [runScript_call, runScript_call, calm_perform h.1]
    exact ih _ (h.2.2 _) _

theorem calm_record (s : Session (List (Option Fault) × ε)) (p : Prompt) :
    (s.calm result).record p = ((s.record p).1, (s.record p).2.calm result) := by
  unfold record
  split
  · rfl
  · rw [show (s.calm result).chain.artifacts = s.chain.artifacts from rfl]
    cases p.message s.chain.artifacts <;> rfl

theorem calm_keep (s : Session (List (Option Fault) × ε)) (kept : Option (Value × Value)) :
    (s.calm result).keep kept = ((s.keep kept).1, (s.keep kept).2.calm result) := by
  cases kept with
  | none => rfl
  | some pair =>
    simp only [keep, Chain.insert]
    rw [show (s.calm result).chain.artifacts = s.chain.artifacts from rfl]
    cases s.chain.artifacts.set pair.1 pair.2 <;> rfl

theorem executePrompt_calm (s : Session (List (Option Fault) × ε)) (serial : Nat) (p : Prompt) :
    (∃ e t, s.executePrompt b.flaky serial p = (.error e, t) ∧ t.calm result = s.calm result) ∨
      (s.calm result).executePrompt b serial p =
        ((s.executePrompt b.flaky serial p).1,
          (s.executePrompt b.flaky serial p).2.calm result) := by
  unfold executePrompt Prompt.send
  have hmessage : p.message (s.calm result).chain.artifacts = p.message s.chain.artifacts := rfl
  simp only [hmessage]
  cases p.message s.chain.artifacts with
  | error e => exact .inr rfl
  | ok m =>
    rcases b.chat_flaky s.chain.active (s.chain.history.entries ++ [m]) s.chain.systemText s.env
      with ⟨e, faults, hchat⟩ | ⟨faults, hchat⟩
    · left
      simp only [hchat]
      exact ⟨e, _, rfl, rfl⟩
    · right
      have hcalm : b.chat (s.calm result).chain.active
          ((s.calm result).chain.history.entries ++ [m]) (s.calm result).chain.systemText
          (s.calm result).env = b.chat s.chain.active (s.chain.history.entries ++ [m])
            s.chain.systemText s.env.2 := rfl
      simp only [hchat, hcalm]
      obtain ⟨reply, world⟩ := b.chat s.chain.active (s.chain.history.entries ++ [m])
        s.chain.systemText s.env.2
      cases reply with
      | error e => rfl
      | ok response =>
        have hanswered : ({ s.calm result with env := world } : Session ε).modifyItem serial
            (Item.answered (p.delivery m response).prompt) =
              (({ s with env := (faults, world) } : Session (List (Option Fault) × ε)).modifyItem
                serial (Item.answered (p.delivery m response).prompt)).calm result := rfl
        simp only [hanswered, calm_record]
        rcases (({ s with env := (faults, world) } : Session (List (Option Fault) × ε)).modifyItem
          serial (Item.answered (p.delivery m response).prompt)).record
            (p.delivery m response).prompt with ⟨recorded, t⟩
        cases recorded with
        | error e => rfl
        | ok done => simp only [calm_keep]

/-- An execution meets a fault and leaves no trace, or goes as it does without faults. -/
theorem execute_calm (result : Value) {i : Item} (h : i.step.Obeys Rule.growing)
    (s : Session (List (Option Fault) × ε)) :
    (∃ e t, s.execute b.flaky i = (.error e, t) ∧ t.calm result = s.calm result) ∨
      (s.calm result).execute b i =
        ((s.execute b.flaky i).1, (s.execute b.flaky i).2.calm result) := by
  obtain ⟨serial, label, executed, step, last⟩ := i
  cases step with
  | prompt p => exact executePrompt_calm s serial p
  | hook shown run runs last =>
    right
    have hran := calm_runScript (b := b) result (h (runs + 1))
      (s.modifyItem serial Item.running)
    have hrunning : (s.calm result).modifyItem serial Item.running =
      (s.modifyItem serial Item.running).calm result := rfl
    simp only [execute, executeHook, hrunning, hran]
    obtain ⟨outcome, t⟩ := runScript b.flaky (run (runs + 1)) (s.modifyItem serial Item.running)
    cases outcome <;> rfl
  | system text => exact .inr rfl
  | use provider =>
    right
    simp only [execute, activate]
    rw [show (s.calm result).chain.providers = s.chain.providers from rfl]
    cases Chain.isRegistered s.chain.providers provider with
    | error e => rfl
    | ok registered => cases registered <;> rfl
  | foreign kind inner => exact h.elim

theorem calm_complete (s : Session (List (Option Fault) × ε)) (serial : Nat) (v : Value) :
    (s.complete serial v).calm result = (s.calm result).complete serial v := rfl

/-! ## Positions -/

def flags (c : Chain) : List (Nat × Bool) := c.queue.entries.map fun i => (i.serial, i.executed)

/-- Whether a chain differs from an earlier one by no more than an execution makes of it: the queue
has grown at its end, and the results are what they were. -/
structure Grown (c d : Chain) : Prop where
  flags : flags c <+: flags d
  formatter : d.formatter = c.formatter
  last : d.last = c.last
  result : d.result = c.result

theorem flags_modifyItem {c : Chain} {step : Step} {f : Item → Item} (serial : Nat)
    (hf : Item.Touch step f) : flags (c.modifyItem serial f) = flags c := by
  simp only [flags, Chain.modifyItem, List.map_map]
  apply List.map_congr_left
  intro i _
  simp only [Function.comp_apply]
  split
  · rw [hf.serial, hf.executed]
  · rfl

theorem Grown.trans {c d e : Chain} (hd : Grown c d) (he : Grown d e) : Grown c e :=
  ⟨hd.flags.trans he.flags, he.formatter.trans hd.formatter, he.last.trans hd.last,
    he.result.trans hd.result⟩

theorem flags_perform {command : Command} {next : Except Fault Reply → Script}
    (h : Rule.appending command next) (c : Chain) : flags c <+: flags (c.perform command).2.1 := by
  obtain ⟨⟨hovert, hretry⟩, hsystem⟩ := h
  have hperforms := c.performs command
  generalize (c.perform command).2.1 = d at hperforms ⊢
  cases hperforms with
  | beside => exact List.prefix_refl _
  | append label step =>
    simp only [flags, Chain.append, Journal.push]
    split
    · exact List.prefix_refl _
    · rw [List.map_append]
      exact List.prefix_append _ _
  | system lines => exact absurd rfl (hsystem lines)
  | retry => exact absurd rfl hretry
  | format schema => exact List.prefix_refl _
  | retype index kind => exact absurd rfl (hovert index kind)

theorem flags_execute {s : Session ε} {i : Item} (h : i.step.Obeys Rule.appending) :
    flags s.chain <+: flags (s.execute b i).2.chain := by
  apply execute_invariant fun c => flags s.chain <+: flags c
  · exact fun c history artifacts active systemText hc => hc
  · exact List.prefix_refl _
  · intro c f hf hc
    rw [flags_modifyItem i.serial hf]
    exact hc
  · intro g hg hc
    obtain ⟨⟨next, happending⟩, -⟩ := orders_obey h g hg
    exact hc.trans (flags_perform happending g.1.chain)

theorem grown_perform {command : Command} {next : Except Fault Reply → Script}
    (h : Rule.growing command next) (c : Chain) : Grown c (c.perform command).2.1 := by
  have hflags := flags_perform (Rule.growing_appending h) c
  have hperforms := c.performs command
  generalize (c.perform command).2.1 = d at hperforms hflags ⊢
  cases hperforms with
  | beside => exact ⟨hflags, rfl, rfl, rfl⟩
  | append label step => exact ⟨hflags, rfl, rfl, rfl⟩
  | system | retry | format | retype => exact h.elim

theorem grown_execute {s : Session ε} {i : Item} (h : i.step.Obeys Rule.growing) :
    Grown s.chain (s.execute b i).2.chain := by
  apply execute_invariant fun c => Grown s.chain c
  · exact fun c history artifacts active systemText hc =>
      ⟨hc.flags, hc.formatter, hc.last, hc.result⟩
  · exact ⟨List.prefix_refl _, rfl, rfl, rfl⟩
  · intro c f hf hc
    refine ⟨?_, hc.formatter, hc.last, hc.result⟩
    rw [flags_modifyItem i.serial hf]
    exact hc.flags
  · intro g hg hc
    obtain ⟨⟨next, hgrowing⟩, -⟩ := orders_obey h g hg
    exact hc.trans (grown_perform hgrowing g.1.chain)

def Settled (index : Nat) (s : Session ε) : Prop :=
  ∀ i ∈ s.chain.queue.entries.take index, i.executed = true

theorem settled_complete {s : Session ε} {index position : Nat} {i : Item} (v : Value)
    (hsettled : Settled index s)
    (hnext : nextPending? s.chain.queue.entries index = some (position, i))
    (h : i.step.Obeys Rule.appending) :
    Settled (position + 1) ((s.execute b i).2.complete i.serial v) := by
  obtain ⟨skipped, htake, hlength, hskipped⟩ := take_nextPending? hnext
  -- The queue has only grown at its end, so the position still divides it at the same place.
  obtain ⟨added, hadded⟩ := flags_execute (b := b) (s := s) h
  have hflags : (flags (s.execute b i).2.chain).take (position + 1) =
      (s.chain.queue.entries.take index ++ skipped ++ [i]).map fun i =>
        (i.serial, i.executed) := by
    rw [← hadded, List.take_append_of_le_length (by simpa [flags] using hlength), flags,
      ← List.map_take, htake]
  intro j hj
  simp only [complete, modifyItem, Chain.modifyItem] at hj
  rw [← List.map_take] at hj
  obtain ⟨k, hk, rfl⟩ := List.mem_map.mp hj
  have hflag : (k.serial, k.executed) ∈ (flags (s.execute b i).2.chain).take (position + 1) := by
    rw [flags, ← List.map_take]
    exact List.mem_map_of_mem hk
  rw [hflags] at hflag
  obtain ⟨n, hn, heq⟩ := List.mem_map.mp hflag
  obtain ⟨hserial, hexecuted⟩ := Prod.mk.inj heq
  simp only [List.mem_append, List.mem_singleton] at hn
  split
  · rfl
  · next hother =>
    rw [← hexecuted]
    rcases hn with (hn | hn) | rfl
    · exact hsettled n hn
    · exact hskipped n hn
    · exact absurd hserial.symm hother

/-! ## Walks -/

theorem walk_settled {s : Session ε} {index : Nat} (h : Settled index s) (budget : Nat) :
    walk b budget index s = walk b budget 0 s := by
  unfold walk
  rw [nextPending?_eq_zero h]

/-- Whether a run that goes through leads from one session to another. -/
def Drains (b : Backend ε) (s t : Session ε) : Prop :=
  ∃ fuel count, walk b fuel 0 s = (.finished, count, t)

theorem Drains.eq_of_none {s t : Session ε} (h : Drains b s t)
    (hnone : nextPending? s.chain.queue.entries 0 = none) : t = s := by
  obtain ⟨fuel, count, hwalk⟩ := h
  unfold walk at hwalk
  rw [hnone] at hwalk
  simp only [Prod.mk.injEq, true_and] at hwalk
  exact hwalk.2.symm

theorem Drains.step {s t : Session ε} {position : Nat} {i : Item} (h : Drains b s t)
    (hnext : nextPending? s.chain.queue.entries 0 = some (position, i))
    (hgrowing : i.step.Obeys Rule.growing) :
    ∃ v, (s.execute b i).1 = .ok v ∧ Drains b ((s.execute b i).2.complete i.serial v) t := by
  obtain ⟨fuel, count, hwalk⟩ := h
  unfold walk at hwalk
  rw [hnext] at hwalk
  have hsettled : Settled 0 s := by simp [Settled]
  cases fuel with
  | zero => cases hwalk
  | succ fuel =>
    cases hrun : s.execute b i with
    | mk outcome u =>
      cases outcome with
      | error e => simp [hrun] at hwalk
      | ok v =>
        have hpast := settled_complete (b := b) v hsettled hnext
          (hgrowing.mono fun _ _ => Rule.growing_appending)
        rw [hrun] at hpast
        simp only [hrun, walk_settled hpast] at hwalk
        rcases hrest : walk b fuel 0 (u.complete i.serial v) with ⟨stop, steps, last⟩
        rw [hrest] at hwalk
        simp only [Prod.mk.injEq] at hwalk
        obtain ⟨rfl, -, rfl⟩ := hwalk
        exact ⟨v, rfl, fuel, steps, hrest⟩

/-! ## Interrupted runs -/

/-- What interrupted runs keep to: without the faults that are still to come, a run that goes
through would lead to one and the same session. -/
structure OnCourse (b : Backend ε) (result : Value) (goal : Session ε)
    (s : Session (List (Option Fault) × ε)) : Prop where
  drains : Drains b (s.calm result) goal
  growing : s.chain.Obeys Rule.growing False
  formatter : s.chain.formatter = none
  unset : s.chain.last = .null → s.chain.result = result

theorem OnCourse.execute {goal : Session ε} {s : Session (List (Option Fault) × ε)}
    {position : Nat} {i : Item} (h : OnCourse b result goal s)
    (hnext : nextPending? s.chain.queue.entries 0 = some (position, i)) :
    (∃ e t, s.execute b.flaky i = (.error e, t) ∧ OnCourse b result goal t) ∨
      ∃ v t, s.execute b.flaky i = (.ok v, t) ∧ OnCourse b result goal (t.complete i.serial v) := by
  have hgrowing : i.step.Obeys Rule.growing :=
    h.growing i (mem_of_nextPending? hnext) (.inr (pending_of_nextPending? hnext))
  have hgrown := grown_execute (b := b.flaky) (s := s) hgrowing
  have hobeys := obeys_execute (b := b.flaky) (fun _ _ => Rule.growing_overt) h.growing hgrowing
  obtain ⟨v, hok, hdrains⟩ := h.drains.step hnext hgrowing
  rcases execute_calm (b := b) result hgrowing s with ⟨e, t, hrun, hcalm⟩ | hcalm
  · -- The request met a fault.  The step stays pending, and the goal stays where it was.
    left
    rw [hrun] at hgrown hobeys
    refine ⟨e, t, hrun, ?_, hobeys, hgrown.formatter.trans h.formatter, ?_⟩
    · rw [hcalm]
      exact h.drains
    · rw [hgrown.last, hgrown.result]
      exact h.unset
  · right
    rw [hcalm] at hok hdrains
    rcases hrun : s.execute b.flaky i with ⟨outcome, t⟩
    rw [hrun] at hgrown hobeys hok hdrains
    simp only at hok
    subst hok
    refine ⟨v, t, rfl, ?_, obeys_complete hobeys _ _, hgrown.formatter.trans h.formatter, ?_⟩
    · rw [calm_complete]
      exact hdrains
    · simp only [complete, modifyItem, Chain.modifyItem]
      split
      · intro hlast
        rw [hgrown.result]
        exact h.unset (hgrown.last ▸ hlast)
      · next hv => exact fun hlast => absurd hlast hv

theorem Grown.pending {c d : Chain} (h : Grown c d) {i : Item} (hi : i ∈ c.queue.entries)
    (hpending : i.executed = false) : ∃ j ∈ d.queue.entries, j.executed = false := by
  have hflag : (i.serial, i.executed) ∈ Session.flags d :=
    h.flags.subset (List.mem_map_of_mem hi)
  obtain ⟨j, hj, heq⟩ := List.mem_map.mp hflag
  exact ⟨j, hj, (Prod.mk.inj heq).2.trans hpending⟩

/-- A walk stays on course, and leaves a step pending if it does not come to the end. -/
theorem OnCourse.walk {goal : Session ε} {s : Session (List (Option Fault) × ε)}
    (h : OnCourse b result goal s) (budget : Nat) :
    OnCourse b result goal (walk b.flaky budget 0 s).2.2 ∧
      ((walk b.flaky budget 0 s).1 = .finished ∨
        ∃ i ∈ (walk b.flaky budget 0 s).2.2.chain.queue.entries, i.executed = false) := by
  induction budget generalizing s with
  | zero =>
    unfold Session.walk
    cases hnext : nextPending? s.chain.queue.entries 0 with
    | none => exact ⟨h, .inl rfl⟩
    | some found =>
      exact ⟨h, .inr ⟨found.2, mem_of_nextPending? hnext, pending_of_nextPending? hnext⟩⟩
  | succ budget ih =>
    unfold Session.walk
    cases hnext : nextPending? s.chain.queue.entries 0 with
    | none => exact ⟨h, .inl rfl⟩
    | some found =>
      obtain ⟨position, i⟩ := found
      have hi := mem_of_nextPending? hnext
      have hpending := pending_of_nextPending? hnext
      have hgrowing := h.growing i hi (.inr hpending)
      rcases h.execute hnext with ⟨e, t, hrun, ht⟩ | ⟨v, t, hrun, ht⟩
      · have hgrown := grown_execute (b := b.flaky) (s := s) hgrowing
        rw [hrun] at hgrown
        simp only [hrun]
        exact ⟨ht, .inr (hgrown.pending hi hpending)⟩
      · -- All before the next position is executed: to go on there is to start over.
        have hpast := settled_complete (b := b.flaky) v (by simp [Settled]) hnext
          (hgrowing.mono fun _ _ => Rule.growing_appending)
        rw [hrun] at hpast
        simp only [hrun, walk_settled hpast]
        exact ih ht

theorem process_eq_settle {s : Session ε} (limit : Limit) (returnKey : Value)
    (h : (Session.walk b limit.budget 0 s).2.2.chain.formatter = none) :
    (process b limit returnKey s).2 = ((Session.walk b limit.budget 0 s).2.2.settle returnKey).2 ∨
      (Session.walk b limit.budget 0 s).1 ≠ .finished ∧
        (process b limit returnKey s).2 = (Session.walk b limit.budget 0 s).2.2 := by
  rcases process_cases b limit returnKey s with ⟨hstop, -, hprocess⟩ | ⟨-, -, hprocess⟩
  · exact .inr ⟨hstop, hprocess⟩
  · rw [h] at hprocess
    exact .inl (congrArg Prod.snd hprocess)

def Spent (s : Session ε) : Prop :=
  (∀ i ∈ s.chain.queue.entries, i.executed = true) → s.chain.last ≠ .null →
    s.chain.result = s.chain.last

theorem OnCourse.process {goal : Session ε} {s : Session (List (Option Fault) × ε)}
    (h : OnCourse b result goal s) (limit : Limit) :
    OnCourse b result goal (process b.flaky limit .null s).2 ∧
      Spent (Session.process b.flaky limit .null s).2 := by
  obtain ⟨hwalk, hend⟩ := h.walk limit.budget
  rcases process_eq_settle limit .null hwalk.formatter with heq | ⟨hstop, heq⟩
  · rw [heq, settle_null]
    split
    · next hlast => exact ⟨hwalk, fun _ hne => absurd hlast hne⟩
    · next hlast =>
      exact ⟨⟨hwalk.drains, hwalk.growing, hwalk.formatter, fun heq => absurd heq hlast⟩,
        fun _ _ => rfl⟩
  · rw [heq]
    refine ⟨hwalk, fun hall _ => ?_⟩
    obtain ⟨i, hi, hpending⟩ := hend.resolve_left hstop
    rw [hall i hi] at hpending
    cases hpending

theorem OnCourse.runs {goal : Session ε} {s : Session (List (Option Fault) × ε)}
    (h : OnCourse b result goal s) (limits : List Limit) :
    OnCourse b result goal (runs b.flaky limits s) ∧
      (Spent s ∨ limits ≠ [] → Spent (Session.runs b.flaky limits s)) := by
  induction limits generalizing s with
  | nil => exact ⟨h, fun hspent => hspent.resolve_right (by simp)⟩
  | cons limit limits ih =>
    obtain ⟨hcourse, hspent⟩ := h.process limit
    obtain ⟨hruns, hlast⟩ := ih hcourse
    exact ⟨hruns, fun _ => hlast (.inl hspent)⟩

/-- Interrupted runs that have left no step pending have come to the goal. -/
theorem OnCourse.arrived {goal : Session ε} {s : Session (List (Option Fault) × ε)}
    (h : OnCourse b result goal s) (hdone : ∀ i ∈ s.chain.queue.entries, i.executed = true) :
    s.calm result = goal :=
  (h.drains.eq_of_none (nextPending?_eq_none hdone 0)).symm

theorem process_of_calm {s : Session ε} {u : Session (List (Option Fault) × ε)} {fuel count : Nat}
    (hwalk : Session.walk b fuel 0 s = (.finished, count, u.calm result))
    (hformatter : u.chain.formatter = none) :
    (Session.process b (.all fuel) .null s).2 =
      if u.chain.last = .null then u.calm result else u.calm u.chain.last := by
  have hplain : (Session.walk b (Limit.all fuel).budget 0 s).2.2.chain.formatter = none := by
    rw [Limit.budget, hwalk]
    exact hformatter
  rcases process_eq_settle (.all fuel) .null hplain with heq | ⟨hstop, -⟩
  · rw [heq, Limit.budget, hwalk, settle_null]
    exact apply_ite Prod.snd _ _ _
  · rw [Limit.budget, hwalk] at hstop
    exact absurd rfl hstop

/-- **Interruptions leave no trace.** Runs of a chain without a formatter, whose hooks do no more
than set artifacts, append steps and look at the history and the artifacts, may be cut off by any
limits, and any of their requests may fail.  When they have left no step pending, the chain is what
one run without a limit and without faults makes of it, but for the result if there were no runs;
and the same requests have been answered by the same replies. -/
theorem runs_eq_process {s t : Session (ε × List Request)} {fuel : Nat}
    {faults : List (Option Fault)} {limits : List Limit}
    {u : Session (List (Option Fault) × ε × List Request)}
    (hformatter : s.chain.formatter = none) (hgrowing : s.chain.Obeys Rule.growing False)
    (hfinished : (Session.walk b.logged fuel 0 s).1 = .finished)
    (hprocess : (Session.process b.logged (.all fuel) .null s).2 = t)
    (hruns : Session.runs b.logged.flaky limits (s.withFaults faults) = u)
    (hdone : ∀ i ∈ u.chain.queue.entries, i.executed = true) :
    u.chain = { t.chain with result := u.chain.result } ∧ (limits ≠ [] → u.chain = t.chain) ∧
      u.env.2 = t.env ∧ u.channel = t.channel := by
  rcases hwalk : Session.walk b.logged fuel 0 s with ⟨stop, count, goal⟩
  rw [hwalk] at hfinished
  simp only at hfinished
  subst hfinished
  have hstart : OnCourse b.logged s.chain.result goal (s.withFaults faults) :=
    ⟨⟨fuel, count, hwalk⟩, hgrowing, hformatter, fun _ => rfl⟩
  obtain ⟨hcourse, hspent⟩ := hstart.runs limits
  rw [hruns] at hcourse hspent
  have harrived : u.calm s.chain.result = goal := hcourse.arrived hdone
  have ht : t = if u.chain.last = .null then u.calm s.chain.result else u.calm u.chain.last :=
    hprocess ▸ process_of_calm (harrived ▸ hwalk) hcourse.formatter
  have hchain : ∀ result, u.chain = { (u.calm result).chain with result := u.chain.result } :=
    fun _ => rfl
  by_cases hlast : u.chain.last = .null
  · rw [if_pos hlast] at ht
    have hresult : u.chain.result = s.chain.result := hcourse.unset hlast
    rw [ht]
    refine ⟨hchain _, fun _ => ?_, rfl, rfl⟩
    rw [← hresult]
    rfl
  · rw [if_neg hlast] at ht
    rw [ht]
    refine ⟨hchain _, fun hne => ?_, rfl, rfl⟩
    rw [← hspent (.inr hne) hdone hlast]
    rfl

def drafting : Hook := fun _ =>
  .call (.insert (.text "topic") (.text "tides")) fun _ =>
    .call (.prompt (.text "Write about \x7b\x7btopic\x7d\x7d")) fun _ => .finish (.ok .null)

theorem obeys_drafting :
    (((scripted []).perform Backend.scripted (.prompt (.text "Hello"))).2.perform Backend.scripted
      (.hook (.text "draft") "draft" drafting)).2.chain.Obeys Rule.growing False := by
  have hdrafting : ∀ runs, (drafting runs).Obeys Rule.growing := by
    intro runs
    simp [drafting, Script.Obeys, Command.Obeys, Rule.growing]
  have hnew : (scripted []).chain.Obeys Rule.growing False :=
    fun i hi => absurd hi (by simp [scripted])
  have hprompt := hnew.perform (.prompt (.text "Hello")) (by simp [Command.Obeys]) (by simp)
    (by simp)
  exact hprompt.perform (.hook (.text "draft") "draft" drafting)
    (by rw [Command.Obeys]; exact hdrafting) (by simp) (by simp)

/-- Two requests that fail, and runs of one step and of none, leave what one run leaves. -/
theorem runs_drafting :
    let s : Session (List Value × List Request) := {
      chain := (((scripted []).perform Backend.scripted (.prompt (.text "Hello"))).2.perform
        Backend.scripted (.hook (.text "draft") "draft" drafting)).2.chain
      env := ([.text "one", .text "two"], []) }
    let offline := Fault.outside "ConnectionError" "offline"
    let t := (process Backend.scripted.logged (.all 3) .null s).2
    let u := runs Backend.scripted.logged.flaky [.all 3, .steps 1, .steps 0, .all 3, .all 3]
      (s.withFaults [some offline, none, some offline])
    u.chain.queue.entries.map Item.executed = [true, true, true] ∧ u.chain = t.chain ∧
      u.env.2 = t.env ∧ t.env.2.length = 2 := by
  intro s offline t u
  have hfinished : (Session.walk Backend.scripted.logged 3 0 s).1 = .finished := by decide +kernel
  have hflags : u.chain.queue.entries.map Item.executed = [true, true, true] := by decide +kernel
  have hdone : ∀ i ∈ u.chain.queue.entries, i.executed = true := by
    intro i hi
    have hmem : i.executed ∈ u.chain.queue.entries.map Item.executed := List.mem_map_of_mem hi
    rw [hflags] at hmem
    simpa using hmem
  have hanswered : t.env.2.length = 2 := by decide +kernel
  obtain ⟨-, hchain, henv, -⟩ :=
    runs_eq_process (b := Backend.scripted) (s := s) (t := t) (u := u) rfl
      obeys_drafting hfinished rfl rfl hdone
  exact ⟨hflags, hchain (by simp), henv, hanswered⟩

end Session

end PromptChain
