import PromptChain.Proofs.Telemetry.Channels
import PromptChain.Watched
/-!
# Watching a journal

Who records what a journal reports knows the journal: its entries are those of the latest change,
and each change accounts for the step from the change before it (`accounts_run`).  What changes
nothing is not reported.
-/

namespace PromptChain

open Telemetry

/-! ## A sink that stays -/

namespace Telemetry.Channel

variable {π : Type} {c : Channel π} {sink : String}

/-- A sink that is told everything: the channel is on, the sink is attached, and no sink detaches
it. -/
structure Records (c : Channel π) (sink : String) : Prop where
  enabled : c.enabled = true
  attached : sink ∈ c.sinks
  nodup : c.sinks.Nodup
  spared : ∀ other latest, sink ∉ (c.react other latest).detach

theorem mem_stirred (h : c.Records sink) {latest : List (String × Report π)} {other : String}
    {sinks : List String} (hsink : sink ∈ sinks) : sink ∈ stirred c latest other sinks := by
  have herased : ∀ (names sinks : List String), sink ∉ names → sink ∈ sinks →
      sink ∈ names.foldl List.erase sinks := by
    intro names
    induction names with
    | nil => exact fun sinks _ hsink => hsink
    | cons name rest ih =>
      intro sinks hnames hsink
      obtain ⟨hname, hrest⟩ := not_or.mp (mt List.mem_cons.mpr hnames)
      exact ih _ hrest ((List.mem_erase_of_ne hname).mpr hsink)
  have hjoined : ∀ (names sinks : List String), sink ∈ sinks → sink ∈ names.foldl joined sinks := by
    intro names
    induction names with
    | nil => exact fun sinks hsink => hsink
    | cons name rest ih => exact fun sinks hsink => ih _ (mem_joined.mpr (.inr hsink))
  exact hjoined _ _ (herased _ _ (h.spared other latest) hsink)

theorem Records.dispatch (h : c.Records sink) (name : Value) (payload : π) :
    (c.dispatch name payload).Records sink where
  enabled := (enabled_dispatch c name payload).trans h.enabled
  attached := by
    obtain ⟨sinks, hsinks, hdispatch⟩ :=
      exists_dispatch_eq (P := fun sinks => sink ∈ sinks)
        (fun _ _ _ hsink => mem_stirred h hsink) h.attached name payload
    rw [hdispatch]
    split
    · exact hsinks
    · exact h.attached
  nodup := nodup_dispatch c name payload h.nodup
  spared := by
    rw [react_dispatch]
    exact h.spared

theorem Records.calls_dispatch (h : c.Records sink) (name : Value) (payload : π) :
    (c.dispatch name payload).calls sink = c.calls sink ++ [c.report name payload] := by
  rw [Channel.calls_dispatch c name payload h.nodup, h.enabled, decide_eq_true h.attached]
  rfl

end Telemetry.Channel

/-! ## What is done to a journal -/

inductive Use (α : Type) where
  | push (added : List α)
  | unshift (added : List α)
  | filter (keep : α → Except Fault Bool)
  | delete (index : Int)
  | clear
  | incognito (on : Bool)

namespace Watched

variable {α : Type}

def perform (w : Watched α) : Use α → Watched α
  | .push added => w.push added
  | .unshift added => w.unshift added
  | .filter keep =>
    match w.filter? keep with
    | .ok w => w
    | .error _ => w
  | .delete index =>
    match w.remove (.int index) with
    | .ok (w, _) => w
    | .error _ => w
  | .clear => w.clear
  | .incognito on => w.setIncognito on

def run (w : Watched α) (uses : List (Use α)) : Watched α := uses.foldl perform w

def log (w : Watched α) (sink : String) : List (Change α) :=
  (w.channel.elim [] fun c => c.calls sink).map Report.payload

end Watched

def Use.mode {α : Type} (incognito : Bool) : Use α → Bool
  | .incognito on => on
  | _ => incognito

/-- The entries that the latest of some changes shows. -/
def snapshot {α : Type} (changes : List (Change α)) : List α :=
  (changes.getLast?.map Change.entries).getD []

/-- What may become of the entries of a journal of some name and mode, and which changes tell it. -/
inductive Accounts {α : Type} (name : Value) (incognito : Bool) (before : List α) :
    Use α → (after : List α) → (told : List (Change α)) → Prop where
  | push (added : List α) (h : incognito = false) :
    Accounts name incognito before (.push added) (before ++ added)
      [⟨name, .push, before ++ added, added⟩]
  | pushUnseen (added : List α) (h : incognito = true) :
    Accounts name incognito before (.push added) before []
  | unshift (added : List α) (h : incognito = false) :
    Accounts name incognito before (.unshift added) (added ++ before)
      [⟨name, .unshift, added ++ before, added⟩]
  | unshiftUnseen (added : List α) (h : incognito = true) :
    Accounts name incognito before (.unshift added) before []
  | filter (keep : α → Except Fault Bool) (keeps : α → Bool)
    (h : ∀ x ∈ before, keep x = .ok (keeps x)) (hremoved : ∃ x ∈ before, keeps x = false) :
    Accounts name incognito before (.filter keep) (before.filter keeps)
      [⟨name, .filter, before.filter keeps, before.filter fun x => !keeps x⟩]
  | filterNone (keep : α → Except Fault Bool) (h : ∀ x ∈ before, keep x = .ok true) :
    Accounts name incognito before (.filter keep) before []
  | filterFailed (keep : α → Except Fault Bool) (x : α) (e : Fault) (hx : x ∈ before)
    (h : keep x = .error e) : Accounts name incognito before (.filter keep) before []
  | delete (front back : List α) (x : α) (h : before = front ++ x :: back) :
    Accounts name incognito before (.delete front.length) (front ++ back)
      [⟨name, .delete, front ++ back, [x]⟩]
  | deleteOutside (index : Int) (h : index < 0 ∨ before.length ≤ index) :
    Accounts name incognito before (.delete index) before []
  | clear : Accounts name incognito before .clear [] [⟨name, .clear, [], before⟩]
  | incognito (on : Bool) : Accounts name incognito before (.incognito on) before []

theorem Accounts.snapshot_append {α : Type} {name : Value} {incognito : Bool} {after : List α}
    {use : Use α} {log told : List (Change α)}
    (h : Accounts name incognito (snapshot log) use after told) : snapshot (log ++ told) = after := by
  cases h <;> simp [snapshot]

/-! ## What a journal makes of it -/

theorem position?_int (length : Nat) (why : Fault) (index : Int) :
    (Value.int index).position? length why =
      .ok (if 0 ≤ index ∧ index < length then some index.toNat else none) := by
  have hwithin : ((Quantity.whole index).isAtLeast 0 && (Quantity.whole index).isBelow length) =
      decide (0 ≤ index ∧ index < length) := by
    rw [Bool.eq_iff_iff]
    simp only [Quantity.isAtLeast, Quantity.exceeds, Quantity.equals, Quantity.isBelow,
      Bool.and_eq_true, Bool.or_eq_true, decide_eq_true_eq]
    omega
  show (if _ then _ else _) = _
  rw [hwithin]
  by_cases h : 0 ≤ index ∧ index < length <;> simp [h]

namespace Journal

variable {α : Type} (j : Journal α)

theorem sift_of_forall_ok {keep : α → Except Fault Bool} {keeps : α → Bool} {entries : List α}
    (h : ∀ x ∈ entries, keep x = .ok (keeps x)) :
    sift keep entries = .ok (entries.filter keeps, entries.filter fun x => !keeps x) := by
  induction entries with
  | nil => rfl
  | cons x rest ih =>
    have hrest := ih fun y hy => h y (List.mem_cons_of_mem x hy)
    rw [sift, h x List.mem_cons_self, hrest]
    cases hx : keeps x <;> simp [hx]

theorem sift_of_error {keep : α → Except Fault Bool} {x : α} {e : Fault} {entries : List α}
    (hx : x ∈ entries) (h : keep x = .error e) : ∃ e, sift keep entries = .error e := by
  induction entries with
  | nil => exact absurd hx List.not_mem_nil
  | cons y rest ih =>
    rw [sift]
    split
    · exact ⟨_, rfl⟩
    · next hy =>
      obtain ⟨e, hrest⟩ := ih ((List.mem_cons.mp hx).resolve_left fun heq => by
        rw [heq, hy] at h
        contradiction)
      exact ⟨e, by rw [hrest]⟩

theorem delete_of_outside {index : Int} (h : index < 0 ∨ j.entries.length ≤ index) :
    j.delete index = (j, none, []) := by
  have hget : j.get? index = none := by
    rw [get?]
    split
    · rfl
    · exact List.getElem?_eq_none (by omega)
  rw [delete, hget]

theorem remove_int (index : Int) : j.remove (.int index) = .ok (j.delete index) := by
  rw [remove, position?_int, Except.map]
  by_cases h : 0 ≤ index ∧ index < j.length
  · rw [if_pos h]
    show Except.ok (j.delete index.toNat) = _
    rw [Int.toNat_of_nonneg h.1]
  · rw [if_neg h, delete_of_outside j (by unfold length at h; omega)]

def outcome : Use α → Journal α × Option (Change α)
  | .push added => j.push added
  | .unshift added => j.unshift added
  | .filter keep =>
    match j.filter? keep with
    | .ok outcome => outcome
    | .error _ => (j, none)
  | .delete index => ((j.delete index).1, (j.delete index).2.1)
  | .clear => j.clear
  | .incognito on => ({ j with incognito := on }, none)

theorem accounts_filter (keep : α → Except Fault Bool) :
    Accounts j.name j.incognito j.entries (.filter keep) (j.outcome (.filter keep)).1.entries
      (j.outcome (.filter keep)).2.toList := by
  by_cases hfails : ∃ x ∈ j.entries, ∃ e, keep x = .error e
  · obtain ⟨x, hx, e, he⟩ := hfails
    obtain ⟨e', hsift⟩ := sift_of_error hx he
    rw [outcome, filter?, hsift]
    exact .filterFailed keep x e hx he
  · -- The condition can be decided for all entries.
    let keeps : α → Bool := fun x => (keep x).toOption.getD false
    have hkeeps : ∀ x ∈ j.entries, keep x = .ok (keeps x) := by
      intro x hx
      cases hkeep : keep x with
      | ok here => simp [keeps, hkeep, Except.toOption]
      | error e => exact absurd ⟨x, hx, e, hkeep⟩ hfails
    rw [outcome, filter?, sift_of_forall_ok hkeeps, Except.map, retain]
    by_cases hremoved : ∃ x ∈ j.entries, keeps x = false
    · have hsome : (j.entries.filter fun x => !keeps x).isEmpty = false := by
        simpa using hremoved
      rw [hsome]
      exact .filter keep keeps hkeeps hremoved
    · have hall : ∀ x ∈ j.entries, keeps x = true := by simpa using hremoved
      have hnone : (j.entries.filter fun x => !keeps x).isEmpty = true := by simpa using hall
      rw [hnone, List.filter_eq_self.mpr hall]
      exact .filterNone keep fun x hx => (hkeeps x hx).trans (by rw [hall x hx])

theorem accounts_delete (index : Int) :
    Accounts j.name j.incognito j.entries (.delete index) (j.outcome (.delete index)).1.entries
      (j.outcome (.delete index)).2.toList := by
  by_cases h : index < 0 ∨ j.entries.length ≤ index
  · rw [outcome, delete_of_outside j h]
    exact .deleteOutside index h
  · obtain ⟨i, rfl⟩ := Int.eq_ofNat_of_zero_le (show 0 ≤ index by omega)
    have hi : i < j.entries.length := by omega
    have hsplit : j.entries = j.entries.take i ++ j.entries[i] :: j.entries.drop (i + 1) := by
      simp
    have hget : j.get? i = some j.entries[i] := by
      rw [get?, if_neg (by omega), Int.toNat_natCast, List.getElem?_eq_getElem hi]
    have hlength : (j.entries.take i).length = i := List.length_take_of_le (Nat.le_of_lt hi)
    have htold : Accounts j.name j.incognito j.entries _ _ _ := .delete _ _ _ hsplit
    rw [hlength, ← List.eraseIdx_eq_take_drop_succ] at htold
    rw [outcome, delete, hget]
    exact htold

/-- The step of a journal, one case for each thing that can be done to it. -/
theorem accounts_outcome (use : Use α) :
    Accounts j.name j.incognito j.entries use (j.outcome use).1.entries
      (j.outcome use).2.toList := by
  cases use with
  | push added =>
    cases hmode : j.incognito with
    | false => simpa [outcome, push, change, hmode] using Accounts.push added rfl
    | true => simpa [outcome, push, change, hmode] using Accounts.pushUnseen added rfl
  | unshift added =>
    cases hmode : j.incognito with
    | false => simpa [outcome, unshift, change, hmode] using Accounts.unshift added rfl
    | true => simpa [outcome, unshift, change, hmode] using Accounts.unshiftUnseen added rfl
  | filter keep => exact accounts_filter j keep
  | delete index => exact accounts_delete j index
  | clear => exact .clear
  | incognito on => exact .incognito on

theorem exists_outcome_eq (use : Use α) :
    ∃ entries, (j.outcome use).1 = { j with incognito := use.mode j.incognito, entries } := by
  cases use with
  | push added =>
    rw [outcome, push]
    split <;> exact ⟨_, rfl⟩
  | unshift added =>
    rw [outcome, unshift]
    split <;> exact ⟨_, rfl⟩
  | filter keep =>
    rw [outcome, filter?]
    cases sift keep j.entries <;> exact ⟨_, rfl⟩
  | delete index =>
    rw [outcome, delete]
    cases j.get? index <;> exact ⟨_, rfl⟩
  | clear => exact ⟨[], rfl⟩
  | incognito on => exact ⟨j.entries, rfl⟩

end Journal

/-! ## What the channel is told -/

namespace Watched

variable {α : Type} {w : Watched α} {sink : String}

theorem perform_eq (w : Watched α) (use : Use α) :
    w.perform use = w.take (w.journal.outcome use) := by
  cases use with
  | filter keep =>
    rw [perform, filter?, Journal.outcome]
    cases w.journal.filter? keep <;> rfl
  | delete index =>
    rw [perform, remove, Journal.remove_int, Journal.outcome]
    rfl
  | push added => rfl
  | unshift added => rfl
  | clear => rfl
  | incognito on => rfl

structure Mirrored (w : Watched α) (sink : String) : Prop where
  records : ∃ c, w.channel = some c ∧ c.Records sink
  entries : snapshot (w.log sink) = w.journal.entries

theorem log_take (h : ∃ c, w.channel = some c ∧ c.Records sink)
    (outcome : Journal α × Option (Change α)) :
    (w.take outcome).log sink = w.log sink ++ outcome.2.toList := by
  obtain ⟨c, hc, hrecords⟩ := h
  cases hchange : outcome.2 with
  | none => simp [take, log, hchange]
  | some change =>
    simp only [take, log, hchange, hc, Option.map_some, Option.elim_some, hrecords.calls_dispatch,
      List.map_append]
    rfl

theorem records_take (h : ∃ c, w.channel = some c ∧ c.Records sink)
    (outcome : Journal α × Option (Change α)) :
    ∃ c, (w.take outcome).channel = some c ∧ c.Records sink := by
  obtain ⟨c, hc, hrecords⟩ := h
  cases hchange : outcome.2 with
  | none => exact ⟨c, by simp [take, hchange, hc], hrecords⟩
  | some change =>
    exact ⟨c.dispatch reportName change, by simp [take, hchange, hc], hrecords.dispatch _ _⟩

/-- One step: what is told accounts for it, and the latest change shows the entries again. -/
theorem accounts_perform (h : w.Mirrored sink) (use : Use α) :
    ∃ told, (w.perform use).log sink = w.log sink ++ told ∧
      Accounts w.journal.name w.journal.incognito (snapshot (w.log sink)) use
        (snapshot (w.log sink ++ told)) told ∧
      (w.perform use).Mirrored sink := by
  have htold := Journal.accounts_outcome w.journal use
  rw [← h.entries] at htold
  have hlog := log_take h.records (w.journal.outcome use)
  refine ⟨_, (perform_eq w use).symm ▸ hlog, ?_, ?_⟩
  · rw [htold.snapshot_append]
    exact htold
  · rw [perform_eq]
    exact ⟨records_take h.records _, by rw [hlog, htold.snapshot_append]; rfl⟩

theorem mirrored_run (h : w.Mirrored sink) (uses : List (Use α)) : (w.run uses).Mirrored sink := by
  induction uses generalizing w with
  | nil => exact h
  | cons use rest ih =>
    obtain ⟨told, -, -, hnext⟩ := accounts_perform h use
    exact ih hnext

theorem exists_run_eq (w : Watched α) (uses : List (Use α)) :
    ∃ entries, (w.run uses).journal =
      { w.journal with incognito := uses.foldl Use.mode w.journal.incognito, entries } := by
  induction uses generalizing w with
  | nil => exact ⟨w.journal.entries, rfl⟩
  | cons use rest ih =>
    obtain ⟨kept, hkept⟩ := Journal.exists_outcome_eq w.journal use
    obtain ⟨entries, hentries⟩ := ih (w.perform use)
    refine ⟨entries, ?_⟩
    rw [run, List.foldl_cons, ← run, hentries, perform_eq, take, hkept]
    rfl

/-- **What is reported mirrors the journal.**  Take a journal that starts empty and a sink that is
told everything.  After anything that is done to the journal, the entries are those of the latest
change that the sink was told of, if there is any.  Whatever is done next, the sink is told of it
just as it has to be: the change accounts for the step from the change before it, and nothing is
told of what changes nothing. -/
theorem accounts_run (hrecords : ∃ c, w.channel = some c ∧ c.Records sink)
    (hentries : w.journal.entries = []) (hlog : w.log sink = []) (uses : List (Use α)) :
    (w.run uses).journal.entries = snapshot ((w.run uses).log sink) ∧
    ∀ use, ∃ told,
      (w.run (uses ++ [use])).log sink = (w.run uses).log sink ++ told ∧
      Accounts w.journal.name (uses.foldl Use.mode w.journal.incognito)
        (snapshot ((w.run uses).log sink)) use
        (snapshot ((w.run (uses ++ [use])).log sink)) told := by
  have hstart : w.Mirrored sink := ⟨hrecords, by rw [hlog, hentries]; rfl⟩
  have hrun := mirrored_run hstart uses
  refine ⟨hrun.entries.symm, fun use => ?_⟩
  have hnext : w.run (uses ++ [use]) = (w.run uses).perform use := by
    simp [run]
  obtain ⟨told, htold, haccounts, -⟩ := accounts_perform hrun use
  obtain ⟨entries, hjournal⟩ := exists_run_eq w uses
  rw [hjournal] at haccounts
  exact ⟨told, hnext ▸ htold, by rw [hnext, htold]; exact haccounts⟩

/-- A condition that fails, the incognito mode and a position that there is not are not reported, and
a sink that raises does not matter. -/
theorem accounts_run_numbers :
    let w : Watched Nat :=
      { journal := { name := .text "numbers" }
        channel := some
          { react := fun sink _ =>
              { failure := if sink = "bad" then some (.outside "ValueError" "no") else none }
            sinks := ["bad", "log"] } }
    let uses : List (Use Nat) :=
      [.push [1, 2], .filter fun x => if x = 2 then .error .intTooLarge else .ok false,
        .incognito true, .push [3], .delete (-1), .delete 0]
    ((w.run uses).log "log").map Change.changed = [[1, 2], [1]] ∧
      (w.run uses).journal.entries = snapshot ((w.run uses).log "log") ∧
      ∃ told, (w.run (uses ++ [.clear])).log "log" = (w.run uses).log "log" ++ told ∧
        Accounts (.text "numbers") true [2] .clear [] told := by
  intro w uses
  have hrecords : ∃ c, w.channel = some c ∧ c.Records "log" :=
    ⟨_, rfl, rfl, by decide, by decide, fun other latest => List.not_mem_nil⟩
  obtain ⟨hentries, hnext⟩ := accounts_run hrecords rfl rfl uses
  obtain ⟨told, hlog, htold⟩ := hnext .clear
  have hbefore : snapshot ((w.run uses).log "log") = [2] := by decide +kernel
  have hafter : snapshot ((w.run (uses ++ [.clear])).log "log") = [] := by decide +kernel
  rw [hbefore, hafter] at htold
  exact ⟨by decide +kernel, hentries, told, hlog, htold⟩

end Watched

end PromptChain
