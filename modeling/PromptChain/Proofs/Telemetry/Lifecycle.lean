import PromptChain.Proofs.Telemetry.Handlers
/-!
# Starting and stopping

A server counts as started from the first start after it was created or stopped, however that start
ends: the flag is set before the site is set up and bound, and nothing but a stop clears it.  So a
start that fails leaves a server that counts as started and listens to nobody, and no later start
tries again (`started_iff_opening`).
-/

namespace PromptChain.Broadcast

open Telemetry

/-- What happens to a server that is started and stopped; a start is told how setting up and binding
its site go. -/
inductive Switch where
  | start (setUp listen : Except Fault Unit)
  | stop
  | meanwhile (occurrence : Occurrence)

def switch (b : Broadcast) : Switch → Broadcast
  | .start setUp listen => (b.start setUp listen).2
  | .stop => b.stop
  | .meanwhile occurrence => b.occur occurrence

def switched (channel : Channel Value) (host portNumber : Value) : List Switch → Broadcast
  | [] => { channel, host, portNumber }
  | now :: past => (switched channel host portNumber past).switch now

/-- How the first start since the last stop went, if there was one. -/
def opening : List Switch → Option (Except Fault Unit)
  | [] => none
  | .start setUp listen :: past => (opening past).or (some (setUp.bind fun _ => listen))
  | .stop :: _ => none
  | .meanwhile _ :: past => opening past

def siteLog (host portNumber : Value) : List Switch → List SiteEvent
  | [] => []
  | .start setUp _ :: past =>
    siteLog host portNumber past ++
      if opening past = none then
        .setUp :: if setUp = .ok () then [.listen host portNumber] else []
      else []
  | .stop :: past =>
    siteLog host portNumber past ++ if opening past = none then [] else [.cleanUp]
  | .meanwhile _ :: past => siteLog host portNumber past

/-- Whether the site of a server was set up and bound and not cleaned up since. -/
def isBound (channel : Channel Value) (host portNumber : Value) : List Switch → Bool
  | [] => false
  | .start setUp listen :: past =>
    isBound channel host portNumber past ||
      (!(switched channel host portNumber past).started && setUp = .ok () && listen = .ok ())
  | .stop :: _ => false
  | .meanwhile _ :: past => isBound channel host portNumber past

/-! ## What clients do to the site -/

structure Settled (b b' : Broadcast) : Prop where
  started : b'.started = b.started
  site : b'.site = b.site
  host : b'.host = b.host
  portNumber : b'.portNumber = b.portNumber

section

variable (b : Broadcast) (number : Nat)

theorem settled_leave : Settled b (b.leave number) := by
  unfold leave
  split
  · split <;> exact ⟨rfl, rfl, rfl, rfl⟩
  · exact ⟨rfl, rfl, rfl, rfl⟩

theorem settled_disconnect : Settled b (b.disconnect number) :=
  { settled_leave (b.modify number fun c => { c with closed := true }) number with }

theorem settled_disconnects (numbers : List Nat) : Settled b (numbers.foldl disconnect b) := by
  induction numbers generalizing b with
  | nil => exact ⟨rfl, rfl, rfl, rfl⟩
  | cons number rest ih =>
    have hfirst := settled_disconnect b number
    have hrest := ih (b.disconnect number)
    exact ⟨hrest.started.trans hfirst.started, hrest.site.trans hfirst.site,
      hrest.host.trans hfirst.host, hrest.portNumber.trans hfirst.portNumber⟩

theorem settled_occur (occurrence : Occurrence) : Settled b (b.occur occurrence) := by
  cases occurrence with
  | arrive number arrival =>
    cases arrival with
    | message isError =>
      rw [occur, arrive, receive]
      split
      · exact settled_leave b number
      · exact ⟨rfl, rfl, rfl, rfl⟩
    | closed => exact settled_disconnect b number
    | raised => exact settled_leave b number
  | pick number =>
    obtain ⟨c, r, -, -, -, hpick⟩ | ⟨hpick, -⟩ := pick_cases b number
    · rw [occur, hpick]
      exact ⟨rfl, rfl, rfl, rfl⟩
    · rw [occur, hpick]
      exact ⟨rfl, rfl, rfl, rfl⟩
  | _ => exact ⟨rfl, rfl, rfl, rfl⟩

end

/-! ## Starting -/

theorem start_eq (b : Broadcast) (setUp listen : Except Fault Unit) :
    b.start setUp listen =
      if b.started then (.ok (), b)
      else
        (setUp.bind fun _ => listen,
          { b with
            started := true
            site := b.site ++ .setUp ::
              if setUp = .ok () then [.listen b.host b.portNumber] else [] }) := by
  rw [start]
  split
  · rfl
  · cases setUp with
    | error e => rfl
    | ok u => simp [note, Except.bind]

structure Opened (host portNumber : Value) (history : List Switch) (b : Broadcast) : Prop where
  started : b.started = true ↔ opening history ≠ none
  site : b.site = siteLog host portNumber history
  host : b.host = host
  portNumber : b.portNumber = portNumber

theorem opened_switch {host portNumber : Value} {past : List Switch} {b : Broadcast}
    (h : Opened host portNumber past b) (now : Switch) :
    Opened host portNumber (now :: past) (b.switch now) := by
  cases now with
  | start setUp listen =>
    rw [switch, start_eq]
    by_cases hstarted : b.started = true
    · have hopening := h.started.mp hstarted
      rw [if_pos hstarted]
      refine ⟨iff_of_true hstarted (by simp [opening]), ?_, h.host, h.portNumber⟩
      rw [siteLog, if_neg hopening, List.append_nil, h.site]
    · have hopening : opening past = none := not_not.mp (mt h.started.mpr hstarted)
      rw [if_neg hstarted]
      refine ⟨iff_of_true rfl (by simp [opening]), ?_, h.host, h.portNumber⟩
      rw [siteLog, if_pos hopening, h.site, h.host, h.portNumber]
  | stop =>
    rw [switch, stop]
    split
    · next hstarted =>
      have hgone := settled_disconnects b b.registered
      refine ⟨iff_of_false Bool.false_ne_true (not_not.mpr rfl), ?_, hgone.host.trans h.host,
        hgone.portNumber.trans h.portNumber⟩
      rw [siteLog, if_neg (h.started.mp hstarted), ← h.site, ← hgone.site]
      rfl
    · next hstarted =>
      have hopening : opening past = none := not_not.mp (mt h.started.mpr hstarted)
      refine ⟨iff_of_false hstarted (not_not.mpr rfl), ?_, h.host, h.portNumber⟩
      rw [siteLog, if_pos hopening, List.append_nil, h.site]
  | meanwhile occurrence =>
    have hsettled := settled_occur b occurrence
    exact ⟨hsettled.started ▸ h.started, hsettled.site.trans h.site, hsettled.host.trans h.host,
      hsettled.portNumber.trans h.portNumber⟩

section

variable (channel : Channel Value) (host portNumber : Value) (history : List Switch)

theorem opened_switched :
    Opened host portNumber history (switched channel host portNumber history) := by
  induction history with
  | nil => exact ⟨iff_of_false Bool.false_ne_true (not_not.mpr rfl), rfl, rfl, rfl⟩
  | cons now past ih => exact opened_switch ih now

theorem isBound_iff_opening :
    isBound channel host portNumber history = true ↔ opening history = some (.ok ()) := by
  induction history with
  | nil => exact iff_of_false Bool.false_ne_true nofun
  | cons now past ih =>
    cases now with
    | start setUp listen =>
      have hstarted := (opened_switched channel host portNumber past).started
      rw [isBound, opening]
      cases hopening : opening past with
      | some outcome =>
        rw [hopening] at hstarted ih
        rw [hstarted.mpr nofun, Bool.not_true, Bool.false_and, Bool.false_and, Bool.or_false, ih,
          Option.some_or]
      | none =>
        rw [hopening] at hstarted ih
        have hidle := Bool.eq_false_iff.mpr (mt hstarted.mp (not_not.mpr rfl))
        have hunbound := Bool.eq_false_iff.mpr (mt ih.mp nofun)
        rw [hidle, hunbound]
        cases setUp <;> simp [Except.bind]
    | stop => exact iff_of_false Bool.false_ne_true nofun
    | meanwhile occurrence => exact ih

end

theorem opening_append {later : List Switch} (hlater : Switch.stop ∉ later)
    (history : List Switch) : opening (later ++ history) = (opening history).or (opening later) := by
  induction later with
  | nil => rw [List.nil_append, opening, Option.or_none]
  | cons now rest ih =>
    obtain ⟨hnow, hrest⟩ := not_or.mp (mt List.mem_cons.mpr hlater)
    cases now with
    | start setUp listen => rw [List.cons_append, opening, opening, ih hrest, Option.or_assoc]
    | stop => exact absurd rfl hnow
    | meanwhile occurrence => exact ih hrest

theorem siteLog_append (host portNumber : Value) {later history : List Switch}
    (hlater : Switch.stop ∉ later) (hopening : opening history ≠ none) :
    siteLog host portNumber (later ++ history) = siteLog host portNumber history := by
  induction later with
  | nil => rfl
  | cons now rest ih =>
    obtain ⟨hnow, hrest⟩ := not_or.mp (mt List.mem_cons.mpr hlater)
    cases now with
    | start setUp listen =>
      -- The server is still open, so this start makes no attempt.
      have hstill : opening (rest ++ history) ≠ none := by
        rw [opening_append hrest]
        exact fun hnone => hopening (Option.or_eq_none_iff.mp hnone).1
      rw [List.cons_append, siteLog, if_neg hstill, List.append_nil, ih hrest]
    | stop => exact absurd rfl hnow
    | meanwhile occurrence => exact ih hrest

/-- **A server counts as started from the first start since it was stopped, however that went.** -/
theorem started_iff_opening (channel : Channel Value) (host portNumber : Value)
    (history : List Switch) :
    let b := switched channel host portNumber history
    (b.started = true ↔ opening history ≠ none) ∧
    (isBound channel host portNumber history = true ↔ opening history = some (.ok ())) ∧
    ((b.started = true ↔ isBound channel host portNumber history = true) ↔
      ∀ e, opening history ≠ some (.error e)) ∧
    b.site = siteLog host portNumber history ∧
    ∀ setUp listen e, (b.start setUp listen).1 = .error e →
      b.started = false ∧
      ∀ later, Switch.stop ∉ later →
        let b' := switched channel host portNumber (later ++ .start setUp listen :: history)
        b'.started = true ∧ b'.site = (b.start setUp listen).2.site ∧
          ∀ again againListen, b'.start again againListen = (.ok (), b') := by
  intro b
  have hopened := opened_switched channel host portNumber history
  have hbound := isBound_iff_opening channel host portNumber history
  refine ⟨hopened.started, hbound, ?_, hopened.site, fun setUp listen e hfailed => ?_⟩
  · rw [hopened.started, hbound]
    rcases opening history with _ | e | _ <;> simp
  · have hidle : b.started = false := by
      by_contra hstarted
      rw [start_eq, if_pos (by simpa using hstarted)] at hfailed
      contradiction
    refine ⟨hidle, fun later hlater => ?_⟩
    have hstill : opening (later ++ .start setUp listen :: history) ≠ none := by
      rw [opening_append hlater, opening]
      simp
    have hopened' := opened_switched channel host portNumber (later ++ .start setUp listen :: history)
    have hstarted := hopened'.started.mpr hstill
    refine ⟨hstarted, ?_, fun again againListen => ?_⟩
    · rw [hopened'.site, siteLog_append host portNumber hlater (by simp [opening])]
      exact (opened_switched channel host portNumber (.start setUp listen :: history)).site.symm
    · rw [start_eq, if_pos hstarted]

/-- A server whose address is taken: the start fails, and when a client has come and gone the next
one returns without an attempt. -/
theorem started_without_site :
    let fresh : Broadcast := { channel := {} }
    let taken : Except Fault Unit := .error (.outside "OSError" "address already in use")
    let history : List Switch := [.meanwhile (.arrive 0 .closed),
      .meanwhile (.connect none none), .start (.ok ()) taken]
    let b := switched fresh.channel fresh.host fresh.portNumber history
    (fresh.start (.ok ()) taken).1 = taken ∧ b.started = true ∧
      b.site = [.setUp, .listen (.text "localhost") (.int 1414)] ∧
      isBound fresh.channel fresh.host fresh.portNumber history = false ∧
      b.start (.ok ()) (.ok ()) = (.ok (), b) := by
  intro fresh taken history b
  obtain ⟨-, -, -, -, hfailed⟩ :=
    started_iff_opening fresh.channel fresh.host fresh.portNumber []
  obtain ⟨-, hafter⟩ := hfailed (.ok ()) taken _ rfl
  obtain ⟨hstarted, hsite, hagain⟩ :=
    hafter [.meanwhile (.arrive 0 .closed), .meanwhile (.connect none none)] (by simp)
  exact ⟨rfl, hstarted, hsite, rfl, hagain (.ok ()) (.ok ())⟩

end PromptChain.Broadcast
