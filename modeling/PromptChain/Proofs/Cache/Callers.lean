import Mathlib.Logic.Function.Basic
import PromptChain.Proofs.Cache.Keys
/-!
# Callers that share a key

Any number of callers ask a cache for the value of one key.  A caller that finds none computes one,
during which the others go on; when it is done it looks again, and stores its value only if there is
still none.  So all callers that get a value get the same one (`callers_agree`).
-/

namespace PromptChain

namespace ReplyCache

inductive Stage where
  | ready
  /-- The cache had no value, and one is being computed. -/
  | computing
  | ended (outcome : Except Fault Value)

def Stage.value? : Stage → Option Value
  | .ended (.ok v) => some v
  | _ => none

structure Scene where
  files : FileTree
  stage : Nat → Stage

def Scene.put (s : Scene) (i : Nat) (stage : Stage) : Scene :=
  { s with stage := Function.update s.stage i stage }

inductive Event where
  | begin (i : Nat) (now : Binary64)
  | finish (i : Nat) (now : Binary64) (outcome : Except Fault Value)
  /-- Others change files. -/
  | drift (files : FileTree)

def Event.time? : Event → Option Binary64
  | .begin _ now => some now
  | .finish _ now _ => some now
  | .drift _ => none

section

variable (cache : ReplyCache) (key : String) (ttl : Value)

def opened (s : Scene) (i : Nat) (now : Binary64) : Scene :=
  match cache.get s.files now key with
  | .ok .null => s.put i .computing
  | outcome => s.put i (.ended outcome)

def closed (s : Scene) (i : Nat) (now : Binary64) : Except Fault Value → Scene
  | .error e => s.put i (.ended (.error e))
  | .ok v =>
    match cache.complete s.files now key v ttl with
    | .error e => s.put i (.ended (.error e))
    | .ok (v, files) => { s with files }.put i (.ended (.ok v))

/-- The scene after an event.  No call begins twice, and only those that compute finish. -/
def next (s : Scene) : Event → Scene
  | .begin i now =>
    match s.stage i with
    | .ready => cache.opened key s i now
    | _ => s
  | .finish i now outcome =>
    match s.stage i with
    | .computing => cache.closed key ttl s i now outcome
    | _ => s
  | .drift files => { s with files }

structure Deposit where
  value : Value
  limit : Value

/-- What an event stores for the key: a value that a call has computed, if there is still none and
if it can be stored. -/
def deposit? (s : Scene) : Event → Option Deposit
  | .finish i now (.ok v) =>
    match s.stage i, cache.get s.files now key with
    | .computing, .ok .null =>
      match cache.set s.files now key v ttl, expiry now ttl with
      | .ok _, .ok limit => some ⟨v, limit⟩
      | _, _ => none
    | _, _ => none
  | _ => none

/-- A call that nobody interferes with begins, computes, which may change files, and finishes. -/
theorem remember_eq {ε : Type} (world : Surroundings ε)
    (hfiles : ∀ files env, world.files (world.withFiles files env) = files)
    (compute : ε → Except Fault Value × ε) (env : ε) {s : Scene} {i : Nat}
    (hs : s.files = world.files env) (hready : s.stage i = .ready) :
    let begun := cache.next key ttl s (.begin i (world.now env))
    let computed := compute env
    let done := cache.next key ttl
      (cache.next key ttl begun (.drift (world.files computed.2)))
      (.finish i (world.now computed.2) computed.1)
    let result := cache.remember world key ttl compute env
    (begun.stage i = .ended result.1 ∧ result.2 = env) ∨
      (begun.stage i = .computing ∧ done.stage i = .ended result.1 ∧
        done.files = world.files result.2) := by
  intro begun computed done result
  have hbegun : begun = cache.opened key s i (world.now env) := by simp [begun, next, hready]
  by_cases hget : cache.get (world.files env) (world.now env) key = .ok .null
  · right
    have hstage : begun = s.put i .computing := by simp only [hbegun, opened, hs, hget]
    have hdone : done = cache.closed key ttl { begun with files := world.files computed.2 } i
        (world.now computed.2) computed.1 := by
      simp [done, next, hstage, Scene.put]
    refine ⟨by simp [hstage, Scene.put], ?_⟩
    rw [hdone]
    simp only [result, remember, hget]
    rcases hcomputed : compute env with ⟨outcome, env₁⟩
    cases outcome with
    | error e => simp [computed, hcomputed, closed, Scene.put]
    | ok v =>
      cases hcomplete : cache.complete (world.files env₁) (world.now env₁) key v ttl with
      | error e => simp [computed, hcomputed, closed, Scene.put, hcomplete]
      | ok stored => simp [computed, hcomputed, closed, Scene.put, hcomplete, hfiles]
  · left
    have hresult : result = (cache.get (world.files env) (world.now env) key, env) := by
      unfold result remember
      split
      · next heq => exact absurd heq hget
      · rfl
    have hstage : begun =
        s.put i (.ended (cache.get (world.files env) (world.now env) key)) := by
      rw [hbegun, opened, hs]
      split
      · next heq => exact absurd heq hget
      · rfl
    simp [hstage, hresult, Scene.put]

end

/-! ## Scenes that are reached -/

section

variable (cache : ReplyCache) (key : String) (ttl : Value)

/-- Whether the clock tells the time at which an event happens as it should: what was there for the
key at the start looks as it did, and what was stored since has not expired. -/
def InTime (files : FileTree) (look : Except Fault Value) (kept : Option Deposit)
    (now : Binary64) : Prop :=
  cache.get files now key = look ∧ ∀ deposit ∈ kept, lasts deposit.limit now = true

structure Allowed (files : FileTree) (look : Except Fault Value) (s : Scene)
    (kept : Option Deposit) (event : Event) : Prop where
  time : ∀ now ∈ event.time?, cache.InTime key files look kept now
  data : ∀ i now v, event = .finish i now (.ok v) → Json.Data v ∧ v ≠ .null
  quiet : ∀ changed, event = .drift changed → cache.Untouched key s.files changed

/-- The scenes that calls reach from files in which something, or nothing, is found for the key,
and what was stored for the key on the way: of all values that can be stored, the one whose
computation ended first. -/
inductive Reached (files : FileTree) (look : Except Fault Value) : Scene → Option Deposit → Prop
  | start : Reached files look ⟨files, fun _ => .ready⟩ none
  | next {s : Scene} {kept : Option Deposit} {event : Event} (h : Reached files look s kept)
      (hallowed : cache.Allowed key files look s kept event) :
      Reached files look (cache.next key ttl s event)
        (kept.or (cache.deposit? key ttl s event))

end

/-- The value on which callers agree: the one that was there, or else the one that was stored. -/
def agreed (look : Except Fault Value) (kept : Option Deposit) : Option Value :=
  match look with
  | .ok .null => kept.map Deposit.value
  | .ok v => some v
  | .error _ => none

section

variable {cache : ReplyCache} {key : String} {ttl : Value} {files : FileTree}
  {look : Except Fault Value}

inductive Filed (cache : ReplyCache) (key : String) (files : FileTree) (look : Except Fault Value)
    (now : FileTree) : Option Deposit → Prop
  | before (huntouched : cache.Untouched key files now) : Filed cache key files look now none
  | stored {deposit : Deposit} (hlook : look = .ok .null) (hvalue : deposit.value ≠ .null)
      (hget : ∀ t, cache.get now t key =
        .ok (if lasts deposit.limit t then deposit.value else .null)) :
      Filed cache key files look now (some deposit)

structure Agreeing (cache : ReplyCache) (key : String) (files : FileTree)
    (look : Except Fault Value) (s : Scene) (kept : Option Deposit) : Prop where
  filed : Filed cache key files look s.files kept
  computing : ∀ i, s.stage i = .computing → look = .ok .null
  returned : ∀ i v, (s.stage i).value? = some v → agreed look kept = some v

def found (look : Except Fault Value) (kept : Option Deposit) : Except Fault Value :=
  match kept with
  | none => look
  | some deposit => .ok deposit.value

theorem Filed.get_eq {now : FileTree} {kept : Option Deposit}
    (h : Filed cache key files look now kept) {t : Binary64}
    (htime : cache.InTime key files look kept t) : cache.get now t key = found look kept := by
  cases h with
  | before huntouched => exact (huntouched.get_eq t).trans htime.1
  | stored hlook hvalue hget => rw [hget, if_pos (htime.2 _ rfl)]; rfl

theorem Filed.of_quiet {now changed : FileTree} {kept : Option Deposit}
    (h : Filed cache key files look now kept) (hquiet : cache.Untouched key now changed) :
    Filed cache key files look changed kept := by
  cases h with
  | before huntouched => exact .before (huntouched.trans hquiet)
  | stored hlook hvalue hget =>
    exact .stored hlook hvalue fun t => (hquiet.get_eq t).trans (hget t)

theorem Filed.agreed_of_found {now : FileTree} {kept : Option Deposit}
    (h : Filed cache key files look now kept) {v : Value} (hfound : found look kept = .ok v)
    (hv : v ≠ .null) : agreed look kept = some v := by
  cases h with
  | before =>
    obtain rfl : look = .ok v := hfound
    unfold agreed
    split
    · next heq => exact absurd (Except.ok.inj heq) hv
    · next heq => rw [Except.ok.inj heq]
    · next heq => cases heq
  | stored hlook =>
    obtain rfl := hlook
    exact congrArg some (Except.ok.inj hfound)

theorem Filed.look_of_found {now : FileTree} {kept : Option Deposit}
    (h : Filed cache key files look now kept) (hfound : found look kept = .ok .null) :
    kept = none ∧ look = .ok .null := by
  cases h with
  | before => exact ⟨rfl, hfound⟩
  | stored hlook hvalue => exact absurd (Except.ok.inj hfound) hvalue

theorem Agreeing.put {s : Scene} {kept : Option Deposit}
    (h : Agreeing cache key files look s kept) (i : Nat) {stage : Stage}
    (hcomputing : stage = .computing → look = .ok .null)
    (hvalue : ∀ v, stage.value? = some v → agreed look kept = some v) :
    Agreeing cache key files look (s.put i stage) kept where
  filed := h.filed
  computing := by
    intro j hj
    rcases eq_or_ne j i with rfl | hne
    · exact hcomputing (by simpa [Scene.put] using hj)
    · exact h.computing j (by simpa [Scene.put, Function.update_of_ne hne] using hj)
  returned := by
    intro j v hj
    rcases eq_or_ne j i with rfl | hne
    · exact hvalue v (by simpa [Scene.put] using hj)
    · exact h.returned j v (by simpa [Scene.put, Function.update_of_ne hne] using hj)

theorem Agreeing.put_error {s : Scene} {kept : Option Deposit}
    (h : Agreeing cache key files look s kept) (i : Nat) (e : Fault) :
    Agreeing cache key files look (s.put i (.ended (.error e))) kept :=
  h.put i nofun nofun

theorem Agreeing.put_value {s : Scene} {kept : Option Deposit}
    (h : Agreeing cache key files look s kept) (i : Nat) {v : Value}
    (hfound : found look kept = .ok v) (hv : v ≠ .null) :
    Agreeing cache key files look (s.put i (.ended (.ok v))) kept :=
  h.put i nofun fun w hw => by
    obtain rfl : v = w := Option.some.inj hw
    exact h.filed.agreed_of_found hfound hv

theorem Agreeing.opened {s : Scene} {kept : Option Deposit}
    (h : Agreeing cache key files look s kept) (i : Nat) {now : Binary64}
    (htime : cache.InTime key files look kept now) :
    Agreeing cache key files look (cache.opened key s i now) kept := by
  have hget := h.filed.get_eq htime
  unfold ReplyCache.opened
  split
  · next heq => exact h.put i (fun _ => (h.filed.look_of_found (hget ▸ heq)).2) nofun
  · next hnull =>
    cases hfound : cache.get s.files now key with
    | error e => exact h.put_error i e
    | ok v => exact h.put_value i (hget ▸ hfound) fun heq => hnull (heq ▸ hfound)

theorem deposit?_of_found {s : Scene} {i : Nat} {now : Binary64} {v : Value}
    (h : cache.get s.files now key ≠ .ok .null) :
    cache.deposit? key ttl s (.finish i now (.ok v)) = none := by
  rw [deposit?]
  split
  · next hget => exact absurd hget h
  · rfl

theorem deposit?_of_idle {s : Scene} {i : Nat} {now : Binary64} {outcome : Except Fault Value}
    (h : s.stage i ≠ .computing) :
    cache.deposit? key ttl s (.finish i now outcome) = none := by
  cases outcome with
  | error e => rfl
  | ok v =>
    rw [deposit?]
    split
    · next hcomputing _ => exact absurd hcomputing h
    · rfl

theorem deposit?_of_refused {s : Scene} {i : Nat} {now : Binary64} {v : Value} {e : Fault}
    (h : cache.set s.files now key v ttl = .error e) :
    cache.deposit? key ttl s (.finish i now (.ok v)) = none := by
  simp only [deposit?, h]
  split <;> rfl

theorem Agreeing.store {s : Scene} (h : Agreeing cache key files look s none)
    (hlook : look = .ok .null) {now : Binary64} {v limit : Value} (hdata : Json.Data v)
    (hv : v ≠ .null) {written : FileTree} (hset : cache.set s.files now key v ttl = .ok written)
    (hlimit : expiry now ttl = .ok limit) :
    Agreeing cache key files look { s with files := written } (some ⟨v, limit⟩) where
  filed := .stored hlook hv (get_of_set hdata hset hlimit)
  computing := h.computing
  returned := by
    intro i w hi
    have hnone := h.returned i w hi
    simp [agreed, hlook] at hnone

/-- The end of a computation: if there is still no value, and if what was computed can be stored,
it is what callers agree on from now on. -/
theorem Agreeing.closed {s : Scene} {kept : Option Deposit}
    (h : Agreeing cache key files look s kept) {i : Nat} {now : Binary64}
    (htime : cache.InTime key files look kept now) (hstage : s.stage i = .computing) {v : Value}
    (hdata : Json.Data v) (hv : v ≠ .null) :
    Agreeing cache key files look (cache.closed key ttl s i now (.ok v))
      (kept.or (cache.deposit? key ttl s (.finish i now (.ok v)))) := by
  have hget := h.filed.get_eq htime
  rw [ReplyCache.closed]
  cases hfound : cache.get s.files now key with
  | error e =>
    rw [deposit?_of_found (by simp [hfound]), Option.or_none, complete_of_error hfound]
    exact h.put_error i e
  | ok w =>
    by_cases hw : w = .null
    · -- There is still no value.
      rw [hw] at hfound
      obtain ⟨rfl, hlook⟩ := h.filed.look_of_found (hget ▸ hfound)
      rw [complete_of_null hfound]
      cases hset : cache.set s.files now key v ttl with
      | error e =>
        rw [deposit?_of_refused hset]
        exact h.put_error i e
      | ok written =>
        obtain ⟨limit, hlimit⟩ := exists_expiry_of_set hset
        have hdeposit : cache.deposit? key ttl s (.finish i now (.ok v)) = some ⟨v, limit⟩ := by
          simp only [deposit?, hstage, hfound, hset, hlimit]
        rw [hdeposit]
        exact (h.store hlook hdata hv hset hlimit).put_value i rfl hv
    · have hother : cache.get s.files now key ≠ .ok .null :=
        fun heq => hw (Except.ok.inj (hfound.symm.trans heq))
      rw [deposit?_of_found hother, Option.or_none, complete_of_stored hfound hw]
      exact h.put_value i (hget ▸ hfound) hw

theorem Agreeing.next {s : Scene} {kept : Option Deposit}
    (h : Agreeing cache key files look s kept) {event : Event}
    (hallowed : cache.Allowed key files look s kept event) :
    Agreeing cache key files look (cache.next key ttl s event)
      (kept.or (cache.deposit? key ttl s event)) := by
  obtain ⟨htime, hdata, hquiet⟩ := hallowed
  cases event with
  | begin i now =>
    rw [show cache.deposit? key ttl s (.begin i now) = none from rfl, Option.or_none,
      ReplyCache.next]
    split
    · exact h.opened i (htime now rfl)
    · exact h
  | finish i now outcome =>
    rw [ReplyCache.next]
    split
    · next hstage =>
      cases outcome with
      | error e =>
        rw [show cache.deposit? key ttl s (.finish i now (.error e)) = none from rfl,
          Option.or_none]
        exact h.put_error i e
      | ok v =>
        obtain ⟨hv, hnull⟩ := hdata i now v rfl
        exact h.closed (htime now rfl) hstage hv hnull
    · next hstage =>
      rw [deposit?_of_idle hstage, Option.or_none]
      exact h
  | drift changed =>
    rw [show cache.deposit? key ttl s (.drift changed) = none from rfl, Option.or_none]
    exact ⟨h.filed.of_quiet (hquiet changed rfl), h.computing, h.returned⟩

theorem Reached.agreeing {s : Scene} {kept : Option Deposit}
    (h : Reached cache key ttl files look s kept) : Agreeing cache key files look s kept := by
  induction h with
  | start => exact ⟨.before (.refl cache key files), nofun, nofun⟩
  | next _ hallowed ih => exact ih.next hallowed

theorem found_of_agreed {kept : Option Deposit} {now : FileTree}
    (h : Filed cache key files look now kept) {v : Value} (hagreed : agreed look kept = some v) :
    found look kept = .ok v := by
  cases h with
  | before =>
    unfold agreed at hagreed
    split at hagreed
    · cases hagreed
    · exact congrArg Except.ok (Option.some.inj hagreed)
    · cases hagreed
  | stored hlook =>
    obtain rfl := hlook
    exact congrArg Except.ok (Option.some.inj hagreed)

/-- **Callers agree.**  All callers that get a value get the one that was there, or else the one
that was stored, and this is what the cache has; and a call that fails, because its computation did
or because its value cannot be stored, leaves the files and the other calls as they are. -/
theorem callers_agree {s : Scene} {kept : Option Deposit}
    (h : Reached cache key ttl files look s kept) :
    (∀ i v, (s.stage i).value? = some v → agreed look kept = some v) ∧
    (∀ now, cache.InTime key files look kept now → ∀ v, agreed look kept = some v →
      cache.get s.files now key = .ok v) ∧
    (∀ i now e, s.stage i = .computing →
      cache.next key ttl s (.finish i now (.error e)) = s.put i (.ended (.error e))) ∧
    ∀ i now v e, s.stage i = .computing → cache.complete s.files now key v ttl = .error e →
      cache.next key ttl s (.finish i now (.ok v)) = s.put i (.ended (.error e)) := by
  have hagreeing := h.agreeing
  refine ⟨hagreeing.returned, fun now htime v hv => ?_, fun i now e hstage => ?_,
    fun i now v e hstage hrefused => ?_⟩
  · exact (hagreeing.filed.get_eq htime).trans (found_of_agreed hagreeing.filed hv)
  · simp only [next, hstage, closed]
  · simp only [next, hstage, closed, hrefused]

theorem Reached.begin {s : Scene} {kept : Option Deposit}
    (h : Reached cache key ttl files look s kept) (i : Nat) (now : Binary64)
    (htime : cache.InTime key files look kept now) :
    Reached cache key ttl files look (cache.next key ttl s (.begin i now)) kept := by
  have hallowed : cache.Allowed key files look s kept (.begin i now) :=
    ⟨fun _ hnow => Option.some.inj hnow ▸ htime, by rintro _ _ _ ⟨⟩, by rintro _ ⟨⟩⟩
  have hnext := h.next hallowed
  rwa [show cache.deposit? key ttl s (.begin i now) = none from rfl, Option.or_none] at hnext

theorem Reached.finish {s : Scene} {kept : Option Deposit}
    (h : Reached cache key ttl files look s kept) (i : Nat) (now : Binary64)
    (htime : cache.InTime key files look kept now) {v : Value} (hdata : Json.Data v)
    (hv : v ≠ .null) :
    Reached cache key ttl files look (cache.next key ttl s (.finish i now (.ok v)))
      (kept.or (cache.deposit? key ttl s (.finish i now (.ok v)))) :=
  h.next ⟨fun _ hnow => Option.some.inj hnow ▸ htime, by rintro _ _ _ ⟨⟩; exact ⟨hdata, hv⟩,
    by rintro _ ⟨⟩⟩

end

/-- The scene in which calls for the key `k` find nothing in the cache `bare`, after events. -/
def bareScene (events : List Event) : Scene :=
  events.foldl (bare.1.next "k" (.int 60)) ⟨bare.2, fun _ => .ready⟩

/-- Of two callers that compute at the same time both get the value of the one that is done first,
which is still there when the other one is done. -/
theorem callers_agree_bare :
    let s := bareScene [.begin 0 (Binary64.ofInt 1000), .begin 1 (Binary64.ofInt 1001),
      .finish 1 (Binary64.ofInt 1002) (.ok (.text "first")),
      .finish 0 (Binary64.ofInt 1003) (.ok (.text "second"))]
    (s.stage 0).value? = some (.text "first") ∧ (s.stage 1).value? = some (.text "first") ∧
      bare.1.get s.files (Binary64.ofInt 1060) "k" = .ok (.text "first") := by
  intro s
  have htime : ∀ {kept : Option Deposit} {now : Binary64},
      (kept.all fun deposit => lasts deposit.limit now) = true →
        bare.1.InTime "k" bare.2 (.ok .null) kept now := by
    intro kept now h
    exact ⟨rfl, fun deposit hdeposit => by simpa [Option.mem_def.mp hdeposit] using h⟩
  have hstart : Reached bare.1 "k" (.int 60) bare.2 (.ok .null) ⟨bare.2, fun _ => .ready⟩ none :=
    .start
  have hreached := ((hstart.begin 0 (Binary64.ofInt 1000) (htime rfl)).begin 1
    (Binary64.ofInt 1001) (htime rfl)).finish 1 (Binary64.ofInt 1002) (htime rfl)
      (.text "first") (by simp)
  have hagree := callers_agree (hreached.finish 0 (Binary64.ofInt 1003)
    (htime (by decide +kernel)) (.text "second") (by simp))
  refine ⟨by decide +kernel, by decide +kernel, ?_⟩
  exact hagree.2.1 _ (htime (by decide +kernel)) _ (by decide +kernel)

/-- An integer that is too long to be written is not kept, although its computation ended first; and
two halves of a pair are not what a later caller gets. -/
theorem callers_bare :
    ([0, 1].map fun i => ((bareScene [.begin 0 (Binary64.ofInt 1000),
        .finish 0 (Binary64.ofInt 1001) (.ok (.int (10 ^ 4300))),
        .begin 1 (Binary64.ofInt 1002),
        .finish 1 (Binary64.ofInt 1003) (.ok (.text "second"))]).stage i).value?) =
      [none, some (.text "second")] ∧
    ([0, 1].map fun i => ((bareScene [.begin 0 (Binary64.ofInt 1000),
        .finish 0 (Binary64.ofInt 1001)
          (.ok (.brokenText [.surrogate 0x3d, .surrogate 0x600])),
        .begin 1 (Binary64.ofInt 1002)]).stage i).value?) =
      [some (.brokenText [.surrogate 0x3d, .surrogate 0x600]), some (.text "😀")] := by
  decide +kernel

end ReplyCache

end PromptChain
