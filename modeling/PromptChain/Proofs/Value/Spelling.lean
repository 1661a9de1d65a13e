import Mathlib.Data.List.Forall2
import PromptChain.Value.Access
/-!
# Values that are texts

A text, and lines that are joined to one, as the data that they are given as.
-/

namespace PromptChain

inductive Spells : Value → String → Prop where
  | text (s : String) : Spells (.text s) s
  | broken (points : List Text.CodePoint) :
      Spells (.brokenText points) (Text.CodePoint.shownText points)

theorem Spells.joinInput {v : Value} {s : String} (h : Spells v s) : v.joinInput = .ok s := by
  cases h <;> rfl

theorem Spells.ne_null {v : Value} {s : String} (h : Spells v s) : v ≠ .null := by
  cases h <;> nofun

theorem Spells.slugged {v : Value} {s : String} (h : Spells v s) :
    v.slugged = .ok (Text.slug s) := by
  cases h <;> rfl

/-- Whether a value is an input of a user, and for which text it stands: a text for itself, and a
sequence of texts for its lines. -/
inductive Inputs : Value → String → Prop where
  | text {v : Value} {s : String} (h : Spells v s) : Inputs v s
  | list {items : List Value} {lines : List String} (h : List.Forall₂ Spells items lines) :
      Inputs (.list items) ("\n".intercalate lines)
  | tuple {items : List Value} {lines : List String} (h : List.Forall₂ Spells items lines) :
      Inputs (.tuple items) ("\n".intercalate lines)

theorem Spells.points {v : Value} {s : String} (h : Spells v s) :
    ∃ points, v.points? = some points ∧ Text.CodePoint.shownText points = s := by
  cases h with
  | text s => exact ⟨_, rfl, Text.CodePoint.shownText_ofText s⟩
  | broken points => exact ⟨points, rfl, rfl⟩

theorem linePoints_of_spells {items : List Value} {lines : List String}
    (h : List.Forall₂ Spells items lines) (index : Nat) :
    ∃ points, Value.linePoints index items = .ok points ∧
      points.map Text.CodePoint.shownText = lines := by
  induction h generalizing index with
  | nil => exact ⟨[], rfl, rfl⟩
  | cons hline _ ih =>
    obtain ⟨points, hpoints, hshown⟩ := hline.points
    obtain ⟨rest, hrest, hmap⟩ := ih (index + 1)
    refine ⟨points :: rest, ?_, by rw [List.map_cons, hshown, hmap]⟩
    rw [Value.linePoints, hpoints]
    simp only [hrest, Except.map]

theorem joinLines_of_spells {items : List Value} {lines : List String}
    (h : List.Forall₂ Spells items lines) :
    (Value.joinLines items).map Text.CodePoint.shownText = .ok ("\n".intercalate lines) := by
  obtain ⟨points, hpoints, rfl⟩ := linePoints_of_spells h 0
  rw [Value.joinLines, hpoints]
  exact congrArg Except.ok (Text.CodePoint.shownText_intercalate '\n' points)

theorem Inputs.joinInput {v : Value} {s : String} (h : Inputs v s) : v.joinInput = .ok s := by
  cases h with
  | text h => exact h.joinInput
  | list h | tuple h => exact joinLines_of_spells h

end PromptChain
