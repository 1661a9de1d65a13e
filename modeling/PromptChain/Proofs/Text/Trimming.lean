import Mathlib.Data.List.DropRight
import Mathlib.Data.Set.List
import PromptChain.Text.CodePoint
/-!
# Trimmed texts

A text that was trimmed has no blank at either end, and to trim it again changes
nothing.
-/

namespace PromptChain.Text

variable {α β : Type}

theorem strip_eq_rdropWhile (drop : α → Bool) (cs : List α) :
    strip drop cs = (cs.dropWhile drop).rdropWhile drop := rfl

theorem strip_eq_self {drop : α → Bool} {cs : List α}
    (hfirst : ∀ hne : cs ≠ [], drop (cs.head hne) = false)
    (hlast : ∀ hne : cs ≠ [], drop (cs.getLast hne) = false) : strip drop cs = cs := by
  have hfront : cs.dropWhile drop = cs := by
    cases cs with
    | nil => rfl
    | cons c rest =>
      have hc : drop c = false := hfirst (by simp)
      simp [hc]
  rw [strip_eq_rdropWhile, hfront, List.rdropWhile_eq_self_iff]
  intro hne
  simp [hlast hne]

theorem head_strip {drop : α → Bool} {cs : List α} (hne : strip drop cs ≠ []) :
    drop ((strip drop cs).head hne) = false := by
  obtain ⟨dropped, hdropped⟩ := List.rdropWhile_prefix drop (cs.dropWhile drop)
  rw [← strip_eq_rdropWhile] at hdropped
  have hfirst : cs.dropWhile drop ≠ [] := by
    rw [← hdropped]
    simp [hne]
  have hhead : (cs.dropWhile drop).head hfirst = (strip drop cs).head hne := by
    simp only [← hdropped]
    exact List.head_append_of_ne_nil hne
  rw [← hhead]
  simpa using List.head_dropWhile_not drop hfirst

theorem getLast_strip {drop : α → Bool} {cs : List α} (hne : strip drop cs ≠ []) :
    drop ((strip drop cs).getLast hne) = false := by
  have hlast := List.rdropWhile_last_not drop (cs.dropWhile drop) hne
  rwa [Bool.not_eq_true] at hlast

theorem mem_of_mem_strip {drop : α → Bool} {cs : List α} {c : α} (h : c ∈ strip drop cs) :
    c ∈ cs :=
  (List.dropWhile_sublist drop).mem ((List.rdropWhile_prefix drop _).mem h)

theorem strip_strip (drop : α → Bool) (cs : List α) :
    strip drop (strip drop cs) = strip drop cs :=
  strip_eq_self head_strip getLast_strip

theorem strip_bracketed {drop : α → Bool} {left right : α} (middle : List α)
    (hleft : drop left = false) (hright : drop right = false) :
    strip drop (left :: middle ++ [right]) = left :: middle ++ [right] := by
  apply strip_eq_self
  · intro hne
    simpa using hleft
  · intro hne
    simpa using hright

theorem strip_surrounded {drop : α → Bool} {before middle after : List α}
    (hbefore : ∀ c ∈ before, drop c = true) (hafter : ∀ c ∈ after, drop c = true)
    (hne : middle ≠ []) (hfirst : drop (middle.head hne) = false)
    (hlast : drop (middle.getLast hne) = false) :
    strip drop (before ++ middle ++ after) = middle := by
  have hfront : (before ++ middle ++ after).dropWhile drop = middle ++ after := by
    obtain ⟨c, rest, rfl⟩ := List.exists_cons_of_ne_nil hne
    rw [List.append_assoc, List.dropWhile_append_of_pos hbefore, List.cons_append,
      List.dropWhile_cons_of_neg]
    simpa using hfirst
  have hback : (middle ++ after).rdropWhile drop = middle := by
    have hafter' : ∀ c ∈ after.reverse, drop c = true := by simpa using hafter
    rw [List.rdropWhile, List.reverse_append, List.dropWhile_append_of_pos hafter',
      ← List.rdropWhile, List.rdropWhile_eq_self_iff]
    intro _
    simp [hlast]
  rw [strip_eq_rdropWhile, hfront, hback]

theorem infix_dropWhile {drop : α → Bool} {mid cs : List α} (h : mid <:+: cs)
    (hfirst : ∀ hne : mid ≠ [], drop (mid.head hne) = false) : mid <:+: cs.dropWhile drop := by
  obtain ⟨before, after, rfl⟩ := h
  rw [List.append_assoc, List.dropWhile_append]
  split
  · cases mid with
    | nil => exact List.nil_infix
    | cons c rest =>
      have hc : drop c = false := hfirst (by simp)
      rw [List.cons_append, List.dropWhile_cons_of_neg (by simp [hc])]
      exact ⟨[], after, rfl⟩
  · exact ⟨before.dropWhile drop, after, List.append_assoc _ _ _⟩

/-- What occurs in a list occurs in it still when blanks at either end are dropped, up to its own
blanks there. -/
theorem infix_strip {drop : α → Bool} {mid cs : List α} (h : mid <:+: cs) :
    strip drop mid <:+: strip drop cs := by
  have hmid : strip drop mid <:+: cs := by
    refine .trans ?_ h
    exact (List.rdropWhile_prefix drop _).isInfix.trans (List.dropWhile_suffix drop).isInfix
  have hfront : strip drop mid <:+: cs.dropWhile drop := infix_dropWhile hmid head_strip
  rw [← List.reverse_infix, strip.eq_def drop cs, List.reverse_reverse]
  refine infix_dropWhile (List.reverse_infix.mpr hfront) fun hne => ?_
  rw [List.head_reverse]
  exact getLast_strip _

theorem strip_map {drop : α → Bool} {dropped : β → Bool} (f : α → β)
    (h : ∀ x, dropped (f x) = drop x) (cs : List α) :
    strip dropped (cs.map f) = (strip drop cs).map f := by
  have hcomp : dropped ∘ f = drop := funext h
  simp only [strip, List.dropWhile_map, ← List.map_reverse, hcomp]

theorem trim_trim (s : String) : trim (trim s) = trim s := by
  simp only [trim, trimChars, String.toList_ofList, strip_strip]

namespace CodePoint

theorem trim_ofChars (cs : List Char) : trim (ofChars cs) = ofChars (trimChars cs) :=
  @strip_map _ _ Text.isBlank _ CodePoint.char (fun _ => rfl) cs

theorem exists_of_trim_eq {points : List CodePoint} {cs : List Char}
    (h : trim points = ofChars cs) : ∃ ds, points = ofChars ds := by
  have hchars : ∀ p ∈ points, p ∈ Set.range CodePoint.char := by
    intro p hp
    cases p with
    | char c => exact ⟨c, rfl⟩
    | surrogate offset =>
      obtain ⟨before, after, rfl⟩ := List.append_of_mem hp
      have hoccurs : [CodePoint.surrogate offset] <:+: trim (before ++ .surrogate offset :: after) :=
        @infix_strip _ isBlank [.surrogate offset] _ ⟨before, after, by simp⟩
      rw [h] at hoccurs
      obtain ⟨c, -, hc⟩ := List.mem_map.mp (hoccurs.subset List.mem_cons_self)
      cases hc
  obtain ⟨ds, hds⟩ : points ∈ Set.range (List.map CodePoint.char) := by
    rw [Set.range_list_map]
    exact hchars
  exact ⟨ds, hds.symm⟩

theorem ofChars_injective {cs ds : List Char} (h : ofChars cs = ofChars ds) : cs = ds := by
  have hchars := chars?_ofChars cs
  rw [h, chars?_ofChars] at hchars
  exact (Option.some.inj hchars).symm

end CodePoint

end PromptChain.Text
