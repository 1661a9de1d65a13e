import PromptChain.Proofs.Text.Trimming
import PromptChain.Text.Slug
/-!
# Slugs as tags

Whatever a name is, its slug may stand in a tag: nothing in it can end the tag, or be taken for a
part of a template's token.
-/

namespace PromptChain.Text

/-- Whether a text is fit for a tag: word characters only, and no underscore at either end. -/
structure IsTag (tag : String) : Prop where
  word : ∀ c ∈ tag.toList, isWord c = true
  head : tag.toList.head? ≠ some '_'
  last : tag.toList.getLast? ≠ some '_'

theorem isWord_of_mem_bridgeGaps {gap : Bool} {cs : List Char} {c : Char}
    (h : c ∈ bridgeGaps gap cs) : isWord c = true := by
  have hbridge : isWord '_' = true := by decide +kernel
  induction cs generalizing gap with
  | nil => cases h
  | cons d cs ih =>
    rw [bridgeGaps] at h
    split at h
    · next hword =>
      rcases List.mem_cons.mp h with rfl | h
      · exact hword
      · exact ih h
    · split at h
      · exact ih h
      · rcases List.mem_cons.mp h with rfl | h
        · exact hbridge
        · exact ih h

/-- **A slug is fit for a tag**, the empty one of a name without word characters included. -/
theorem isTag_slug (name : String) : IsTag (slug name) where
  word c hc := by
    rw [slug, String.toList_ofList] at hc
    exact isWord_of_mem_bridgeGaps (mem_of_mem_strip hc)
  head hhead := by
    rw [slug, String.toList_ofList, slugChars] at hhead
    obtain ⟨more, heq⟩ := List.head?_eq_some_iff.mp hhead
    have hkept := head_strip (heq ▸ List.cons_ne_nil '_' more)
    simp [heq] at hkept
  last hlast := by
    rw [slug, String.toList_ofList, slugChars] at hlast
    obtain ⟨before, heq⟩ := List.getLast?_eq_some_iff.mp hlast
    have hkept := getLast_strip (heq ▸ List.concat_ne_nil '_' before)
    simp [heq] at hkept

end PromptChain.Text
