import PromptChain.Proofs.Json.RoundTrip
import PromptChain.Schema.Parse
/-!
# Values and their texts

Arrays and objects can be given as JSON texts.  Nothing about the outcome tells which way they came:
a text is parsed to what the value in it is parsed to, and refused for the same reason.
-/

namespace PromptChain.Schema

def isStructured : Schema → Bool
  | .array .. => true
  | .object .. => true
  | _ => false

theorem decode_text {written : String} {v : Value} (h : Json.read written = .ok v)
    (expected : String) : decode expected (.text written) = .ok v := by
  rw [decode, h]
  rfl

theorem decode_of_not_text {v : Value} (h : v.points? = none) (expected : String) :
    decode expected v = .ok v := by
  cases v with
  | text s => cases h
  | brokenText points => cases h
  | _ => rfl

/-- A schema of arrays or objects does to a text what it does to the value that the text denotes,
if this is no text again. -/
theorem parse_of_read {s : Schema} (hs : s.isStructured = true) {written : String} {v : Value}
    (hread : Json.read written = .ok v) (hv : v.points? = none) :
    s.parse (.text written) = s.parse v := by
  cases s with
  | array item described => simp only [parse, decode_text hread, decode_of_not_text hv]
  | object fields described => simp only [parse, decode_text hread, decode_of_not_text hv]
  | _ => cases hs

/-- **Texts and values are parsed alike.**  An array or an object schema makes the same value of a
value that is no text as of its JSON text, or refuses both with the same fault. -/
theorem parse_compact {s : Schema} (hs : s.isStructured = true) {x : Value}
    (hx : Json.Faithful x) (hshape : ∀ t, x ≠ .text t) :
    ∃ written, Json.compact x = .ok written ∧ s.parse (.text written) = s.parse x := by
  obtain ⟨written, hwritten, hread⟩ := Json.read_encode .line hx
  refine ⟨written, hwritten, parse_of_read hs hread ?_⟩
  cases hx with
  | text t => exact absurd rfl (hshape t)
  | _ => rfl

/-- A list in which an escaped text stands where a truth value should. -/
theorem parse_compact_mixed :
    ∃ written, Json.compact (.list [.bool true, .text "a \"ß\"\n𝄞", .int (-12)]) = .ok written ∧
      parse (.array (.boolean .null) none) (.text written) =
        parse (.array (.boolean .null) none)
          (.list [.bool true, .text "a \"ß\"\n𝄞", .int (-12)]) := by
  apply parse_compact rfl
  · apply Json.Faithful.list
    intro v hv
    simp only [List.mem_cons, List.not_mem_nil, or_false] at hv
    rcases hv with rfl | rfl | rfl
    · exact .bool true
    · exact .text _
    · exact .int (by decide +kernel)
  · intro t heq
    cases heq

end PromptChain.Schema
