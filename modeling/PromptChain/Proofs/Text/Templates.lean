import PromptChain.Text.Template
/-!
# Filled templates

What stands between the tokens of a template is kept, and what replaces a token is taken as it is,
tokens in it included.
-/

namespace PromptChain.Text

/-! ## Pieces -/

theorem leadingToken?_of_ne {c : Char} (h : c ≠ '\x7b') (rest : List Char) :
    leadingToken? (c :: rest) = none := by
  unfold leadingToken?
  split
  · next heq => exact absurd (List.cons.inj heq).1 h
  · rfl

theorem leadingToken?_tokenChars {key : List Char} (hne : key ≠ [])
    (hkey : ∀ c ∈ key, isKeyChar c = true) (rest : List Char) :
    leadingToken? (tokenChars key ++ rest) = some key := by
  obtain ⟨c, more, rfl⟩ := List.exists_cons_of_ne_nil hne
  have hclose : isKeyChar '\x7d' = false := by decide +kernel
  have hsplit : tokenChars (c :: more) ++ rest =
      '\x7b' :: '\x7b' :: ((c :: more) ++ '\x7d' :: '\x7d' :: rest) := by simp [tokenChars]
  rw [hsplit, leadingToken?, List.takeWhile_append_of_pos hkey, List.dropWhile_append_of_pos hkey]
  simp [hclose]

theorem piecesFrom_length (seen rest : List Char) :
    piecesFrom seen.length (seen ++ rest) = piecesFrom 0 rest := by
  induction seen with
  | nil => rfl
  | cons c seen ih => simpa [piecesFrom] using ih

theorem pieces_append {cs : List Char} (h : '\x7b' ∉ cs) (rest : List Char) :
    pieces (cs ++ rest) = cs.map .literal ++ pieces rest := by
  induction cs with
  | nil => rfl
  | cons c cs ih =>
    rw [List.mem_cons, not_or] at h
    simp only [pieces, List.cons_append, piecesFrom, leadingToken?_of_ne (Ne.symm h.1),
      List.map_cons]
    exact congrArg _ (ih h.2)

theorem pieces_tokenChars {key : List Char} (hne : key ≠ [])
    (hkey : ∀ c ∈ key, isKeyChar c = true) (rest : List Char) :
    pieces (tokenChars key ++ rest) = .token key :: pieces rest := by
  have hskip := piecesFrom_length ('\x7b' :: key ++ ['\x7d', '\x7d']) rest
  have hlength : ('\x7b' :: key ++ ['\x7d', '\x7d']).length = key.length + 3 := by simp
  rw [hlength] at hskip
  have hfirst : tokenChars key ++ rest =
      '\x7b' :: ('\x7b' :: key ++ ['\x7d', '\x7d'] ++ rest) := rfl
  rw [pieces, hfirst, piecesFrom, ← hfirst, leadingToken?_tokenChars hne hkey]
  exact congrArg _ hskip

/-! ## Filling -/

def tokenText (key : String) : String := String.ofList (tokenChars key.toList)

/-- The text that a piece stands for, where some keys have texts and the others' tokens stay. -/
def Piece.chars (found : String → Option String) : Piece → List Char
  | .literal c => [c]
  | .token key => ((found (String.ofList key)).map String.toList).getD (tokenChars key)

def filled (found : String → Option String) (s : String) : String :=
  String.ofList ((pieces s.toList).flatMap (Piece.chars found))

theorem substitute_eq {ε : Type} {resolve : String → Except ε (Option String)}
    {found : String → Option String}
    (h : ∀ key, ∃ text?, resolve key = .ok text? ∧
      text?.getD (tokenText key) = (found key).getD (tokenText key)) (s : String) :
    substitute resolve s = .ok (filled found s) := by
  have hchars : ∀ (text? : Option String) (key : List Char),
      (text?.map String.toList).getD (tokenChars key) =
        (text?.getD (tokenText (String.ofList key))).toList := by
    intro text? key
    cases text? <;> simp [tokenText]
  have hfill : ∀ ps, fill resolve ps = .ok (ps.flatMap (Piece.chars found)) := by
    intro ps
    induction ps with
    | nil => rfl
    | cons p ps ih =>
      cases p with
      | literal c =>
        simp only [fill, ih]
        rfl
      | token key =>
        obtain ⟨text?, hresolve, htext⟩ := h (String.ofList key)
        simp only [fill, ih, hresolve, List.flatMap_cons, Piece.chars, hchars, htext]
  rw [substitute, hfill]
  rfl

variable {found : String → Option String}

theorem filled_empty : filled found "" = "" := rfl

theorem filled_append {s : String} (h : '\x7b' ∉ s.toList) (rest : String) :
    filled found (s ++ rest) = s ++ filled found rest := by
  have hliteral : (s.toList.map Piece.literal).flatMap (Piece.chars found) = s.toList := by
    simp [List.flatMap_map, Piece.chars]
  rw [← String.toList_inj]
  simp [filled, pieces_append h, hliteral]

theorem filled_token {key : String} (hne : key.toList ≠ [])
    (hkey : ∀ c ∈ key.toList, isKeyChar c = true) (rest : String) :
    filled found (tokenText key ++ rest) =
      (found key).getD (tokenText key) ++ filled found rest := by
  rw [← String.toList_inj]
  simp only [filled, tokenText, String.toList_append, String.toList_ofList,
    pieces_tokenChars hne hkey, List.flatMap_cons, Piece.chars, String.ofList_toList]
  cases found key <;> simp

end PromptChain.Text
