import PromptChain.Proofs.Text.Templates
/-!
# Substitution part by part

A template is cut where its tokens are, and nowhere else: a token that stands in a text is a piece
of it, whatever stands on either side, and a new line is never inside a token.  So the parts between
tokens, and the parts between lines, are substituted each on its own (`substitute_token`,
`substitute_newLine`), and what was put in is not looked at again.
-/

namespace PromptChain.Text

/-! ## Where tokens stand -/

def IsKey (key : List Char) : Prop := key ≠ [] ∧ ∀ c ∈ key, isKeyChar c = true

-- Through the characters of the key, and not through all characters that there are.
instance : DecidablePred IsKey := fun key =>
  decidable_of_iff (key ≠ [] ∧ key.all isKeyChar = true) (by simp [IsKey])

theorem not_isKeyChar_open : isKeyChar '\x7b' = false := by decide +kernel

theorem length_tokenChars (key : List Char) : (tokenChars key).length = key.length + 4 := by
  simp [tokenChars]

theorem leadingToken?_eq_some_iff {cs key : List Char} :
    leadingToken? cs = some key ↔ IsKey key ∧ tokenChars key <+: cs := by
  constructor
  · intro h
    unfold leadingToken? at h
    split at h
    · next rest =>
      dsimp only at h
      split at h
      · next c more behind hkey hclose =>
        obtain rfl := Option.some.inj h
        have hall := List.all_takeWhile (p := isKeyChar) (l := rest)
        have hrest := List.takeWhile_append_dropWhile (p := isKeyChar) (l := rest)
        rw [hclose] at hrest
        refine ⟨⟨by simp [hkey], List.all_eq_true.mp hall⟩, behind, ?_⟩
        rw [tokenChars, List.cons_append, List.cons_append, List.append_assoc]
        exact congrArg (fun cs => '\x7b' :: '\x7b' :: cs) hrest
      · cases h
    · cases h
  · rintro ⟨hkey, rest, rfl⟩
    exact leadingToken?_tokenChars hkey.1 hkey.2 rest

/-- Whether no token that starts before a text reaches into it. -/
def StartsAfresh (cs : List Char) : Prop :=
  ∀ {key front back : List Char}, IsKey key → tokenChars key = front ++ back → front ≠ [] →
    back ≠ [] → ¬ back <+: cs

theorem startsAfresh_cons {c : Char} (hopen : c ≠ '\x7b') (hclose : c ≠ '\x7d')
    (hc : isKeyChar c = false) (rest : List Char) : StartsAfresh (c :: rest) := by
  intro key front back hkey hsplit _ hback hstart
  obtain ⟨d, more, rfl⟩ := List.exists_cons_of_ne_nil hback
  obtain rfl : d = c := (List.cons_prefix_cons.mp hstart).1
  have hmem : d ∈ tokenChars key := by simp [hsplit]
  simp only [tokenChars, List.mem_cons, List.mem_append, List.not_mem_nil, or_false, hopen, hclose,
    false_or] at hmem
  rw [hkey.2 d hmem] at hc
  cases hc

theorem startsAfresh_newLine (rest : List Char) : StartsAfresh ('\n' :: rest) :=
  startsAfresh_cons (by decide) (by decide) (by decide +kernel) rest

theorem startsAfresh_tokenChars (key rest : List Char) : StartsAfresh (tokenChars key ++ rest) := by
  intro other front back hother hsplit hfront hback hstart
  obtain ⟨first, front, rfl⟩ := List.exists_cons_of_ne_nil hfront
  obtain ⟨c, other, rfl⟩ := List.exists_cons_of_ne_nil hother.1
  have hopen : '\x7b' ∉ (c :: other) ++ ['\x7d', '\x7d'] := by
    intro hmem
    rcases List.mem_append.mp hmem with hmem | hmem
    · have hchar := hother.2 _ hmem
      rw [not_isKeyChar_open] at hchar
      cases hchar
    · simp at hmem
  obtain ⟨d, more, rfl⟩ := List.exists_cons_of_ne_nil hback
  obtain ⟨rfl, hmore⟩ := List.cons_prefix_cons.mp hstart
  have hbehind : '\x7b' :: ((c :: other) ++ ['\x7d', '\x7d']) = front ++ '\x7b' :: more :=
    (List.cons.inj hsplit).2
  cases front with
  | nil =>
    obtain rfl : (c :: other) ++ ['\x7d', '\x7d'] = more := (List.cons.inj hbehind).2
    have hc : c = '\x7b' := (List.cons_prefix_cons.mp hmore).1
    exact hopen (by simp [hc])
  | cons d front =>
    rw [(List.cons.inj hbehind).2] at hopen
    exact hopen (by simp)

theorem leadingToken?_append {cs rest : List Char} (hcs : cs ≠ []) (h : StartsAfresh rest) :
    leadingToken? (cs ++ rest) = leadingToken? cs := by
  ext key
  simp only [leadingToken?_eq_some_iff]
  refine and_congr_right fun hkey => ⟨fun ⟨behind, heq⟩ => ?_, fun hstart => ?_⟩
  · rcases List.append_eq_append_iff.mp heq with ⟨more, hcs', -⟩ | ⟨back, hsplit, hrest⟩
    · exact ⟨more, hcs'.symm⟩
    · by_cases hback : back = []
      · exact ⟨[], by simp [hsplit, hback]⟩
      · exact absurd ⟨behind, hrest.symm⟩ (h hkey hsplit hcs hback)
  · exact hstart.trans (List.prefix_append cs rest)

/-! ## Pieces of texts that are put together -/

theorem piecesFrom_append {rest : List Char} (h : StartsAfresh rest) {cs : List Char} {skip : Nat}
    (hskip : skip ≤ cs.length) :
    piecesFrom skip (cs ++ rest) = piecesFrom skip cs ++ pieces rest := by
  induction cs generalizing skip with
  | nil =>
    obtain rfl : skip = 0 := Nat.le_zero.mp hskip
    rfl
  | cons c cs ih =>
    cases skip with
    | succ skip =>
      simp only [List.cons_append, piecesFrom]
      exact ih (Nat.le_of_succ_le_succ hskip)
    | zero =>
      have hlead : leadingToken? (c :: (cs ++ rest)) = leadingToken? (c :: cs) :=
        leadingToken?_append (List.cons_ne_nil c cs) h
      simp only [List.cons_append, piecesFrom, hlead]
      cases hfound : leadingToken? (c :: cs) with
      | none => simp [ih (Nat.zero_le _)]
      | some key =>
        have hlength := (leadingToken?_eq_some_iff.mp hfound).2.length_le
        rw [length_tokenChars, List.length_cons] at hlength
        have hinside : key.length + 3 ≤ cs.length := by omega
        simp [ih hinside]

theorem pieces_append_afresh {rest : List Char} (h : StartsAfresh rest) (cs : List Char) :
    pieces (cs ++ rest) = pieces cs ++ pieces rest :=
  piecesFrom_append h (Nat.zero_le _)

theorem pieces_append_token {key : List Char} (hkey : IsKey key) (cs rest : List Char) :
    pieces (cs ++ tokenChars key ++ rest) = pieces cs ++ .token key :: pieces rest := by
  rw [List.append_assoc, pieces_append_afresh (startsAfresh_tokenChars key rest),
    pieces_tokenChars hkey.1 hkey.2]

theorem pieces_append_newLine (cs rest : List Char) :
    pieces (cs ++ '\n' :: rest) = pieces cs ++ .literal '\n' :: pieces rest := by
  rw [pieces_append_afresh (startsAfresh_newLine rest)]
  have hline : '\x7b' ∉ ['\n'] := by decide
  exact congrArg _ (pieces_append hline rest)

theorem of_token_mem_piecesFrom {key cs : List Char} {skip : Nat}
    (h : .token key ∈ piecesFrom skip cs) : IsKey key ∧ tokenChars key <:+: cs := by
  induction cs generalizing skip with
  | nil => cases h
  | cons c cs ih =>
    cases skip with
    | succ skip =>
      obtain ⟨hkey, hpart⟩ := ih h
      exact ⟨hkey, List.infix_cons hpart⟩
    | zero =>
      rw [piecesFrom] at h
      split at h
      · next other hfound =>
        rcases List.mem_cons.mp h with heq | h
        · obtain rfl := Piece.token.inj heq
          obtain ⟨hkey, hstart⟩ := leadingToken?_eq_some_iff.mp hfound
          exact ⟨hkey, hstart.isInfix⟩
        · obtain ⟨hkey, hpart⟩ := ih h
          exact ⟨hkey, List.infix_cons hpart⟩
      · rcases List.mem_cons.mp h with heq | h
        · cases heq
        · obtain ⟨hkey, hpart⟩ := ih h
          exact ⟨hkey, List.infix_cons hpart⟩

theorem flatMap_piecesFrom {cs : List Char} {skip : Nat} (hskip : skip ≤ cs.length) :
    (piecesFrom skip cs).flatMap (Piece.chars fun _ => none) = cs.drop skip := by
  induction cs generalizing skip with
  | nil =>
    obtain rfl : skip = 0 := Nat.le_zero.mp hskip
    rfl
  | cons c cs ih =>
    cases skip with
    | succ skip => exact ih (Nat.le_of_succ_le_succ hskip)
    | zero =>
      rw [piecesFrom]
      split
      · next key hfound =>
        obtain ⟨-, behind, hbehind⟩ := leadingToken?_eq_some_iff.mp hfound
        have hlength : key.length + 3 ≤ cs.length := by
          have hlength := congrArg List.length hbehind
          simp only [List.length_append, length_tokenChars, List.length_cons] at hlength
          omega
        have hdrop : cs.drop (key.length + 3) = behind := by
          have hskipped := congrArg (List.drop (key.length + 4)) hbehind
          rw [← length_tokenChars, List.drop_left, length_tokenChars] at hskipped
          exact hskipped.symm
        rw [List.flatMap_cons, ih hlength, hdrop]
        exact hbehind
      · rw [List.flatMap_cons, ih (Nat.zero_le _)]
        rfl

def Piece.key? : Piece → Option String
  | .literal _ => none
  | .token key => some (String.ofList key)

def keys (s : String) : List String := (pieces s.toList).filterMap Piece.key?

theorem filterMap_literals (cs : List Char) :
    (cs.map Piece.literal).filterMap Piece.key? = [] := by
  simp [List.filterMap_map, Piece.key?]

/-! ## Substitution -/

variable {ε : Type} {resolve : String → Except ε (Option String)}

theorem fill_append (ps qs : List Piece) :
    fill resolve (ps ++ qs) =
      (fill resolve ps).bind fun before =>
        (fill resolve qs).map fun behind => before ++ behind := by
  induction ps with
  | nil => cases hqs : fill resolve qs <;> simp [fill, hqs, Except.bind, Except.map]
  | cons p ps ih =>
    cases p with
    | literal c =>
      rw [List.cons_append, fill, fill, ih]
      cases fill resolve ps with
      | error e => rfl
      | ok before => cases fill resolve qs <;> rfl
    | token key =>
      rw [List.cons_append, fill, fill, ih]
      cases resolve (String.ofList key) with
      | error e => rfl
      | ok found =>
        cases fill resolve ps with
        | error e => rfl
        | ok before => cases fill resolve qs <;> simp [Except.bind, Except.map]

theorem fill_literals (cs : List Char) (ps : List Piece) :
    fill resolve (cs.map .literal ++ ps) = (fill resolve ps).map fun behind => cs ++ behind := by
  induction cs with
  | nil => cases hps : fill resolve ps <;> simp [hps, Except.map]
  | cons c cs ih =>
    rw [List.map_cons, List.cons_append, fill, ih]
    cases fill resolve ps <;> rfl

/-- What stands for a token in a text, which is the token itself if nothing resolves it. -/
def tokenValue (resolve : String → Except ε (Option String)) (key : String) : Except ε String :=
  (resolve key).map fun found => found.getD (tokenText key)

/-- The texts on both sides of a token are substituted each on its own, and what stands for the
token is put between them as it is. -/
theorem substitute_token {key : String} (hkey : IsKey key.toList) (s rest : String) :
    substitute resolve (s ++ tokenText key ++ rest) =
      (substitute resolve s).bind fun before =>
        (tokenValue resolve key).bind fun value =>
          (substitute resolve rest).map fun behind => before ++ value ++ behind := by
  simp only [substitute, tokenValue, tokenText, String.toList_append, String.toList_ofList,
    pieces_append_token hkey, fill_append, fill, String.ofList_toList]
  cases fill resolve (pieces s.toList) with
  | error e => rfl
  | ok before =>
    cases resolve key with
    | error e => rfl
    | ok found =>
      cases fill resolve (pieces rest.toList) with
      | error e => rfl
      | ok behind => cases found <;> simp [Except.bind, Except.map, String.append_assoc]

theorem substitute_newLine (s rest : String) :
    substitute resolve (s ++ "\n" ++ rest) =
      (substitute resolve s).bind fun before =>
        (substitute resolve rest).map fun behind => before ++ "\n" ++ behind := by
  have hline : "\n".toList = ['\n'] := rfl
  simp only [substitute, String.toList_append, hline, List.append_assoc, List.singleton_append,
    pieces_append_newLine, fill_append, fill]
  cases fill resolve (pieces s.toList) with
  | error e => rfl
  | ok before =>
    cases fill resolve (pieces rest.toList) with
    | error e => rfl
    | ok behind => simp [Except.bind, Except.map, String.append_assoc]

theorem substitute_eq_self {s : String}
    (h : ∀ key : String, IsKey key.toList → tokenChars key.toList <:+: s.toList →
      resolve key = .ok none) : substitute resolve s = .ok s := by
  have hfill : ∀ ps : List Piece,
      (∀ key, .token key ∈ ps → resolve (String.ofList key) = .ok none) →
      fill resolve ps = .ok (ps.flatMap (Piece.chars fun _ => none)) := by
    intro ps hps
    induction ps with
    | nil => rfl
    | cons p ps ih =>
      have hrest := ih fun key hkey => hps key (List.mem_cons_of_mem _ hkey)
      cases p with
      | literal c => simp only [fill, hrest, List.flatMap_cons, Piece.chars, List.singleton_append]
      | token key =>
        simp only [fill, hrest, hps key List.mem_cons_self, List.flatMap_cons, Piece.chars]
  have htokens : ∀ key, .token key ∈ pieces s.toList → resolve (String.ofList key) = .ok none := by
    intro key hmem
    obtain ⟨hkey, hpart⟩ := of_token_mem_piecesFrom hmem
    exact h _ (by simpa using hkey) (by simpa using hpart)
  have hsame := flatMap_piecesFrom (Nat.zero_le s.toList.length)
  rw [substitute, hfill _ htokens, pieces, hsame, List.drop_zero, Except.map, String.ofList_toList]

end PromptChain.Text
