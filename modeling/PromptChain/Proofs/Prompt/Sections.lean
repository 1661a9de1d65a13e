import PromptChain.Proofs.Text.Slugs
import PromptChain.Proofs.Text.Substitution
import PromptChain.Proofs.Value.Spelling
import PromptChain.Prompt
/-!
# Resolved prompts

The tokens of a prompt are replaced in one pass, each by what its artifact stands for
(`resolve_parts`).  A prompt of sections is resolved section by section: no token begins in one and
ends in another, and tags are left alone (`message_sections`).
-/

namespace PromptChain

open Text (IsKey IsTag tokenChars tokenText)

/-! ## Tokens -/

/-- What stands for the token of a key: an artifact that is a text for itself, any other one as
JSON, and the token where the artifact is missing or null. -/
def standing (artifacts : Table Value) (key : String) : Except Fault String :=
  match artifacts.get? (.text key) with
  | none => .ok (tokenText key)
  | some .null => .ok (tokenText key)
  | some (.text s) => .ok s
  | some (.brokenText points) => .ok (Text.CodePoint.shownText points)
  | some v => Json.compact v

theorem tokenValue_artifactText (artifacts : Table Value) (key : String) :
    Text.tokenValue (artifactText artifacts) key = standing artifacts key := by
  have hjson : ∀ written : Except Fault String,
      (written.map some).map (fun found => found.getD (tokenText key)) = written := by
    intro written
    cases written <;> rfl
  unfold Text.tokenValue artifactText standing
  cases artifacts.get? (.text key) with
  | none => rfl
  | some v =>
    cases v with
    | null | text s | brokenText points => rfl
    | _ => exact hjson _

/-- **Tokens are replaced in one pass.**  A token is replaced by what its artifact stands for,
whatever stands on either side of it, and what replaces it is not looked at again.  No token goes on
over a new line, and a text without tokens stays as it is. -/
theorem resolve_parts (artifacts : Table Value) :
    (∀ s key rest : String, IsKey key.toList →
      resolve artifacts (s ++ tokenText key ++ rest) =
        (resolve artifacts s).bind fun before =>
          (standing artifacts key).bind fun value =>
            (resolve artifacts rest).map fun behind => before ++ value ++ behind) ∧
    (∀ s rest : String,
      resolve artifacts (s ++ "\n" ++ rest) =
        (resolve artifacts s).bind fun before =>
          (resolve artifacts rest).map fun behind => before ++ "\n" ++ behind) ∧
    ∀ s : String, (∀ key : String, IsKey key.toList → ¬ tokenChars key.toList <:+: s.toList) →
      resolve artifacts s = .ok s := by
  refine ⟨fun s key rest hkey => ?_, fun s rest => ?_, fun s hfree => ?_⟩
  · rw [← tokenValue_artifactText]
    exact Text.substitute_token hkey s rest
  · exact Text.substitute_newLine s rest
  · exact Text.substitute_eq_self fun key hkey hpart => absurd hpart (hfree key hkey)

/-- Braces beside a token, and a token that another one is replaced by. -/
theorem resolve_parts_braces :
    let artifacts : Table Value :=
      [(.text "a-b", .text "\x7b\x7bc\x7d\x7d"), (.text "c", .list [.int 7])]
    IsKey "a-b".toList ∧ IsKey "c".toList ∧
      (∀ key : String, IsKey key.toList → ¬ tokenChars key.toList <:+: "\x7b\x7bx".toList) ∧
      resolve artifacts ("\x7b\x7bx" ++ tokenText "a-b" ++ ("\x7d" ++ tokenText "c" ++ "")) =
        .ok "\x7b\x7bx\x7b\x7bc\x7d\x7d\x7d[7]" := by
  intro artifacts
  have hkey : IsKey "a-b".toList := by decide +kernel
  have hkey' : IsKey "c".toList := by decide +kernel
  have hfree : ∀ s : String, '\x7d' ∉ s.toList →
      ∀ key : String, IsKey key.toList → ¬ tokenChars key.toList <:+: s.toList :=
    fun s hs key _ hpart => hs (hpart.subset (by simp [tokenChars]))
  obtain ⟨htoken, -, hplain⟩ := resolve_parts artifacts
  refine ⟨hkey, hkey', hfree _ (by decide), ?_⟩
  rw [htoken _ _ _ hkey, htoken _ _ _ hkey', hplain _ (hfree _ (by decide))]
  decide +kernel

/-! ## Sections -/

namespace Prompt

def sectioned (base : String) (parts : List (String × String)) : String :=
  base ++ String.join (parts.map fun part => sectionText part.1 part.2)

theorem sectioned_append (base : String) (part : String × String) (parts : List (String × String)) :
    sectioned (base ++ sectionText part.1 part.2) parts = sectioned base (part :: parts) := by
  simp [sectioned, String.append_assoc]

theorem sectioned_cons (base : String) (part : String × String) (parts : List (String × String)) :
    sectioned base (part :: parts) =
      base ++ sectionText part.1 part.2 ++ sectioned "" parts := by
  simp [sectioned, String.append_assoc]

def opening (tag : String) : String := "\n\n<" ++ tag ++ ">\n"

def closing (tag : String) : String := "\n</" ++ tag ++ ">\n\n"

theorem sectionText_eq (tag body : String) :
    sectionText tag body = opening tag ++ body ++ closing tag := by
  simp only [sectionText, opening, closing, String.append_assoc]

theorem pieces_sectionText {tag : String} (htag : '\x7b' ∉ tag.toList)
    (before body rest : String) :
    Text.pieces (before ++ sectionText tag body ++ rest).toList =
      Text.pieces before.toList ++ ((opening tag).toList.map .literal ++
        (Text.pieces body.toList ++ ((closing tag).toList.map .literal ++
          Text.pieces rest.toList))) := by
  have hopen : '\x7b' ∉ (opening tag).toList := by simp [opening, htag]
  have hclose : '\x7b' ∉ (closing tag).toList := by simp [closing, htag]
  have hopening : ∀ cs, Text.StartsAfresh ((opening tag).toList ++ cs) := by
    intro cs
    rw [opening, String.append_assoc, String.toList_append]
    exact Text.startsAfresh_newLine _
  have hclosing : ∀ cs, Text.StartsAfresh ((closing tag).toList ++ cs) := by
    intro cs
    rw [closing, String.append_assoc, String.toList_append]
    exact Text.startsAfresh_newLine _
  rw [sectionText_eq]
  simp only [String.toList_append, List.append_assoc]
  rw [Text.pieces_append_afresh (hopening _), Text.pieces_append hopen,
    Text.pieces_append_afresh (hclosing _), Text.pieces_append hclose]

theorem keys_sectionText {tag : String} (htag : '\x7b' ∉ tag.toList) (before body rest : String) :
    Text.keys (before ++ sectionText tag body ++ rest) =
      Text.keys before ++ (Text.keys body ++ Text.keys rest) := by
  rw [Text.keys, pieces_sectionText htag]
  simp only [List.filterMap_append, Text.filterMap_literals, List.nil_append, Text.keys]

theorem keys_sectioned {parts : List (String × String)}
    (htags : ∀ part ∈ parts, '\x7b' ∉ part.1.toList) (base : String) :
    Text.keys (sectioned base parts) =
      Text.keys base ++ parts.flatMap fun part => Text.keys part.2 := by
  induction parts generalizing base with
  | nil => simp [sectioned]
  | cons part parts ih =>
    obtain ⟨htag, htags⟩ := List.forall_mem_cons.mp htags
    have hempty : Text.keys "" = [] := rfl
    rw [sectioned_cons, keys_sectionText htag, ih htags, hempty, List.nil_append, List.flatMap_cons]

theorem substitute_sectionText {ε : Type} {resolve : String → Except ε (Option String)}
    {tag : String} (htag : '\x7b' ∉ tag.toList) (before body rest : String) :
    Text.substitute resolve (before ++ sectionText tag body ++ rest) =
      (Text.substitute resolve before).bind fun before =>
        (Text.substitute resolve body).bind fun body =>
          (Text.substitute resolve rest).map fun rest =>
            before ++ sectionText tag body ++ rest := by
  simp only [Text.substitute]
  rw [pieces_sectionText htag, Text.fill_append, Text.fill_literals, Text.fill_append,
    Text.fill_literals]
  cases Text.fill resolve (Text.pieces before.toList) with
  | error e => rfl
  | ok before =>
    cases Text.fill resolve (Text.pieces body.toList) with
    | error e => rfl
    | ok body =>
      cases Text.fill resolve (Text.pieces rest.toList) with
      | error e => rfl
      | ok rest => simp [Except.bind, Except.map, sectionText_eq, String.append_assoc]

end Prompt

def resolveSections (artifacts : Table Value) (parts : List (String × String)) :
    Except Fault (List String) :=
  parts.mapM fun part => (resolve artifacts part.2).map (Prompt.sectionText part.1)

theorem resolve_sectioned (artifacts : Table Value) {parts : List (String × String)}
    (htags : ∀ part ∈ parts, '\x7b' ∉ part.1.toList) (base : String) :
    resolve artifacts (Prompt.sectioned base parts) =
      (resolve artifacts base).bind fun text =>
        (resolveSections artifacts parts).map fun sections => text ++ String.join sections := by
  induction parts generalizing base with
  | nil =>
    have hbase : Prompt.sectioned base [] = base := by simp [Prompt.sectioned]
    rw [hbase]
    cases resolve artifacts base with
    | error e => rfl
    | ok text => simp [resolveSections, Except.bind, Except.map, pure, Except.pure]
  | cons part parts ih =>
    obtain ⟨htag, htags⟩ := List.forall_mem_cons.mp htags
    have hrest := ih htags ""
    have hempty : resolve artifacts "" = .ok "" := rfl
    rw [hempty] at hrest
    rw [Prompt.sectioned_cons, resolve, Prompt.substitute_sectionText htag]
    simp only [← resolve.eq_1, hrest, resolveSections, List.mapM_cons]
    cases resolve artifacts base with
    | error e => rfl
    | ok text =>
      cases resolve artifacts part.2 with
      | error e => rfl
      | ok body =>
        simp only [resolveSections] at hrest
        cases parts.mapM fun part => (resolve artifacts part.2).map (Prompt.sectionText part.1) with
        | error e => rfl
        | ok sections =>
          simp [Except.bind, Except.map, bind, pure, Except.pure, String.append_assoc]

namespace Prompt

/-- Whether a section is given by a name and an input that stand for two texts. -/
structure Tells (given : Value × Value) (told : String × String) : Prop where
  name : Spells given.1 told.1
  body : Inputs given.2 told.2

def tagged (told : List (String × String)) : List (String × String) :=
  told.map fun part => (Text.slug part.1, part.2)

theorem editAll_sections (artifacts : Table Value) {given : List (Value × Value)}
    {told : List (String × String)} (h : List.Forall₂ Tells given told) (p : Prompt) :
    p.editAll artifacts (given.map fun s => .section s.1 s.2) =
      .ok { p with content := sectioned p.content (tagged told) } := by
  induction h generalizing p with
  | nil => simp [editAll, sectioned, tagged]
  | @cons _ part _ parts hpart _ ih =>
    have hsection := sectioned_append p.content (Text.slug part.1, part.2) (tagged parts)
    rw [List.map_cons, editAll, edit, addSection, hpart.name.slugged, hpart.body.joinInput]
    dsimp only
    rw [ih, hsection]
    rfl

theorem not_mem_of_isTag {tag : String} (h : IsTag tag) : '\x7b' ∉ tag.toList := by
  intro hmem
  have hword := h.word _ hmem
  have hbrace : Text.isWord '\x7b' = false := by decide +kernel
  rw [hbrace] at hword
  cases hword

/-- **Sections are resolved each on its own.**  A prompt of a text and sections sends the resolved
text, and behind it the sections in order, each with its body resolved between the tags of its name.
Every token of the whole stands in the text or in one of the bodies, and no name changes what its
tags are. -/
theorem message_sections {base : Value} {b : String} (hbase : Inputs base b)
    {given : List (Value × Value)} {told : List (String × String)}
    (hgiven : List.Forall₂ Tells given told) (p : Prompt) (atHand : Table Value) :
    ∃ q, p.editAll atHand (.text base :: given.map fun s => .section s.1 s.2) = .ok q ∧
      (∀ artifacts, q.message artifacts =
        (resolve artifacts b).bind fun text =>
          (resolveSections artifacts (tagged told)).map fun sections =>
            .user (text ++ String.join sections)) ∧
      Text.keys q.content = Text.keys b ++ told.flatMap (fun part => Text.keys part.2) ∧
      ∀ part ∈ told, IsTag (Text.slug part.1) := by
  have htags : ∀ part ∈ tagged told, '\x7b' ∉ part.1.toList := by
    intro part hpart
    obtain ⟨named, -, rfl⟩ := List.mem_map.mp hpart
    exact not_mem_of_isTag (Text.isTag_slug named.1)
  refine ⟨{ p with content := sectioned b (tagged told) }, ?_, fun artifacts => ?_, ?_,
    fun part _ => Text.isTag_slug part.1⟩
  · rw [editAll, edit, hbase.joinInput]
    exact editAll_sections atHand hgiven { p with content := b }
  · rw [message, resolve_sectioned artifacts htags]
    cases resolve artifacts b with
    | error e => rfl
    | ok text => cases resolveSections artifacts (tagged told) <;> rfl
  · rw [keys_sectioned htags, tagged, List.flatMap_map]

/-- Braces at the ends of bodies, and a name that looks like a token. -/
theorem message_sections_braces :
    let artifacts : Table Value := [(.text "k", .text "v")]
    let given : List (Value × Value) :=
      [(.text "A b!", .text "k\x7d\x7d \x7b\x7bk\x7d\x7d"),
        (.text "\x7b\x7bk\x7d\x7d", .list [.text "\x7b\x7b", .text "k\x7d\x7d"])]
    let told : List (String × String) :=
      [("A b!", "k\x7d\x7d \x7b\x7bk\x7d\x7d"), ("\x7b\x7bk\x7d\x7d", "\x7b\x7b\nk\x7d\x7d")]
    Inputs (.text "\x7b\x7b") "\x7b\x7b" ∧ List.Forall₂ Tells given told ∧
      ∃ q, ({} : Prompt).editAll artifacts
          (.text (.text "\x7b\x7b") :: given.map fun s => .section s.1 s.2) = .ok q ∧
        q.message artifacts = .ok (.user ("\x7b\x7b\n\n<a_b>\nk\x7d\x7d v\n</a_b>\n\n" ++
          "\n\n<k>\n\x7b\x7b\nk\x7d\x7d\n</k>\n\n")) ∧
        Text.keys q.content = ["k"] := by
  intro artifacts given told
  have hbase : Inputs (.text "\x7b\x7b") "\x7b\x7b" := .text (.text _)
  have hgiven : List.Forall₂ Tells given told :=
    .cons ⟨.text _, .text (.text _)⟩
      (.cons ⟨.text _, .list (.cons (.text _) (.cons (.text _) .nil))⟩ .nil)
  obtain ⟨q, hq, hmessage, hkeys, -⟩ := message_sections hbase hgiven {} artifacts
  refine ⟨hbase, hgiven, q, hq, ?_, ?_⟩
  · rw [hmessage]
    decide +kernel
  · rw [hkeys]
    decide +kernel

end Prompt

end PromptChain
