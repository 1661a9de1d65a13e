import PromptChain.Proofs.Cache.Entries
/-!
# The files of keys

The keys of a cache that are names and not ways, so that each has a file of its own in the
directory of the cache.  What the operations on a key do is told by what is at the place of its
file, and they change nothing at the places of other keys.
-/

namespace PromptChain

namespace FilePath

theorem rootOf_of_no_slash {cs : List Char} (h : '/' ∉ cs) : rootOf cs = .relative := by
  unfold rootOf
  split
  · exact absurd List.mem_cons_self h
  · exact absurd List.mem_cons_self h
  · exact absurd List.mem_cons_self h
  · rfl

theorem splitNames_of_no_slash {cs : List Char} (h : '/' ∉ cs) : splitNames cs = [cs] := by
  induction cs with
  | nil => rfl
  | cons c rest ih =>
    obtain ⟨hc, hrest⟩ := not_or.mp (fun hmem => h (List.mem_cons.mpr hmem))
    unfold splitNames
    split
    · next heq => cases heq
    · next heq => exact absurd (List.cons.inj heq).1.symm hc
    · next heq =>
      obtain ⟨rfl, rfl⟩ := List.cons.inj heq
      rw [ih hrest]

theorem exists_splitNames_append (cs : List Char) :
    ∃ front last, ∀ more, '/' ∉ more → splitNames (cs ++ more) = front ++ [last ++ more] := by
  induction cs with
  | nil => exact ⟨[], [], fun more hmore => splitNames_of_no_slash hmore⟩
  | cons c rest ih =>
    obtain ⟨front, last, hsplit⟩ := ih
    by_cases hc : c = '/'
    · refine ⟨[] :: front, last, fun more hmore => ?_⟩
      rw [hc, List.cons_append, splitNames, hsplit more hmore, List.cons_append]
    · cases front with
      | nil =>
        refine ⟨[], c :: last, fun more hmore => ?_⟩
        simp [splitNames, hsplit more hmore]
      | cons name names =>
        refine ⟨(c :: name) :: names, last, fun more hmore => ?_⟩
        simp [splitNames, hsplit more hmore]

end FilePath

namespace ReplyCache

def fileName (key : String) : String := key ++ ".json"

/-- Whether a key is a name that files can have. -/
structure IsName (key : String) : Prop where
  noSlash : '/' ∉ key.toList
  noNul : '\x00' ∉ key.toList

theorem toList_fileName (key : String) :
    (fileName key).toList = key.toList ++ ['.', 'j', 's', 'o', 'n'] := by
  rw [fileName, String.toList_append]
  rfl

theorem fileName_inj {key other : String} (h : fileName key = fileName other) : key = other := by
  have hlist := congrArg String.toList h
  rw [toList_fileName, toList_fileName] at hlist
  exact String.toList_inj.mp (List.append_cancel_right hlist)

theorem fileName_ne (key : String) {name : String} (h : name.toList.length < 5) :
    fileName key ≠ name := by
  rintro rfl
  rw [toList_fileName, List.length_append] at h
  simp at h

theorem path_of_isName (cache : ReplyCache) {key : String} (h : IsName key) :
    cache.path key =
      { cache.directory with names := cache.directory.names ++ [fileName key] } := by
  have hslash : '/' ∉ (fileName key).toList := by
    rw [toList_fileName, List.mem_append, not_or]
    exact ⟨h.noSlash, by decide⟩
  have hnames : (FilePath.ofText (fileName key)).names = [fileName key] := by
    simp [FilePath.ofText, FilePath.splitNames_of_no_slash hslash, fileName_ne key]
  have hroot : (FilePath.ofText (fileName key)).root = .relative :=
    FilePath.rootOf_of_no_slash hslash
  rw [path, ← fileName, FilePath.join, if_pos hroot, hnames]

theorem exists_names_path (start : List Char) :
    ∃ last : List Char, ∀ (cache : ReplyCache) (more : List Char), '/' ∉ more →
      ∃ front, (cache.path (String.ofList (start ++ more))).names =
        front ++ [fileName (String.ofList (last ++ more))] := by
  obtain ⟨front, last, hsplit⟩ := FilePath.exists_splitNames_append start
  refine ⟨last, fun cache more hmore => ?_⟩
  have htext : (fileName (String.ofList (start ++ more))).toList =
      start ++ (more ++ ['.', 'j', 's', 'o', 'n']) := by
    rw [toList_fileName, String.toList_ofList, List.append_assoc]
  have hlast : String.ofList (last ++ (more ++ ['.', 'j', 's', 'o', 'n'])) =
      fileName (String.ofList (last ++ more)) := by
    rw [← String.toList_inj, toList_fileName, String.toList_ofList, String.toList_ofList,
      List.append_assoc]
  have hnames : ∃ front, (FilePath.ofText (fileName (String.ofList (start ++ more)))).names =
      front ++ [fileName (String.ofList (last ++ more))] := by
    have hkept : ∀ key, [fileName key].filter (fun name => name ≠ "" && name ≠ ".") =
        [fileName key] := fun key => by simp [fileName_ne key]
    rw [FilePath.ofText, htext, hsplit _ (by simp [hmore]), List.map_append, List.filter_append,
      List.map_singleton, hlast, hkept]
    exact ⟨_, rfl⟩
  obtain ⟨names, hnames⟩ := hnames
  rw [path, ← fileName, FilePath.join]
  split
  · exact ⟨cache.directory.names ++ names, by rw [hnames, List.append_assoc]⟩
  · exact ⟨names, hnames⟩

theorem eq_of_locate {start more more' : List Char} (hmore : '/' ∉ more) (hmore' : '/' ∉ more')
    {cache cache' : ReplyCache} {files files' : FileTree} {place : Place}
    (h : files.locate (cache.path (String.ofList (start ++ more))) = .ok place)
    (h' : files'.locate (cache'.path (String.ofList (start ++ more'))) = .ok place) :
    more' = more := by
  obtain ⟨last, hpath⟩ := exists_names_path start
  have hname : ∀ {cache : ReplyCache} {files : FileTree} {more : List Char}, '/' ∉ more →
      files.locate (cache.path (String.ofList (start ++ more))) = .ok place →
      place.getLast? = some (fileName (String.ofList (last ++ more))) := by
    intro cache files more hmore h
    obtain ⟨front, hfront⟩ := hpath cache more hmore
    rw [FileTree.locate, hfront] at h
    split at h
    · cases h
    · exact FileTree.getLast?_of_follow (fileName_ne _ (by decide)) h
  have hsame := fileName_inj (Option.some.inj ((hname hmore' h').symm.trans (hname hmore h)))
  exact List.append_cancel_left (String.ofList_injective hsame)

theorem IsName.eq_of_locate {key key' : String} (hkey : IsName key) (hkey' : IsName key')
    {cache : ReplyCache} {files : FileTree} {place : Place}
    (h : files.locate (cache.path key) = .ok place)
    (h' : files.locate (cache.path key') = .ok place) : key' = key := by
  have htext : ∀ key : String, String.ofList ([] ++ key.toList) = key :=
    fun key => String.ofList_toList
  rw [← htext key] at h
  rw [← htext key'] at h'
  exact String.toList_inj.mp (ReplyCache.eq_of_locate hkey.noSlash hkey'.noSlash h h')

/-! ## Caches in their directories -/

structure Housed (cache : ReplyCache) (files : FileTree) (place : Place) : Prop where
  noNul : cache.directory.hasNul = false
  found : files.follow (files.origin cache.directory) cache.directory.names = .ok place
  directory : files.get? place = some .directory

theorem Housed.of_keeps {cache : ReplyCache} {files files' : FileTree} {place : Place}
    (h : cache.Housed files place) (hkeeps : files.Keeps files') : cache.Housed files' place where
  noNul := h.noNul
  found := by
    rw [FileTree.origin, hkeeps.1]
    exact FileTree.follow_of_keeps hkeeps h.found
  directory := hkeeps.2 place h.directory

/-- Whether the name of a key's file, and the path to it, are short enough. -/
def fits (cache : ReplyCache) (key : String) : Bool :=
  (fileName key).utf8ByteSize ≤ FileTree.maxNameBytes && !FileTree.isLongPath (cache.path key)

section

variable {cache : ReplyCache} {files : FileTree} {place : Place} (h : cache.Housed files place)
  {key : String} (hkey : IsName key)
include h hkey

theorem Housed.hasNul_path : (cache.path key).hasNul = false := by
  have hname : (fileName key).toList.contains '\x00' = false := by
    have hmem : '\x00' ∉ (fileName key).toList := by
      rw [toList_fileName, List.mem_append, not_or]
      exact ⟨hkey.noNul, by decide⟩
    simpa using hmem
  have hdirectory := h.noNul
  rw [FilePath.hasNul] at hdirectory ⊢
  rw [path_of_isName cache hkey, List.any_append, hdirectory]
  simpa using hname

theorem Housed.locate_path :
    files.locate (cache.path key) =
      if cache.fits key then .ok (place ++ [fileName key]) else .error .nameTooLong := by
  have hfits : cache.fits key = true ↔
      ¬FileTree.maxNameBytes < (fileName key).utf8ByteSize ∧
        FileTree.isLongPath (cache.path key) = false := by
    simp [fits]
  have hnames : files.follow (files.origin (cache.path key)) (cache.path key).names =
      if FileTree.maxNameBytes < (fileName key).utf8ByteSize then .error .nameTooLong
      else .ok (place ++ [fileName key]) := by
    have hfound := h.found
    rw [FileTree.origin] at hfound ⊢
    rw [path_of_isName cache hkey, FileTree.follow_append, hfound]
    simp only [Except.bind, FileTree.follow, h.directory, FileTree.enter,
      if_neg (fileName_ne key (show FileTree.above.toList.length < 5 by decide))]
  rw [FileTree.locate, hnames]
  by_cases hlong : FileTree.isLongPath (cache.path key) = true
  · rw [if_pos hlong, if_neg fun hyes => by simp [hlong] at hfits; simp [hfits] at hyes]
  · rw [if_neg hlong]
    by_cases hname : FileTree.maxNameBytes < (fileName key).utf8ByteSize
    · rw [if_pos hname, if_neg fun hyes => (hfits.mp hyes).1 hname]
    · rw [if_neg hname, if_pos (hfits.mpr ⟨hname, by simpa using hlong⟩)]

theorem Housed.get_eq (now : Binary64) :
    cache.get files now key =
      if cache.fits key then
        match files.get? (place ++ [fileName key]) with
        | some (.file content) =>
          match decode? content with
          | some data => entryValue now data
          | none => .ok .null
        | _ => .ok .null
      else .error (.file .nameTooLong) := by
  have hnul := h.hasNul_path hkey
  have hlocate := h.locate_path hkey
  by_cases hfits : cache.fits key = true
  · rw [if_pos hfits] at hlocate ⊢
    simp only [get, hnul, FileTree.contains, load?, FileTree.read, hlocate, Bool.false_eq_true,
      if_false]
    cases files.get? (place ++ [fileName key]) with
    | none => rfl
    | some node =>
      cases node with
      | directory => rfl
      | file content => cases hdata : decode? content <;> simp [hdata]
  · rw [if_neg hfits] at hlocate ⊢
    simp only [get, hnul, FileTree.contains, hlocate, Bool.false_eq_true, if_false]

end

/-- The cache in the directory `cache`, and a file tree in which there is nothing else. -/
def bare : ReplyCache × FileTree :=
  (⟨{ names := ["cache"] }⟩, { nodes := [(["cache"], .directory)] })

theorem housed_bare : bare.1.Housed bare.2 ["cache"] := ⟨by decide, by decide, rfl⟩

end ReplyCache

end PromptChain
