import PromptChain.Proofs.Cache.Keys
/-!
# Keys that interfere

A key goes into the path of its file as it is.  So what is done under one key touches the file at
the end of its path and nothing else; but other keys may lead to the same file, and the path may
leave the directory of the cache (`alters_own_place`).  Keys that are straight, as a way that is
spelled in one way only, keep to the directory and out of each other's files.
-/

namespace PromptChain

namespace FilePath

theorem exists_splitNames_cons (cs : List Char) :
    ∃ name names, splitNames cs = name :: names := by
  unfold splitNames
  split
  · exact ⟨_, _, rfl⟩
  · exact ⟨_, _, rfl⟩
  · split <;> exact ⟨_, _, rfl⟩

theorem joinChars_splitNames (cs : List Char) : joinChars ['/'] (splitNames cs) = cs := by
  induction cs with
  | nil => rfl
  | cons c rest ih =>
    obtain ⟨name, names, hsplit⟩ := exists_splitNames_cons rest
    rw [hsplit] at ih
    by_cases hc : c = '/'
    · rw [hc, splitNames, hsplit, Json.joinChars_cons_cons, ih]
      rfl
    · have hcons : splitNames (c :: rest) = (c :: name) :: names := by simp [splitNames, hsplit]
      rw [hcons]
      cases names with
      | nil => rw [joinChars] at ih ⊢; rw [ih]
      | cons second more => rw [← ih, Json.joinChars_cons_cons, Json.joinChars_cons_cons]; simp

theorem rootOf_of_names {cs : List Char} (h : [] ∉ splitNames cs) : rootOf cs = .relative := by
  unfold rootOf
  split
  · simp [splitNames] at h
  · simp [splitNames] at h
  · simp [splitNames] at h
  · rfl

end FilePath

namespace FileTree

theorem eq_of_follow {t : FileTree} {place target : Place} {names : List String}
    (hnames : ∀ name ∈ names, name ≠ above) (h : t.follow place names = .ok target) :
    target = place ++ names := by
  induction names generalizing place with
  | nil => simpa [follow] using h.symm
  | cons name rest ih =>
    obtain ⟨hname, hrest⟩ := List.forall_mem_cons.mp hnames
    rw [follow] at h
    split at h
    · cases h
    · cases h
    · split at h
      · cases h
      · rw [ih hrest h, enter, if_neg hname, List.append_assoc, List.singleton_append]

/-- Whether nothing but the file at the end of a path is different in another tree. -/
structure SameBut (path : FilePath) (t t' : FileTree) : Prop where
  working : t'.working = t.working
  directory : ∀ place, t'.get? place = some .directory ↔ t.get? place = some .directory
  elsewhere : ∀ place, t.locate path ≠ .ok place → t'.get? place = t.get? place

/-- What a way meets that leads nowhere. -/
inductive Astray : FileFault → Prop
  | notFound : Astray .notFound
  | notDirectory : Astray .notDirectory

/-- Whether two ways lead to the same place, or both lead nowhere. -/
inductive Agree : Except FileFault Place → Except FileFault Place → Prop
  | same (outcome : Except FileFault Place) : Agree outcome outcome
  | astray {e e' : FileFault} (h : Astray e) (h' : Astray e') : Agree (.error e) (.error e')

section

variable {t t' : FileTree} {path other : FilePath}

theorem SameBut.refl (path : FilePath) (t : FileTree) : SameBut path t t :=
  ⟨rfl, fun _ => .rfl, fun _ _ => rfl⟩

theorem SameBut.keeps (h : SameBut path t t') : Keeps t t' :=
  ⟨h.working, fun place => (h.directory place).mpr⟩

theorem sameBut_of_change {place : Place} {node : Option Node}
    (hplace : t.locate path = .ok place) (hold : t.get? place ≠ some .directory)
    (hnew : node ≠ some .directory) (hworking : t'.working = t.working)
    (hget : ∀ other, t'.get? other = if other = place then node else t.get? other) :
    SameBut path t t' := by
  refine ⟨hworking, fun other => ?_, fun other hother => ?_⟩
  · rw [hget]
    by_cases heq : other = place
    · rw [if_pos heq, heq]
      exact iff_of_false hnew hold
    · rw [if_neg heq]
  · rw [hget, if_neg]
    rintro rfl
    exact hother hplace

theorem sameBut_of_write {content : List UInt8} (h : t.write path content = .ok t') :
    SameBut path t t' := by
  obtain ⟨place, hplace, hnode, rfl⟩ := of_write_eq_ok h
  exact sameBut_of_change hplace hnode (by simp) rfl (t.get?_put (ne_root hnode) _)

theorem sameBut_of_remove (h : t.remove path = .ok t') : SameBut path t t' := by
  rw [remove] at h
  split at h
  · cases h
  next place hplace =>
  split at h
  · cases h
  · cases h
  next content hfile =>
  obtain rfl := Except.ok.inj h
  have hnode : t.get? place ≠ some .directory := by simp [hfile]
  exact sameBut_of_change hplace hnode (by simp) rfl (t.get?_erase (ne_root hnode))

theorem exists_astray {place : Place} (h : t.get? place ≠ some .directory) (name : String)
    (rest : List String) : ∃ e, Astray e ∧ t.follow place (name :: rest) = .error e := by
  rw [follow]
  split
  · exact ⟨_, .notFound, rfl⟩
  · exact ⟨_, .notDirectory, rfl⟩
  · next hnode => exact absurd hnode h

theorem agree_follow (h : ∀ place, t'.get? place = some .directory ↔ t.get? place = some .directory)
    (place : Place) (names : List String) :
    Agree (t.follow place names) (t'.follow place names) := by
  induction names generalizing place with
  | nil => exact .same _
  | cons name rest ih =>
    by_cases hdirectory : t.get? place = some .directory
    · simp only [follow, hdirectory, (h place).mpr hdirectory]
      split
      · exact .same _
      · exact ih _
    · -- One tree may have a file where the other one has nothing: the faults differ, no more.
      obtain ⟨e, he, hfollow⟩ := exists_astray hdirectory name rest
      obtain ⟨e', he', hfollow'⟩ :=
        exists_astray (fun hnode => hdirectory ((h place).mp hnode)) name rest
      rw [hfollow, hfollow']
      exact .astray he he'

theorem SameBut.agree (h : SameBut path t t') (other : FilePath) :
    Agree (t.locate other) (t'.locate other) := by
  rw [locate, locate, origin, origin, h.working]
  split
  · exact .same _
  · exact agree_follow h.directory _ _

theorem contains_of_astray {e : FileFault} (h : Astray e) (hlocate : t.locate other = .error e) :
    t.contains other = .ok false := by
  rw [contains, hlocate]
  cases h <;> rfl

end

end FileTree

namespace ReplyCache

inductive Alters (cache : ReplyCache) (key : String) (files files' : FileTree) : Prop
  | set {now : Binary64} {v ttl : Value} (h : cache.set files now key v ttl = .ok files')
  | delete (h : cache.delete files key = .ok files')

/-- Whether two keys have one file. -/
def Share (cache : ReplyCache) (files : FileTree) (key other : String) : Prop :=
  ∃ place, files.locate (cache.path key) = .ok place ∧ files.locate (cache.path other) = .ok place

section

variable {cache : ReplyCache} {key other : String} {files files' : FileTree}

theorem Alters.hasNul_and_sameBut (h : cache.Alters key files files') :
    (cache.path key).hasNul = false ∧ files.SameBut (cache.path key) files' := by
  cases h with
  | set h =>
    obtain ⟨content, -, hnul, hwrite⟩ := of_set_eq_ok h
    exact ⟨hnul, FileTree.sameBut_of_write hwrite⟩
  | delete h =>
    rw [ReplyCache.delete] at h
    split at h
    · cases h
    next hnul =>
    refine ⟨by simpa using hnul, ?_⟩
    split at h
    · next hremove => exact Except.ok.inj h ▸ FileTree.sameBut_of_remove hremove
    · exact Except.ok.inj h ▸ .refl _ _
    · cases h

theorem Alters.sameBut (h : cache.Alters key files files') :
    files.SameBut (cache.path key) files' := h.hasNul_and_sameBut.2

theorem get_congr (hnul : (cache.path other).hasNul = (cache.path key).hasNul) {place : Place}
    (h : files.locate (cache.path key) = .ok place)
    (h' : files'.locate (cache.path other) = .ok place)
    (hnode : files'.get? place = files.get? place) (now : Binary64) :
    cache.get files' now other = cache.get files now key := by
  simp only [get, hnul, FileTree.contains, load?, FileTree.read, h, h', hnode]

theorem get_of_astray {e : FileFault} (h : FileTree.Astray e)
    (hlocate : files.locate (cache.path key) = .error e) (now : Binary64) :
    cache.get files now key = .ok .null := by
  simp only [get, FileTree.contains_of_astray h hlocate]
  split <;> rfl

/-- Keys that do not share a file do not interfere. -/
theorem Alters.get_eq (h : cache.Alters key files files') (hshare : ¬cache.Share files key other)
    (now : Binary64) : cache.get files' now other = cache.get files now other := by
  have hagree := h.sameBut.agree (cache.path other)
  cases hlocate : files.locate (cache.path other) with
  | ok place =>
    rw [hlocate] at hagree
    generalize hlocate' : files'.locate (cache.path other) = outcome at hagree
    cases hagree
    exact get_congr rfl hlocate hlocate'
      (h.sameBut.elsewhere place fun hkey => hshare ⟨place, hkey, hlocate⟩) now
  | error e =>
    rw [hlocate] at hagree
    generalize hlocate' : files'.locate (cache.path other) = outcome at hagree
    cases hagree with
    | same =>
      simp only [get, FileTree.contains, load?, FileTree.read, hlocate, hlocate']
      cases e <;> rfl
    | astray he he' => rw [get_of_astray he hlocate, get_of_astray he' hlocate']

theorem Alters.get_shared (h : cache.Alters key files files') (hshare : cache.Share files key other)
    (hnul : (cache.path other).hasNul = false) (now : Binary64) :
    cache.get files' now other = cache.get files' now key := by
  obtain ⟨place, hkey, hother⟩ := hshare
  have hkeeps := h.sameBut.keeps
  exact get_congr (hnul.trans h.hasNul_and_sameBut.1.symm) (FileTree.locate_of_keeps hkeeps hkey)
    (FileTree.locate_of_keeps hkeeps hother) rfl now

end

/-! ## Straight keys -/

/-- Whether the path of a key's file is spelled in one way only and never goes up: no name on it is
empty, stays in place or leads to the directory above. -/
def Straight (key : String) : Prop :=
  ∀ name ∈ FilePath.splitNames (fileName key).toList, name ∉ [[], ['.'], ['.', '.']]

instance (key : String) : Decidable (Straight key) :=
  inferInstanceAs (Decidable (∀ name ∈ _, _))

def namesOf (key : String) : List String :=
  (FilePath.splitNames (fileName key).toList).map String.ofList

theorem namesOf_inj {key other : String} (h : namesOf key = namesOf other) : key = other := by
  have hsplit := List.map_injective_iff.mpr (fun _ _ => String.ofList_injective) h
  have htext := congrArg (joinChars ['/']) hsplit
  rw [FilePath.joinChars_splitNames, FilePath.joinChars_splitNames] at htext
  exact fileName_inj (String.toList_inj.mp htext)

theorem namesOf_ne_nil (key : String) : namesOf key ≠ [] := by
  obtain ⟨name, names, hsplit⟩ := FilePath.exists_splitNames_cons (fileName key).toList
  simp [namesOf, hsplit]

section

variable {key : String} (h : Straight key)
include h

theorem Straight.ne_of_mem {name : String} (hname : name ∈ namesOf key) :
    name ≠ "" ∧ name ≠ "." ∧ name ≠ FileTree.above := by
  obtain ⟨cs, hcs, rfl⟩ := List.mem_map.mp hname
  have hne := h cs hcs
  simp only [List.mem_cons, List.not_mem_nil, or_false, not_or] at hne
  rw [FileTree.above, ne_eq, ne_eq, ne_eq, ← String.toList_inj, ← String.toList_inj,
    ← String.toList_inj, String.toList_ofList]
  exact hne

theorem Straight.path_eq (cache : ReplyCache) :
    cache.path key = { cache.directory with names := cache.directory.names ++ namesOf key } := by
  have hroot : (FilePath.ofText (fileName key)).root = .relative :=
    FilePath.rootOf_of_names fun hname => h [] hname (by simp)
  have hnames : (FilePath.ofText (fileName key)).names = namesOf key := by
    refine List.filter_eq_self.mpr fun name hname => ?_
    have hne := h.ne_of_mem hname
    simp [hne.1, hne.2.1]
  rw [path, ← fileName, FilePath.join, if_pos hroot, hnames]

theorem Straight.place_eq {cache : ReplyCache} {files : FileTree} {base place : Place}
    (hhoused : cache.Housed files base) (hplace : files.locate (cache.path key) = .ok place) :
    place = base ++ namesOf key := by
  have hfound := hhoused.found
  rw [FileTree.origin] at hfound
  rw [h.path_eq, FileTree.locate, FileTree.origin, FileTree.follow_append, hfound] at hplace
  split at hplace
  · cases hplace
  · exact FileTree.eq_of_follow (fun name hname => (h.ne_of_mem hname).2.2) hplace

theorem Straight.eq_of_share {cache : ReplyCache} {files : FileTree} {base : Place}
    (hhoused : cache.Housed files base) {other : String} (hother : Straight other)
    (hshare : cache.Share files key other) : other = key := by
  obtain ⟨place, hplace, hplace'⟩ := hshare
  have hnames := (hother.place_eq hhoused hplace').symm.trans (h.place_eq hhoused hplace)
  exact namesOf_inj (List.append_cancel_left hnames)

end

/-- **What is done under a key.**  Storing and removing touch nothing but the place to which the
path of the key leads.  What is found for other keys is what it was, unless they share this place:
then what is found for the key is found for them.  Straight keys never leave the directory of the
cache, and they never share a place. -/
theorem alters_own_place {cache : ReplyCache} {key : String} {files files' : FileTree}
    (h : cache.Alters key files files') :
    (∀ place, files'.get? place ≠ files.get? place →
      files.locate (cache.path key) = .ok place) ∧
    (∀ other later, ¬cache.Share files key other →
      cache.get files' later other = cache.get files later other) ∧
    (∀ other later, cache.Share files key other → (cache.path other).hasNul = false →
      cache.get files' later other = cache.get files' later key) ∧
    ∀ base, cache.Housed files base → Straight key →
      (∀ place, files'.get? place ≠ files.get? place →
        ∃ names, names ≠ [] ∧ place = base ++ names) ∧
      ∀ other later, Straight other → other ≠ key →
        cache.get files' later other = cache.get files later other := by
  have hplaces : ∀ place, files'.get? place ≠ files.get? place →
      files.locate (cache.path key) = .ok place := by
    intro place hchanged
    by_contra hne
    exact hchanged (h.sameBut.elsewhere place hne)
  refine ⟨hplaces, fun other later hshare => h.get_eq hshare later,
    fun other later hshare hnul => h.get_shared hshare hnul later,
    fun base hhoused hkey => ⟨fun place hchanged => ?_, fun other later hother hne => ?_⟩⟩
  · exact ⟨_, namesOf_ne_nil key, hkey.place_eq hhoused (hplaces place hchanged)⟩
  · exact h.get_eq (fun hshare => hne (hkey.eq_of_share hhoused hother hshare)) later

def lasting : List UInt8 := "\x7b\"value\": \"v\", \"expiry\": null\x7d".toUTF8.toList

/-- What is stored under `a` is gone when `./a` is removed, and `../b` is stored next to the
directory of the cache, while `b` is not touched. -/
theorem alters_own_place_bare :
    let now := Binary64.ofInt 1000
    let stored := bare.2.put ["cache", "a.json"] (.file lasting)
    let removed := stored.erase ["cache", "a.json"]
    let outside := removed.put ["b.json"] (.file lasting)
    bare.1.set bare.2 now "a" (.text "v") .null = .ok stored ∧
    bare.1.get stored now "a" = .ok (.text "v") ∧ bare.1.get stored now "b" = .ok .null ∧
    bare.1.delete stored "./a" = .ok removed ∧ bare.1.get removed now "a" = .ok .null ∧
    bare.1.set removed now "../b" (.text "v") .null = .ok outside ∧
    removed.locate (bare.1.path "../b") = .ok ["b.json"] := by
  intro now stored removed outside
  have hset : bare.1.set bare.2 now "a" (.text "v") .null = .ok stored := by rfl
  have hdelete : bare.1.delete stored "./a" = .ok removed := by rfl
  have houtside : bare.1.set removed now "../b" (.text "v") .null = .ok outside := by rfl
  obtain ⟨-, -, -, hstraight⟩ := alters_own_place (.set hset)
  obtain ⟨-, -, hshared, -⟩ := alters_own_place (.delete hdelete)
  obtain ⟨hplace, -⟩ := alters_own_place (.set houtside)
  have hshare : bare.1.Share stored "./a" "a" := ⟨["cache", "a.json"], by decide, by decide⟩
  refine ⟨hset, by decide +kernel, ?_, hdelete, ?_, houtside, hplace _ (by decide)⟩
  · obtain ⟨-, hother⟩ := hstraight _ housed_bare (by decide)
    rw [hother "b" now (by decide) (by decide)]
    decide +kernel
  · rw [hshared "a" now hshare (by decide)]
    decide +kernel

end ReplyCache

end PromptChain
