import NetSettle.Simulation.Files
import Mathlib.Logic.Basic
import Mathlib.Tactic.SplitIfs

/-!
# What a tree of files keeps

A tree in which directories are made grows: what was there is still there, and a path that led to
something leads to it still. A file that is written holds what was written, and no path to anything
else goes astray by it, because paths lead through directories alone.
-/
namespace NetSettle.FileTree

variable {t t' : FileTree} {path text : String} {place : List String} {entry : FileEntry}

def found? (t : FileTree) (path : String) : Option FileEntry := (t.place? path).bind t.find?

theorem lookup_filter_ne {place' : List String} (h : place' ≠ place)
    (entries : List (List String × FileEntry)) :
    (entries.filter fun e => e.1 != place).lookup place' = entries.lookup place' := by
  induction entries with
  | nil => rfl
  | cons e rest ih =>
    obtain ⟨p, entry⟩ := e
    by_cases hp : p = place
    · subst hp
      have hne : (place' == p) = false := by simp [h]
      simpa [List.lookup_cons, hne] using ih
    · rw [List.filter_cons_of_pos (by simpa using hp), List.lookup_cons, List.lookup_cons, ih]

theorem find?_put_self (h : place ≠ []) : (t.put place entry).find? place = some entry := by
  simp [find?, put, List.isEmpty_iff, h]

theorem find?_put_ne {place' : List String} (h : place' ≠ place) :
    (t.put place entry).find? place' = t.find? place' := by
  have hne : (place' == place) = false := by simp [h]
  simp only [find?, put, List.lookup_cons, hne, lookup_filter_ne h]

structure Leads (t t' : FileTree) : Prop where
  current : t'.current = t.current
  directory : ∀ place, t.find? place = some .directory → t'.find? place = some .directory

theorem Leads.walk (h : t.Leads t') {parts : List String} {found : List String}
    (hwalk : t.walk place parts = some found) : t'.walk place parts = some found := by
  induction parts generalizing place with
  | nil => exact hwalk
  | cons part rest ih =>
    rw [FileTree.walk] at hwalk ⊢
    by_cases hplace : t.find? place = some .directory
    · rw [if_neg (not_not.2 hplace)] at hwalk
      rw [if_neg (not_not.2 (h.directory place hplace))]
      split_ifs at hwalk ⊢ with hhere hup hname
      · exact ih hwalk
      · exact ih hwalk
      · exact ih hwalk
    · rw [if_pos hplace] at hwalk
      cases hwalk

theorem Leads.place? (h : t.Leads t') (hplace : t.place? path = some place) :
    t'.place? path = some place := by
  have hstart : t'.start path = t.start path := by
    rw [start, start, h.current]
  rw [FileTree.place?] at hplace ⊢
  split_ifs at hplace ⊢
  exact h.walk (hstart ▸ hplace)

structure Grows (t t' : FileTree) : Prop where
  current : t'.current = t.current
  find? : ∀ place entry, t.find? place = some entry → t'.find? place = some entry

theorem Grows.refl (t : FileTree) : t.Grows t := ⟨rfl, fun _ _ h => h⟩

theorem Grows.trans {t'' : FileTree} (h : t.Grows t') (h' : t'.Grows t'') : t.Grows t'' :=
  ⟨h'.current.trans h.current, fun place entry hfind => h'.find? _ _ (h.find? place entry hfind)⟩

theorem Grows.leads (h : t.Grows t') : t.Leads t' := ⟨h.current, fun place => h.find? place _⟩

theorem Grows.found? (h : t.Grows t') (hentry : t.found? path = some entry) :
    t'.found? path = some entry := by
  obtain ⟨place, hplace, hfind⟩ := Option.bind_eq_some_iff.1 hentry
  exact Option.bind_eq_some_iff.2 ⟨place, h.leads.place? hplace, h.find? place entry hfind⟩

theorem grows_put (h : t.find? place = none) : t.Grows (t.put place entry) := by
  refine ⟨rfl, fun place' entry' hfind => ?_⟩
  by_cases hplace : place' = place
  · rw [hplace, h] at hfind
    cases hfind
  · rw [find?_put_ne hplace, hfind]

theorem grows_makeAlong (t : FileTree) (place parts : List String) :
    t.Grows (t.makeAlong place parts).2 := by
  induction parts generalizing t place with
  | nil => exact .refl t
  | cons part rest ih =>
    rw [makeAlong]
    split_ifs
    · exact ih t place
    · exact ih t place.dropLast
    · exact .refl t
    · dsimp only
      cases hfind : t.find? (place ++ [part]) with
      | none => exact (grows_put hfind).trans (ih _ _)
      | some entry =>
        cases entry with
        | directory => exact ih t _
        | text | sink => exact .refl t

theorem grows_makeDirectory (t : FileTree) (path : String) : t.Grows (t.makeDirectory path).2 := by
  rw [makeDirectory]
  split_ifs
  · exact .refl t
  · exact grows_makeAlong t _ _
  · exact .refl t

def prepare (path : String) (t : FileTree) : Bool × FileTree :=
  match Path.parent? path with
  | some directory => if directory.isEmpty then (true, t) else t.makeDirectory directory
  | none => (true, t)

theorem grows_prepare (t : FileTree) (path : String) : t.Grows (t.prepare path).2 := by
  rw [prepare]
  split
  · split_ifs
    · exact .refl t
    · exact grows_makeDirectory t _
  · exact .refl t

theorem found?_write (hdevice : t.found? path ≠ some .sink) (h : t.write path text = (true, t')) :
    t'.found? path = some (.text text) := by
  have hput {place : List String} (hplace : t.place? path = some place)
      (hfile : t.find? place ≠ some .directory) :
      (t.put place (.text text)).found? path = some (.text text) := by
    have hne : place ≠ [] := by
      rintro rfl
      exact hfile rfl
    have hleads : t.Leads (t.put place (.text text)) := by
      refine ⟨rfl, fun place' hdirectory => ?_⟩
      rwa [find?_put_ne fun heq : place' = place => hfile (heq ▸ hdirectory)]
    exact Option.bind_eq_some_iff.2 ⟨place, hleads.place? hplace, find?_put_self hne⟩
  rw [write] at h
  cases hplace : t.place? path with
  | none =>
    rw [hplace] at h
    cases h
  | some place =>
    rw [hplace] at h
    dsimp only at h
    cases hfind : t.find? place with
    | none =>
      rw [hfind] at h
      cases h
      exact hput hplace (hfind ▸ nofun)
    | some entry =>
      rw [hfind] at h
      cases entry with
      | directory => cases h
      | sink => exact absurd (Option.bind_eq_some_iff.2 ⟨place, hplace, hfind⟩) hdevice
      | text =>
        cases h
        exact hput hplace (hfind ▸ nofun)

end NetSettle.FileTree
