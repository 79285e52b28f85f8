import NativeGlue.Proofs.Storage.Directory

/-!
# Directories that are made

Making a directory, with those on the way to it, puts directories where there
was nothing and leaves all else as it was, also where it fails on the way. A
directory that was made is found by its path, and is not made once more.
-/

namespace NativeGlue
namespace FileSystem

open NativeGlue.Path

variable {fs fs' fs'' : FileSystem} {path : String} {place : Location}

section Additions

/-- What differs is a directory where there was nothing. -/
def AddsDirectories (fs fs' : FileSystem) : Prop :=
  ∀ l, fs'.node? l = fs.node? l ∨
    fs.node? l = none ∧ fs'.node? l = some .directory

theorem AddsDirectories.refl (fs : FileSystem) : fs.AddsDirectories fs :=
  fun _ => .inl rfl

theorem AddsDirectories.trans (first : fs.AddsDirectories fs')
    (second : fs'.AddsDirectories fs'') : fs.AddsDirectories fs'' := by
  intro l
  rcases second l with same | ⟨free, made⟩
  · rw [same]
    exact first l
  · rcases first l with same | ⟨-, made'⟩
    · exact .inr ⟨same ▸ free, made⟩
    · rw [made'] at free
      cases free

theorem not_isFixed_of_node?_eq_none (free : fs.node? place = none) :
    isFixed place = false := by
  rw [node?] at free
  split_ifs at free with fixed
  simpa using fixed

theorem addsDirectories_put (free : fs.node? place = none) :
    fs.AddsDirectories (fs.put place .directory) := by
  intro l
  by_cases same : l = place
  · subst same
    exact .inr ⟨free, node?_put_self (not_isFixed_of_node?_eq_none free)⟩
  · exact .inl (node?_put_of_ne same)

theorem AddsDirectories.keeps (adds : fs.AddsDirectories fs') :
    fs.KeepsDirectories fs' := by
  intro l directory
  rcases adds l with same | ⟨free, -⟩
  · rw [same, directory]
  · rw [directory] at free
    cases free

/-- The files are the same where only directories are added. -/
theorem AddsDirectories.node?_eq_file_iff (adds : fs.AddsDirectories fs')
    {l : Location} {bytes : List UInt8} :
    fs'.node? l = some (.file bytes) ↔ fs.node? l = some (.file bytes) := by
  rcases adds l with same | ⟨free, made⟩
  · rw [same]
  · simp [free, made]

end Additions

section Making

theorem exists_of_makeDir_eq_ok (made : fs.makeDir path = .ok fs') :
    ∃ place name, fs.Holds path name place ∧ isTooLong name = false ∧
      fs.node? (place ++ [name]) = none ∧
        fs' = fs.put (place ++ [name]) .directory := by
  rw [makeDir] at made
  split at made
  · cases made
  · rename_i place name held
    split_ifs at made with step long
    split at made
    · cases made
    · rename_i free
      cases made
      exact ⟨place, name, holds_of_holder_eq_ok held (by simpa using step),
        by simpa using long, free, rfl⟩

theorem ensureDir_eq_ok (ensured : fs.ensureDir path = .ok fs') :
    fs.makeDir path = .ok fs' ∨ fs' = fs ∧ fs.isDirectory path = true := by
  rw [ensureDir] at ensured
  split at ensured
  · rename_i made
    exact .inl (ensured ▸ made)
  · split_ifs at ensured with directory
    cases ensured
    exact .inr ⟨rfl, directory⟩

theorem addsDirectories_of_ensureDir (ensured : fs.ensureDir path = .ok fs') :
    fs.AddsDirectories fs' := by
  rcases ensureDir_eq_ok ensured with made | ⟨rfl, -⟩
  · obtain ⟨place, name, -, -, free, rfl⟩ := exists_of_makeDir_eq_ok made
    exact addsDirectories_put free
  · exact .refl fs'

/-- A directory that is made, or found, is where its path leads. -/
theorem exists_leadsTo_of_ensureDir (ensured : fs.ensureDir path = .ok fs') :
    ∃ place, fs'.LeadsTo path place := by
  have adds := addsDirectories_of_ensureDir ensured
  rcases ensureDir_eq_ok ensured with made | ⟨rfl, directory⟩
  · obtain ⟨place, name, holds, short, free, rfl⟩ :=
      exists_of_makeDir_eq_ok made
    exact ⟨_, (adds.keeps.holds holds).locate short,
      node?_put_self (not_isFixed_of_node?_eq_none free)⟩
  · exact isDirectory_iff.mp directory

theorem ensureDir_of_leadsTo (leads : fs.LeadsTo path place) :
    fs.ensureDir path = .ok fs := by
  rw [ensureDir]
  split
  · rename_i made
    -- What is made stands at a place of its own, and the path leads there.
    obtain ⟨place', name, holds, short, free, -⟩ :=
      exists_of_makeDir_eq_ok made
    have same := (holds.locate short).symm.trans leads.located
    cases same
    rw [leads.directory] at free
    cases free
  · rw [if_pos (isDirectory_iff.mpr ⟨place, leads⟩)]

end Making

section Ways

theorem addsDirectories_makeEach (fs : FileSystem) (paths : List String) :
    fs.AddsDirectories (fs.makeEach paths).1 := by
  induction paths generalizing fs with
  | nil => exact .refl fs
  | cons path above ih =>
      rw [makeEach]
      split
      · rename_i ensured
        exact addsDirectories_of_ensureDir ensured
      · have adds := ih fs
        split
        · rename_i eq
          exact eq ▸ adds
        · rename_i fs' eq
          rw [eq] at adds
          split
          · rename_i ensured
            exact adds.trans (addsDirectories_of_ensureDir ensured)
          · exact adds
      · exact .refl fs

theorem exists_of_makeEach_cons {above : List String}
    (made : fs.makeEach (path :: above) = (fs', .ok ())) :
    ∃ next, FileSystem.ensureDir next path = .ok fs' := by
  rw [makeEach] at made
  split at made
  · rename_i ensured
    cases made
    exact ⟨fs, ensured⟩
  · split at made
    · cases made
    · rename_i next _
      split at made
      · rename_i ensured
        cases made
        exact ⟨next, ensured⟩
      · cases made
  · cases made

theorem exists_ancestors_eq_cons (long : path ≠ "") :
    ∃ above, ancestors path = path :: above := by
  obtain ⟨n, size⟩ := Nat.exists_eq_succ_of_ne_zero
    (show path.length ≠ 0 by simpa using long)
  rw [ancestors, size, ancestorsUpTo, if_neg (by simpa using long)]
  split
  · exact ⟨[], rfl⟩
  · exact ⟨_, rfl⟩

theorem exists_leadsTo_of_makeDirs (long : path ≠ "")
    (made : fs.makeDirs path = (fs', .ok ())) :
    ∃ place, fs'.LeadsTo path place := by
  obtain ⟨above, eq⟩ := exists_ancestors_eq_cons long
  rw [makeDirs, eq] at made
  obtain ⟨next, ensured⟩ := exists_of_makeEach_cons made
  exact exists_leadsTo_of_ensureDir ensured

theorem LeadsTo.ne_empty (leads : fs.LeadsTo path place) : path ≠ "" := by
  rintro rfl
  cases leads.located

/-- A directory that is there is not made once more. -/
theorem makeDirs_of_leadsTo (leads : fs.LeadsTo path place) :
    fs.makeDirs path = (fs, .ok ()) := by
  obtain ⟨above, eq⟩ := exists_ancestors_eq_cons leads.ne_empty
  rw [makeDirs, eq, makeEach, ensureDir_of_leadsTo leads]

end Ways

end FileSystem
end NativeGlue
