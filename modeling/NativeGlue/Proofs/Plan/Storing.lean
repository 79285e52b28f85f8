import NativeGlue.Plan.Output
import NativeGlue.Proofs.Storage.Listing
import NativeGlue.Proofs.Storage.Making

/-!
# Writing a plan stores its files

Writing goes through the files of a plan one after another. Each step stores
one file, or finds it stored, and keeps what stands at other places; what is
removed at the end has the name of no file. So if the names are pairwise
distinct, every file is there when the writing is done. The order does matter
where they are not: of two files with one name the first is lost.
-/

namespace NativeGlue
namespace Plan

open FileSystem NativeGlue.Path

variable {fs fs' : FileSystem} {dir : String} {place : Location}
variable {artifacts : List Artifact}

/-- A file of a plan is in a directory, with its contents. -/
def Stores (fs : FileSystem) (dir : String) (a : Artifact) : Prop :=
  fs.read (join dir a.fileName) = .ok (Text.utf8 a.contents)

/-- Whether a file of a plan stands in the directory at a place. -/
def isStored (fs : FileSystem) (place : Location) (a : Artifact) : Bool :=
  fs.node? (place ++ [a.fileName]) = some (.file (Text.utf8 a.contents))

theorem isStored_iff {a : Artifact} :
    isStored fs place a = true ↔
      fs.node? (place ++ [a.fileName]) =
        some (.file (Text.utf8 a.contents)) := by
  rw [isStored, decide_eq_true_iff]

/-- Files are put at a place, and nothing else changes. -/
structure Puts (dir : String) (place : Location) (fs fs' : FileSystem)
    (artifacts : List Artifact) : Prop where
  reaches : ∀ a ∈ artifacts, fs'.Reaches dir a.fileName place
  keeps : fs.KeepsDirectories fs'
  stored : ∀ a ∈ artifacts, isStored fs' place a = true
  others : ∀ l, (∀ a ∈ artifacts, l ≠ place ++ [a.fileName]) →
    fs'.node? l = fs.node? l

section Steps

theorem writeIfChanged_eq_ok {path : String} {bytes : List UInt8}
    {changed : Bool}
    (written : writeIfChanged fs path bytes = .ok (changed, fs')) :
    changed = false ∧ fs' = fs ∧ fs.read path = .ok bytes ∨
      changed = true ∧ fs.read path ≠ .ok bytes ∧
        fs.write path bytes = .ok fs' := by
  have of_map : (fs.write path bytes).map (fun fs => (true, fs)) =
      .ok (changed, fs') → changed = true ∧ fs.write path bytes = .ok fs' := by
    intro mapped
    cases wrote : fs.write path bytes with
    | error kind =>
        rw [wrote] at mapped
        cases mapped
    | ok next =>
        rw [wrote] at mapped
        cases mapped
        exact ⟨rfl, rfl⟩
  rw [writeIfChanged] at written
  split at written
  · rename_i found eq
    split_ifs at written with same
    · cases written
      exact .inl ⟨rfl, rfl, same ▸ eq⟩
    · obtain ⟨changed, wrote⟩ := of_map written
      refine .inr ⟨changed, ?_, wrote⟩
      simpa [eq] using same
  · rename_i eq
    obtain ⟨changed, wrote⟩ := of_map written
    exact .inr ⟨changed, by simp [eq], wrote⟩

theorem writeIfChanged_of_read {path : String} {bytes : List UInt8}
    (found : fs.read path = .ok bytes) :
    writeIfChanged fs path bytes = .ok (false, fs) := by
  simp [writeIfChanged, found]

/-- A step puts its file, unless that is stored. -/
theorem puts_of_writeIfChanged {a : Artifact} (plain : IsName a.fileName)
    (leads : fs.LeadsTo dir place) {changed : Bool}
    (written : writeIfChanged fs (join dir a.fileName) (Text.utf8 a.contents) =
      .ok (changed, fs')) :
    Puts dir place fs fs' [a] ∧ changed = !isStored fs place a := by
  rcases writeIfChanged_eq_ok written with
    ⟨rfl, rfl, found⟩ | ⟨rfl, missing, wrote⟩
  · obtain ⟨other, reaches, node⟩ := (read_join_eq_ok_iff plain).mp found
    obtain rfl := reaches.eq_of_leadsTo leads
    have stored := isStored_iff.mpr node
    exact ⟨⟨by simpa using reaches, fun _ directory => directory,
      by simpa using stored, fun _ _ => rfl⟩, by rw [stored]; rfl⟩
  · obtain ⟨other, reaches, taken, rfl⟩ := exists_of_write_join plain wrote
    obtain rfl := reaches.eq_of_leadsTo leads
    have keeps : fs.KeepsDirectories (fs.put (other ++ [a.fileName])
        (.file (Text.utf8 a.contents))) :=
      keepsDirectories_of_others taken fun _ => node?_put_of_ne
    have fresh : isStored fs other a = false := by
      rw [Bool.eq_false_iff, Ne, isStored_iff]
      intro node
      exact missing ((read_join_eq_ok_iff plain).mpr ⟨_, reaches, node⟩)
    refine ⟨⟨by simpa using keeps.reaches reaches, keeps, ?_, ?_⟩, ?_⟩
    · simpa [isStored_iff] using
        node?_put_self (isFixed_append_name plain other)
    · intro l ne
      exact node?_put_of_ne (ne a (List.mem_singleton_self a))
    · rw [fresh]
      rfl

end Steps

section Runs

theorem Puts.cons {next : FileSystem} {a : Artifact}
    (first : Puts dir place fs next [a]) (rest : Puts dir place next fs' artifacts)
    (free : a.fileName ∉ artifacts.map Artifact.fileName) :
    Puts dir place fs fs' (a :: artifacts) where
  reaches := by
    rw [List.forall_mem_cons]
    exact ⟨rest.keeps.reaches (first.reaches a (List.mem_singleton_self a)),
      rest.reaches⟩
  keeps := first.keeps.trans rest.keeps
  stored := by
    rw [List.forall_mem_cons]
    refine ⟨?_, rest.stored⟩
    -- The first file is stored at once, and no later one has its name.
    have kept : fs'.node? (place ++ [a.fileName]) =
        next.node? (place ++ [a.fileName]) := by
      refine rest.others _ fun b member => append_name_ne ?_ place place
      exact fun same => free (same ▸ List.mem_map_of_mem member)
    rw [isStored_iff, kept]
    exact isStored_iff.mp (first.stored a (List.mem_singleton_self a))
  others := by
    intro l ne
    rw [List.forall_mem_cons] at ne
    rw [rest.others l ne.2, first.others l (by simpa using ne.1)]

/-- The summary with one file more that was written, or found. -/
def noted (done : OutputSummary) (name : String) : Bool → OutputSummary
  | true => { done with written := done.written ++ [name] }
  | false => { done with unchanged := done.unchanged ++ [name] }

theorem writeArtifacts_cons {done done' : OutputSummary} {a : Artifact}
    (written : writeArtifacts dir fs done (a :: artifacts) =
      (fs', .ok done')) :
    ∃ changed next,
      writeIfChanged fs (join dir a.fileName) (Text.utf8 a.contents) =
          .ok (changed, next) ∧
        writeArtifacts dir next (noted done a.fileName changed) artifacts =
          (fs', .ok done') := by
  dsimp only [writeArtifacts] at written
  cases step : writeIfChanged fs (join dir a.fileName)
      (Text.utf8 a.contents) with
  | error kind =>
      rw [step] at written
      cases written
  | ok result =>
      obtain ⟨changed, next⟩ := result
      rw [step] at written
      cases changed <;> exact ⟨_, _, rfl, written⟩

/-- The names of the files of which something holds, in their order. -/
def namesWhere (holds : Artifact → Bool) (artifacts : List Artifact) :
    List String :=
  (artifacts.filter holds).map Artifact.fileName

/-- A run puts all files, and tells which of them were stored before. -/
theorem puts_of_writeArtifacts {done done' : OutputSummary}
    (plain : ∀ a ∈ artifacts, IsName a.fileName)
    (once : (artifacts.map Artifact.fileName).Nodup)
    (leads : fs.LeadsTo dir place)
    (written : writeArtifacts dir fs done artifacts = (fs', .ok done')) :
    Puts dir place fs fs' artifacts ∧
      done' = { done with
        written := done.written ++
          namesWhere (fun a => !isStored fs place a) artifacts
        unchanged := done.unchanged ++
          namesWhere (isStored fs place) artifacts } := by
  induction artifacts generalizing fs done with
  | nil =>
      cases written
      exact ⟨⟨nofun, fun _ directory => directory, nofun, fun _ _ => rfl⟩,
        by simp [namesWhere]⟩
  | cons a rest ih =>
      obtain ⟨changed, next, step, written⟩ := writeArtifacts_cons written
      rw [List.map_cons, List.nodup_cons] at once
      rw [List.forall_mem_cons] at plain
      obtain ⟨first, rfl⟩ := puts_of_writeIfChanged plain.1 leads step
      obtain ⟨others, rfl⟩ :=
        ih plain.2 once.2 (first.keeps.leadsTo leads) written
      refine ⟨first.cons others once.1, ?_⟩
      -- What the first step does is not to the place of a later file.
      have same : ∀ b ∈ rest, isStored next place b = isStored fs place b := by
        intro b member
        have ne : b.fileName ≠ a.fileName := fun same =>
          once.1 (same ▸ List.mem_map_of_mem member)
        rw [isStored, isStored, first.others]
        simpa using ne
      have found : namesWhere (isStored next place) rest =
          namesWhere (isStored fs place) rest := by
        rw [namesWhere, List.filter_congr same, namesWhere]
      have missing : namesWhere (fun b => !isStored next place b) rest =
          namesWhere (fun b => !isStored fs place b) rest := by
        rw [namesWhere, List.filter_congr fun b member =>
          congrArg (!·) (same b member), namesWhere]
      rw [found, missing]
      cases stored : isStored fs place a <;> simp [noted, namesWhere, stored]

/-- Files that are stored are found, one after another. -/
theorem writeArtifacts_of_stores (done : OutputSummary)
    (stores : ∀ a ∈ artifacts, Stores fs dir a) :
    writeArtifacts dir fs done artifacts =
      (fs, .ok { done with
        unchanged := done.unchanged ++ artifacts.map Artifact.fileName }) := by
  induction artifacts generalizing done with
  | nil =>
      rw [List.map_nil, List.append_nil]
      rfl
  | cons a rest ih =>
      rw [List.forall_mem_cons] at stores
      have found : fs.read (join dir a.fileName) =
        .ok (Text.utf8 a.contents) := stores.1
      dsimp only [writeArtifacts]
      rw [writeIfChanged_of_read found]
      dsimp only
      rw [ih _ stores.2, List.map_cons, List.append_assoc]
      rfl

end Runs

section Removal

/-- Names are removed from a place, and nothing else changes. -/
structure Removes (place : Location) (fs fs' : FileSystem)
    (names : List String) : Prop where
  gone : ∀ n ∈ names, fs'.node? (place ++ [n]) = none
  others : ∀ l, (∀ n ∈ names, l ≠ place ++ [n]) → fs'.node? l = fs.node? l

theorem removes_of_removeUnits {names : List String}
    (free : ∀ n ∈ names, isFixed (place ++ [n]) = false)
    (removed : removeUnits dir place fs names = (fs', .ok ())) :
    Removes place fs fs' names := by
  induction names generalizing fs with
  | nil =>
      cases removed
      exact ⟨nofun, fun _ _ => rfl⟩
  | cons n names ih =>
      dsimp only [removeUnits] at removed
      split at removed
      · cases removed
      · rw [List.forall_mem_cons] at free
        have rest := ih free.2 removed
        refine ⟨?_, fun l ne => ?_⟩
        · rw [List.forall_mem_cons]
          refine ⟨?_, rest.gone⟩
          by_cases again : n ∈ names
          · exact rest.gone n again
          · rw [rest.others, node?_erase_self free.1]
            refine fun m member => append_name_ne ?_ place place
            exact fun same => again (same ▸ member)
        · rw [List.forall_mem_cons] at ne
          rw [rest.others l ne.2, node?_erase_of_ne ne.1]

/-- A unit in a directory that no file of a plan is. -/
structure IsStale (fs : FileSystem) (place : Location)
    (artifacts : List Artifact) (name : String) : Prop where
  ending : Text.hasEnding unitEnding name = true
  unplanned : ∀ a ∈ artifacts, a.fileName ≠ name
  file : ∃ bytes, fs.node? (place ++ [name]) = some (.file bytes)

theorem ne_root_of_ending {name : String}
    (ending : Text.hasEnding unitEnding name = true) : name ≠ "/" := by
  rintro rfl
  revert ending
  decide

theorem ne_up_of_ending {name : String}
    (ending : Text.hasEnding unitEnding name = true) : name ≠ ".." := by
  rintro rfl
  revert ending
  decide

theorem mem_staleUnits_iff {name : String} :
    name ∈ staleUnits fs place artifacts ↔
      IsStale fs place artifacts name := by
  have listed : ∀ ending : Text.hasEnding unitEnding name = true,
      name ∈ fs.filesIn place ↔
        ∃ bytes, fs.node? (place ++ [name]) = some (.file bytes) :=
    fun ending =>
      mem_filesIn_iff (ne_root_of_ending ending) (ne_up_of_ending ending)
  simp only [staleUnits, List.mem_filter, Bool.and_eq_true,
    Bool.not_eq_true', List.any_eq_false, decide_eq_true_eq]
  constructor
  · rintro ⟨member, ending, unplanned⟩
    exact ⟨ending, unplanned, (listed ending).mp member⟩
  · rintro ⟨ending, unplanned, file⟩
    exact ⟨(listed ending).mpr file, ending, unplanned⟩

theorem removes_of_removeStale {stale : List String}
    (leads : fs.LeadsTo dir place)
    (removed : removeStale fs dir artifacts = (fs', .ok stale)) :
    stale = staleUnits fs place artifacts ∧ Removes place fs fs' stale := by
  dsimp only [removeStale] at removed
  rw [leads.located] at removed
  dsimp only at removed
  split at removed
  · cases removed
  · rename_i done
    cases removed
    refine ⟨rfl, removes_of_removeUnits (fun n member => ?_) done⟩
    have ending := (mem_staleUnits_iff.mp member).ending
    exact isFixed_concat (ne_root_of_ending ending) (ne_up_of_ending ending) _

/-- There is nothing that the empty path leads to. -/
theorem ne_empty_of_removeStale {stale : List String}
    (removed : removeStale fs dir artifacts = (fs', .ok stale)) :
    dir ≠ "" := by
  rintro rfl
  cases removed

theorem keepsDirectories_of_removes
    (removes : Removes place fs fs' (staleUnits fs place artifacts)) :
    fs.KeepsDirectories fs' := by
  intro l directory
  rw [removes.others l, directory]
  rintro n member rfl
  obtain ⟨bytes, file⟩ := (mem_staleUnits_iff.mp member).file
  rw [directory] at file
  cases file

end Removal

section Whole

/-- The stages that a plan goes through when it is written. -/
structure Stages (fs : FileSystem) (dir : String) (artifacts : List Artifact)
    (fs' : FileSystem) (done : OutputSummary) (made stored : FileSystem)
    (place : Location) : Prop where
  adds : fs.AddsDirectories made
  leads : made.LeadsTo dir place
  puts : Puts dir place made stored artifacts
  removes : Removes place stored fs' (staleUnits stored place artifacts)
  written : done.written =
    namesWhere (fun a => !isStored made place a) artifacts
  unchanged : done.unchanged = namesWhere (isStored made place) artifacts
  removed : done.removed = staleUnits stored place artifacts

theorem exists_stages_of_write {config : Config} {plan : Plan}
    {report : Report} (silent : config.report = none)
    (plain : ∀ a ∈ plan.artifacts, IsName a.fileName)
    (once : (plan.artifacts.map Artifact.fileName).Nodup)
    (written : plan.write fs config = (fs', .ok report)) :
    (∃ made stored place, Stages fs config.outputDir plan.artifacts fs'
        report.output made stored place) ∧
      report = { plan.report with output := report.output } := by
  dsimp only [write] at written
  split at written
  · cases written
  · rename_i made eq
    split at written
    · cases written
    · rename_i stored done wrote
      split at written
      · cases written
      · rename_i removed
        rw [silent] at written
        cases written
        have long := ne_empty_of_removeStale removed
        obtain ⟨place, leads⟩ := exists_leadsTo_of_makeDirs long eq
        have adds := addsDirectories_makeEach fs (ancestors config.outputDir)
        rw [← makeDirs, eq] at adds
        obtain ⟨puts, rfl⟩ := puts_of_writeArtifacts plain once leads wrote
        obtain ⟨rfl, removes⟩ :=
          removes_of_removeStale (puts.keeps.leadsTo leads) removed
        exact ⟨⟨made, stored, place, adds, leads, puts, removes, rfl, rfl, rfl⟩,
          rfl⟩

variable {done : OutputSummary} {made stored : FileSystem}

/-- What is removed is no file of the plan. -/
theorem Stages.isStored
    (stages : Stages fs dir artifacts fs' done made stored place) :
    ∀ a ∈ artifacts, isStored fs' place a = true := by
  intro a member
  have kept : fs'.node? (place ++ [a.fileName]) =
      stored.node? (place ++ [a.fileName]) := by
    refine stages.removes.others _ fun name stale =>
      append_name_ne ?_ place place
    exact (mem_staleUnits_iff.mp stale).unplanned a member
  rw [isStored_iff, kept]
  exact isStored_iff.mp (stages.puts.stored a member)

theorem Stages.stores
    (stages : Stages fs dir artifacts fs' done made stored place)
    (plain : ∀ a ∈ artifacts, IsName a.fileName) :
    ∀ a ∈ artifacts, Stores fs' dir a := by
  intro a member
  have reaches := (keepsDirectories_of_removes stages.removes).reaches
    (stages.puts.reaches a member)
  exact (read_join_eq_ok_iff (plain a member)).mpr
    ⟨place, reaches, isStored_iff.mp (stages.isStored a member)⟩

/-- Writing a plan whose files have names of their own stores all of them. -/
theorem stores_of_write {config : Config} {plan : Plan} {report : Report}
    (silent : config.report = none)
    (plain : ∀ a ∈ plan.artifacts, IsName a.fileName)
    (once : (plan.artifacts.map Artifact.fileName).Nodup)
    (written : plan.write fs config = (fs', .ok report)) :
    ∀ a ∈ plan.artifacts, Stores fs' config.outputDir a := by
  obtain ⟨⟨_, _, _, stages⟩, -⟩ :=
    exists_stages_of_write silent plain once written
  exact stages.stores plain

end Whole

end Plan
end NativeGlue
