import NativeGlue.Proofs.Plan.Storing

/-!
# Writing a plan twice

After a plan is written, its output directory has the files of the plan and no
other units, and all else is as it was. So there is nothing left to do: writing
the plan once more finds every file and changes nothing.
-/

namespace NativeGlue
namespace Plan

open FileSystem NativeGlue.Path

variable {fs fs' made stored : FileSystem} {dir : String} {place : Location}
variable {artifacts : List Artifact} {done : OutputSummary}

/-- What the files of a plan make of the directory at a place. -/
structure Mirrors (fs fs' : FileSystem) (place : Location)
    (artifacts : List Artifact) (done : OutputSummary) : Prop where
  stored : ∀ a ∈ artifacts, fs'.node? (place ++ [a.fileName]) =
    some (.file (Text.utf8 a.contents))
  gone : ∀ name, IsStale fs place artifacts name →
    fs'.node? (place ++ [name]) = none
  kept : ∀ l node, fs.node? l = some node →
    (∀ a ∈ artifacts, l ≠ place ++ [a.fileName]) →
    (∀ name, IsStale fs place artifacts name → l ≠ place ++ [name]) →
      fs'.node? l = some node
  /-- Only directories are new, besides the files of the plan. -/
  made : ∀ l, fs.node? l = none →
    (∀ a ∈ artifacts, l ≠ place ++ [a.fileName]) →
      fs'.node? l = none ∨ fs'.node? l = some .directory
  removed : ∀ name, name ∈ done.removed ↔ IsStale fs place artifacts name
  sorted : done.removed.Pairwise fun a b => Text.le a b = true ∧ a ≠ b
  unchanged : done.unchanged = namesWhere (isStored fs place) artifacts
  written : done.written = namesWhere (fun a => !isStored fs place a) artifacts

section Stages

theorem isStored_of_addsDirectories (adds : fs.AddsDirectories made) :
    isStored made place = isStored fs place := by
  funext a
  simp only [isStored, adds.node?_eq_file_iff]

/-- Neither new directories nor the files of a plan make a unit stale. -/
theorem isStale_stored_iff (adds : fs.AddsDirectories made)
    (puts : Puts dir place made stored artifacts) {name : String} :
    IsStale stored place artifacts name ↔ IsStale fs place artifacts name := by
  have same : ∀ unplanned : ∀ a ∈ artifacts, a.fileName ≠ name,
      ∀ bytes, stored.node? (place ++ [name]) = some (.file bytes) ↔
        fs.node? (place ++ [name]) = some (.file bytes) := by
    intro unplanned bytes
    rw [puts.others, adds.node?_eq_file_iff]
    exact fun a member => append_name_ne (unplanned a member).symm place place
  constructor
  · rintro ⟨ending, unplanned, bytes, file⟩
    exact ⟨ending, unplanned, bytes, (same unplanned bytes).mp file⟩
  · rintro ⟨ending, unplanned, bytes, file⟩
    exact ⟨ending, unplanned, bytes, (same unplanned bytes).mpr file⟩

theorem Stages.mem_removed_iff
    (stages : Stages fs dir artifacts fs' done made stored place)
    {name : String} :
    name ∈ done.removed ↔ IsStale fs place artifacts name := by
  rw [stages.removed, mem_staleUnits_iff,
    isStale_stored_iff stages.adds stages.puts]

theorem Stages.node?_of_others
    (stages : Stages fs dir artifacts fs' done made stored place)
    {l : Location} (unplanned : ∀ a ∈ artifacts, l ≠ place ++ [a.fileName])
    (fresh : ∀ name, IsStale fs place artifacts name → l ≠ place ++ [name]) :
    fs'.node? l = made.node? l := by
  rw [stages.removes.others, stages.puts.others l unplanned]
  intro name member
  rw [← stages.removed, stages.mem_removed_iff] at member
  exact fresh name member

theorem Stages.mirrors
    (stages : Stages fs dir artifacts fs' done made stored place) :
    Mirrors fs fs' place artifacts done where
  stored a member := isStored_iff.mp (stages.isStored a member)
  gone name stale := by
    rw [← stages.mem_removed_iff, stages.removed] at stale
    exact stages.removes.gone name stale
  kept l node before unplanned fresh := by
    rw [stages.node?_of_others unplanned fresh]
    rcases stages.adds l with same | ⟨free, -⟩
    · rw [same, before]
    · rw [before] at free
      cases free
  made l free unplanned := by
    rw [stages.node?_of_others unplanned]
    · exact (stages.adds l).imp (Eq.trans · free) And.right
    · rintro name ⟨-, -, bytes, file⟩ rfl
      rw [free] at file
      cases file
  removed name := stages.mem_removed_iff
  sorted := by
    rw [stages.removed]
    exact (pairwise_filesIn stored place).filter _
  unchanged := by
    rw [stages.unchanged, isStored_of_addsDirectories stages.adds]
  written := by
    rw [stages.written, isStored_of_addsDirectories stages.adds]

theorem Stages.leadsTo
    (stages : Stages fs dir artifacts fs' done made stored place) :
    fs'.LeadsTo dir place :=
  ((stages.puts.keeps.trans
    (keepsDirectories_of_removes stages.removes)).leadsTo stages.leads)

/-- No unit is left to be removed. -/
theorem Stages.staleUnits_eq_nil
    (stages : Stages fs dir artifacts fs' done made stored place) :
    staleUnits fs' place artifacts = [] := by
  refine List.eq_nil_iff_forall_not_mem.mpr fun name member => ?_
  obtain ⟨ending, unplanned, bytes, file⟩ := mem_staleUnits_iff.mp member
  by_cases listed : name ∈ staleUnits stored place artifacts
  · rw [stages.removes.gone name listed] at file
    cases file
  · refine listed (mem_staleUnits_iff.mpr ⟨ending, unplanned, bytes, ?_⟩)
    rw [← file, stages.removes.others]
    refine fun other stale => append_name_ne ?_ place place
    exact fun same => listed (same ▸ stale)

end Stages

/-- There is nothing to do where a plan has been written. -/
theorem write_of_stores {config : Config} {plan : Plan}
    (silent : config.report = none)
    (leads : fs.LeadsTo config.outputDir place)
    (stores : ∀ a ∈ plan.artifacts, Stores fs config.outputDir a)
    (clean : staleUnits fs place plan.artifacts = []) :
    plan.write fs config =
      (fs, .ok { plan.report with output :=
        { unchanged := plan.artifacts.map Artifact.fileName } }) := by
  have found := writeArtifacts_of_stores {} stores
  have left : removeStale fs config.outputDir plan.artifacts =
      (fs, .ok []) := by
    simp only [removeStale, leads.located, clean, removeUnits]
  simp only [write, makeDirs_of_leadsTo leads, found, left, silent]
  rfl

/--
A plan is written where no report is. If its files have plain names of their
own, the output directory mirrors the plan then, wherever its path led before,
and writing the plan again leaves all as it is.
-/
theorem mirrors_of_write {config : Config} {plan : Plan} {report : Report}
    (silent : config.report = none)
    (plain : ∀ a ∈ plan.artifacts, IsName a.fileName)
    (once : (plan.artifacts.map Artifact.fileName).Nodup)
    (written : plan.write fs config = (fs', .ok report)) :
    ∃ place, fs'.LeadsTo config.outputDir place ∧
      (∀ l, fs.locate config.outputDir = .ok l → l = place) ∧
      Mirrors fs fs' place plan.artifacts report.output ∧
      (∀ a ∈ plan.artifacts, Stores fs' config.outputDir a) ∧
      report = { plan.report with output := report.output } ∧
      plan.write fs' config =
        (fs', .ok { plan.report with output :=
          { unchanged := plan.artifacts.map Artifact.fileName } }) := by
  obtain ⟨⟨made, stored, place, stages⟩, same⟩ :=
    exists_stages_of_write silent plain once written
  have stores := stages.stores plain
  refine ⟨place, stages.leadsTo, ?_, stages.mirrors, stores, same, ?_⟩
  · intro l located
    have later := stages.adds.keeps.locate located
    rw [stages.leads.located] at later
    cases later
    rfl
  · exact write_of_stores silent stages.leadsTo stores stages.staleUnits_eq_nil

/-- An output directory with a unit, one of a class that is gone, and notes. -/
def untidyOutput : FileSystem where
  nodes :=
    [(["out"], .directory),
      (["out", "a_A.jni.cpp"], .file (Text.utf8 "// A\n")),
      (["out", "a_B.jni.cpp"], .file (Text.utf8 "// B\n")),
      (["out", "notes.txt"], .file [])]
  distinct := by decide

/-- A plan with a unit and a registration unit. -/
def twoFiles : Plan :=
  { (default : Plan) with
    artifacts :=
      [⟨"a_A.jni.cpp", "// A\n"⟩, ⟨"registration.cpp", "// table\n"⟩] }

theorem write_twoFiles :
    ∃ fs', twoFiles.write untidyOutput { outputDir := "out" } =
      (fs', .ok { twoFiles.report with output :=
        ⟨["registration.cpp"], ["a_A.jni.cpp"], ["a_B.jni.cpp"]⟩ }) := by
  have leads : untidyOutput.LeadsTo "out" ["out"] := ⟨rfl, rfl⟩
  let stored := untidyOutput.put ["out", "registration.cpp"]
    (.file (Text.utf8 "// table\n"))
  have wrote : writeArtifacts "out" untidyOutput {} twoFiles.artifacts =
      (stored, .ok ⟨["registration.cpp"], ["a_A.jni.cpp"], []⟩) := rfl
  have listed : stored.filesIn ["out"] =
      ["a_A.jni.cpp", "a_B.jni.cpp", "notes.txt", "registration.cpp"] := by
    rw [filesIn_eq, below_eq, List.mergeSort_of_pairwise (by decide)]
    rfl
  have stale : staleUnits stored ["out"] twoFiles.artifacts =
      ["a_B.jni.cpp"] := by
    rw [staleUnits, listed]
    rfl
  have located : stored.locate "out" = .ok ["out"] := rfl
  have removed : removeStale stored "out" twoFiles.artifacts =
      (stored.erase ["out", "a_B.jni.cpp"], .ok ["a_B.jni.cpp"]) := by
    simp only [removeStale, located, stale]
    rfl
  refine ⟨stored.erase ["out", "a_B.jni.cpp"], ?_⟩
  simp only [write, makeDirs_of_leadsTo leads, wrote, removed]

theorem mirrors_of_write_twoFiles :
    ∃ fs' report,
      twoFiles.write untidyOutput { outputDir := "out" } = (fs', .ok report) ∧
        report.output =
          ⟨["registration.cpp"], ["a_A.jni.cpp"], ["a_B.jni.cpp"]⟩ ∧
        Mirrors untidyOutput fs' ["out"] twoFiles.artifacts report.output ∧
        twoFiles.write fs' { outputDir := "out" } =
          (fs', .ok { twoFiles.report with output :=
            { unchanged := ["a_A.jni.cpp", "registration.cpp"] } }) := by
  obtain ⟨fs', written⟩ := write_twoFiles
  have plain : ∀ a ∈ twoFiles.artifacts, IsName a.fileName := by
    simp only [twoFiles, List.forall_mem_cons]
    exact ⟨⟨by decide, by decide, by decide⟩,
      ⟨by decide, by decide, by decide⟩, nofun⟩
  obtain ⟨place, -, from_before, mirrors, -, -, again⟩ :=
    mirrors_of_write rfl plain (by decide) written
  obtain rfl := from_before ["out"] rfl
  exact ⟨fs', _, written, rfl, mirrors, again⟩

end Plan
end NativeGlue
