import NativeGlue.Proofs.Plan.Independence
import NativeGlue.Proofs.Plan.Storing
import NativeGlue.Proofs.Symbol.Naming

/-!
# Names of the files of a plan

The files of a plan are the units, the runtime header and the registration
unit. A unit has its name from its class, by mangling, and the two others are
named in the configuration. That a configuration is checked keeps the
registration unit apart from the units of classes, and nothing more: the
runtime header may have the name of either, and two classes may share the name
of their units where a segment starts with a digit.
-/

namespace NativeGlue

namespace Config

theorem isName_of_isPlainFileName {name : String}
    (plain : isPlainFileName name = true) : Path.IsName name := by
  simp only [isPlainFileName, Bool.and_eq_true, decide_eq_true_eq,
    List.all_eq_true] at plain
  obtain ⟨⟨⟨nonempty, chars⟩, dot⟩, dots⟩ := plain
  refine ⟨nonempty, fun slash => (chars '/' slash).1 rfl, ?_⟩
  simp [Path.isStep, dot, dots]

/-- What the checks of a configuration tell of the two names in it. -/
structure NamesChecked (config : Config) : Prop where
  unit : Path.IsName config.registration.unitName
  unitEnding : Text.hasEnding ".jni.cpp" config.registration.unitName = false
  header : Path.IsName config.registration.runtimeHeader

theorem eq_false_of_faultIf {condition : Bool} {field detail : String}
    (passed : faultIf condition field detail = none) : condition = false := by
  cases condition
  · rfl
  · cases passed

theorem namesChecked_of_fault? {config : Config}
    (sound : config.fault? = none) : config.NamesChecked := by
  have passed : ∀ check ∈ config.checks, check = none := by
    simpa [fault?, List.findSome?_eq_none_iff] using sound
  simp only [checks, List.forall_mem_append, List.forall_mem_cons] at passed
  obtain ⟨-, -, plain, ending, header, -⟩ := passed
  have plain := eq_false_of_faultIf plain
  have header := eq_false_of_faultIf header
  simp only [Bool.not_eq_false', Bool.and_eq_true] at plain header
  exact ⟨isName_of_isPlainFileName plain.1, eq_false_of_faultIf ending,
    isName_of_isPlainFileName header⟩

end Config

namespace SourceUnit

theorem toList_fileNameOf (owner : ClassName) :
    (fileNameOf owner).toList =
      Symbol.mangleChars owner.internal.toList ++ ".jni.cpp".toList := by
  rw [fileNameOf, String.toList_append, Symbol.toList_mangle]

theorem hasEnding_fileNameOf (owner : ClassName) :
    Text.hasEnding ".jni.cpp" (fileNameOf owner) = true := by
  rw [Text.hasEnding, toList_fileNameOf, List.isSuffixOf_iff_suffix]
  exact List.suffix_append ..

theorem isName_fileNameOf (owner : ClassName) :
    Path.IsName (fileNameOf owner) := by
  have noStep : ∀ name : String, name.toList.length < 8 →
      fileNameOf owner ≠ name := by
    rintro _ short rfl
    rw [toList_fileNameOf, List.length_append] at short
    exact absurd short (by simp)
  refine ⟨noStep "" (by decide), ?_, ?_⟩
  · rw [toList_fileNameOf, List.mem_append, not_or]
    refine ⟨fun member => ?_, by decide⟩
    cases Symbol.isIdentifierChar_of_mem_mangleChars member
  · simp [Path.isStep, noStep "." (by decide), noStep ".." (by decide)]

/-- Classes with legal names have units of their own. -/
theorem fileNameOf_inj {a b : ClassName} (left : a.Legal) (right : b.Legal)
    (eq : fileNameOf a = fileNameOf b) : a = b := by
  have chars := congrArg String.toList eq
  rw [toList_fileNameOf, toList_fileNameOf] at chars
  have same := Symbol.mangleChars_inj left.readable right.readable
    (List.append_cancel_right chars)
  cases a
  cases b
  exact congrArg ClassName.mk (String.toList_inj.mp same)

end SourceUnit

namespace Plan

section Names

variable (config : Config) (scan : Scan)

/-- The names of the units of a run. -/
def unitNames : List String :=
  (emitted config.naming scan.targets).map fun t =>
    SourceUnit.fileNameOf t.name

theorem map_fileName_planOf :
    (planOf config scan).artifacts.map Artifact.fileName =
      unitNames config scan
        ++ [config.registration.runtimeHeader,
          config.registration.unitName] := by
  rw [artifacts_planOf, List.map_append, List.map_map, unitNames, emitted,
    List.map_map]
  refine congrArg (· ++ _) (List.map_congr_left fun x member => ?_)
  exact congrArg SourceUnit.fileNameOf (name_of_mem_signings member)

variable {config scan}

theorem hasEnding_of_mem_unitNames {name : String}
    (member : name ∈ unitNames config scan) :
    Text.hasEnding unitEnding name = true := by
  obtain ⟨t, -, rfl⟩ := List.mem_map.mp member
  exact SourceUnit.hasEnding_fileNameOf t.name

/-- Each file of a plan can be written into a directory. -/
theorem isName_of_mem_artifacts (checked : config.NamesChecked)
    {a : Artifact} (member : a ∈ (planOf config scan).artifacts) :
    Path.IsName a.fileName := by
  have named : a.fileName ∈ unitNames config scan
      ++ [config.registration.runtimeHeader,
        config.registration.unitName] := by
    rw [← map_fileName_planOf]
    exact List.mem_map_of_mem member
  simp only [List.mem_append, List.mem_cons, List.not_mem_nil,
    or_false] at named
  rcases named with made | header | unit
  · obtain ⟨t, -, eq⟩ := List.mem_map.mp made
    rw [← eq]
    exact SourceUnit.isName_fileNameOf t.name
  · rw [header]
    exact checked.header
  · rw [unit]
    exact checked.unit

theorem nodup_unitNames (names : (scan.targets.map Target.name).Nodup)
    (legal : ∀ t ∈ scan.targets, t.name.Legal) :
    (unitNames config scan).Nodup := by
  have sublist := emitted_sublist config.naming scan.targets
  have once : ((emitted config.naming scan.targets).map Target.name).Nodup :=
    (sublist.map Target.name).nodup names
  rw [unitNames, ← Function.comp_def SourceUnit.fileNameOf, ← List.map_map]
  refine once.map_on fun a left b right eq => ?_
  obtain ⟨s, inside, rfl⟩ := List.mem_map.mp left
  obtain ⟨t, within, rfl⟩ := List.mem_map.mp right
  exact SourceUnit.fileNameOf_inj (legal s (sublist.subset inside))
    (legal t (sublist.subset within)) eq

/-- The registration unit is never one of the units of classes. -/
theorem nodup_fileNames_planOf_iff (checked : config.NamesChecked) :
    ((planOf config scan).artifacts.map Artifact.fileName).Nodup ↔
      (unitNames config scan).Nodup ∧
        config.registration.runtimeHeader ∉ unitNames config scan ∧
        config.registration.runtimeHeader ≠ config.registration.unitName := by
  have other : config.registration.unitName ∉ unitNames config scan := by
    intro member
    have ending := hasEnding_of_mem_unitNames member
    rw [unitEnding, checked.unitEnding] at ending
    cases ending
  rw [map_fileName_planOf, List.nodup_append]
  constructor
  · rintro ⟨units, two, apart⟩
    refine ⟨units, fun member => ?_, by simpa using two⟩
    exact apart _ member _ List.mem_cons_self rfl
  · rintro ⟨units, header, ne⟩
    refine ⟨units, by simpa using ne, ?_⟩
    -- The checks rule out the registration unit, the premise the header.
    rintro name made _ two rfl
    simp only [List.mem_cons, List.not_mem_nil, or_false] at two
    rcases two with rfl | rfl
    · exact header made
    · exact other made

end Names

/--
The configuration has been checked. Then the files of a plan have names of
their own just if the units have, and the runtime header is named like none of
them and not like the registration unit. The units have names of their own if
the classes have, and these are legal. Written where there is no report, files
with names of their own are all stored.
-/
theorem fileNames_apart {config : Config} {scan : Scan} {plan : Plan}
    (sound : config.fault? = none) (made : ofScan config scan = .ok plan) :
    ((plan.artifacts.map Artifact.fileName).Nodup ↔
        (unitNames config scan).Nodup ∧
          config.registration.runtimeHeader ∉ unitNames config scan ∧
          config.registration.runtimeHeader ≠
            config.registration.unitName) ∧
      ((scan.targets.map Target.name).Nodup →
        (∀ t ∈ scan.targets, t.name.Legal) →
        Text.hasEnding unitEnding config.registration.runtimeHeader = false →
        config.registration.runtimeHeader ≠ config.registration.unitName →
        (plan.artifacts.map Artifact.fileName).Nodup) ∧
      ((plan.artifacts.map Artifact.fileName).Nodup →
        config.report = none →
        ∀ fs fs' report, plan.write fs config = (fs', .ok report) →
          ∀ a ∈ plan.artifacts, Stores fs' config.outputDir a) := by
  obtain ⟨-, -, rfl⟩ := ofScan_eq_ok_iff.mp made
  have checked := Config.namesChecked_of_fault? sound
  have apart : ((planOf config scan).artifacts.map Artifact.fileName).Nodup ↔
      _ := nodup_fileNames_planOf_iff checked
  refine ⟨apart, ?_, ?_⟩
  · intro names legal ending other
    refine apart.mpr ⟨nodup_unitNames names legal, fun member => ?_, other⟩
    rw [hasEnding_of_mem_unitNames member] at ending
    cases ending
  · intro once silent fs fs' report written
    exact stores_of_write silent
      (fun a member => isName_of_mem_artifacts checked member) once written

/-- Two classes with names that differ in what mangling escapes. -/
def escapedScan : Scan where
  targets :=
    [{ name := ⟨"a/B_c"⟩
       methods := [.ofName "f" ⟨[], .void⟩ ⟨true, false, false⟩] },
      { name := ⟨"a/B/c"⟩
        methods := [.ofName "g" ⟨[], .void⟩ ⟨true, false, false⟩] }]
  classesScanned := 2

theorem fileNames_apart_escapedScan :
    let config : Config := { classpath := ["classes"] }
    let plan := planOf config escapedScan
    config.fault? = none ∧ ofScan config escapedScan = .ok plan ∧
      (plan.artifacts.map Artifact.fileName).Nodup ∧
      ∀ fs fs' report, plan.write fs config = (fs', .ok report) →
        ∀ a ∈ plan.artifacts, Stores fs' config.outputDir a := by
  intro config plan
  have sound : config.fault? = none := by
    cbv
  have made : ofScan config escapedScan = .ok plan :=
    ofScan_eq_ok_iff.mpr ⟨rfl, by decide, rfl⟩
  obtain ⟨-, apart, stored⟩ := fileNames_apart sound made
  have once := apart (by decide) (by decide) (by decide) (by decide)
  exact ⟨sound, made, once, stored once rfl⟩

/-- A configuration in which the runtime header is named like a unit. -/
def borrowedName : Config where
  classpath := ["classes"]
  registration := { runtimeHeader := "a_B.jni.cpp" }

def singleScan : Scan where
  targets :=
    [{ name := ⟨"a/B"⟩
       methods := [.ofName "f" ⟨[], .void⟩ ⟨true, false, false⟩] }]
  classesScanned := 1

/-- Checks and valid names do not make the files of a plan differ in name. -/
theorem not_forall_nodup_fileNames :
    ¬ ∀ (config : Config) (scan : Scan) (plan : Plan),
      config.fault? = none → (scan.targets.map Target.name).Nodup →
      (∀ t ∈ scan.targets, t.name.isValid = true) →
      ofScan config scan = .ok plan →
        (plan.artifacts.map Artifact.fileName).Nodup := by
  intro apart
  have sound : borrowedName.fault? = none := by
    cbv
  have made : ofScan borrowedName singleScan =
      .ok (planOf borrowedName singleScan) :=
    ofScan_eq_ok_iff.mpr ⟨rfl, by decide, rfl⟩
  have once := apart borrowedName singleScan _ sound (by decide) (by decide)
    made
  rw [map_fileName_planOf] at once
  have unit : unitNames borrowedName singleScan = ["a_B.jni.cpp"] := by
    cbv
  rw [unit] at once
  revert once
  decide

end Plan
end NativeGlue
