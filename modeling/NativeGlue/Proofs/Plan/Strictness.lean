import NativeGlue.Proofs.Plan.Accounting

/-!
# Strict runs

A strict run and one that is not differ in a single point: the strict run ends
at the first method of the scan without a native form. Where there is no such
method, both make the same plan or fail alike. Where there is one, the other
run has a plan, since at least this method was found; its report begins the
methods left out with the error that ends the strict run.
-/

namespace NativeGlue

namespace Mapping

/-- What keeps a method of a class from being mapped. -/
def fault? (x : ClassName × Method) : Option UnsupportedMethod :=
  match mapMethod x.1 x.2 with
  | .error u => some u
  | .ok _ => none

theorem fault?_eq_some_iff {x : ClassName × Method} {u : UnsupportedMethod} :
    fault? x = some u ↔ mapMethod x.1 x.2 = .error u := by
  rw [fault?]
  cases mapMethod x.1 x.2 <;> simp

theorem fault?_eq_none_iff {x : ClassName × Method} :
    fault? x = none ↔ ∃ mapped, mapMethod x.1 x.2 = .ok mapped := by
  rw [fault?]
  cases mapMethod x.1 x.2 <;> simp

end Mapping

namespace Scan

/-- The methods of a scan with their classes, target after target. -/
def candidates (scan : Scan) : List (ClassName × Method) :=
  scan.targets.flatMap fun t => t.methods.map fun m => (t.name, m)

/-- Every method of a scan has a native form. -/
def IsMappable (scan : Scan) : Prop :=
  ∀ x ∈ scan.candidates, ∃ mapped, Mapping.mapMethod x.1 x.2 = .ok mapped

/-- The error of the first method of a scan that has no native form. -/
def FailsFirst (scan : Scan) (u : UnsupportedMethod) : Prop :=
  ∃ earlier x later, scan.candidates = earlier ++ x :: later ∧
    (∀ y ∈ earlier, ∃ mapped, Mapping.mapMethod y.1 y.2 = .ok mapped) ∧
    Mapping.mapMethod x.1 x.2 = .error u

variable {scan : Scan} {u : UnsupportedMethod}

theorem flatMap_unmappable (scan : Scan) :
    scan.targets.flatMap Mapping.unmappable =
      scan.candidates.filterMap Mapping.fault? := by
  rw [candidates, List.filterMap_flatMap]
  refine List.flatMap_congr fun t _ => ?_
  rw [List.filterMap_map]
  rfl

theorem length_candidates (scan : Scan) :
    scan.candidates.length = scan.methodCount := by
  rw [methodCount_eq_sum, candidates, List.length_flatMap]
  simp only [List.length_map]

theorem flatMap_unmappable_eq_nil_iff :
    scan.targets.flatMap Mapping.unmappable = [] ↔ scan.IsMappable := by
  simp only [flatMap_unmappable, List.filterMap_eq_nil_iff,
    Mapping.fault?_eq_none_iff, IsMappable]

theorem head?_flatMap_unmappable :
    (scan.targets.flatMap Mapping.unmappable).head? = some u ↔
      scan.FailsFirst u := by
  rw [flatMap_unmappable, List.head?_filterMap, List.findSome?_eq_some_iff]
  simp only [Mapping.fault?_eq_some_iff, Mapping.fault?_eq_none_iff]
  constructor
  · rintro ⟨earlier, x, later, eq, failed, mapped⟩
    exact ⟨earlier, x, later, eq, mapped, failed⟩
  · rintro ⟨earlier, x, later, eq, mapped, failed⟩
    exact ⟨earlier, x, later, eq, failed, mapped⟩

theorem exists_failsFirst (unmapped : ¬ scan.IsMappable) :
    ∃ u, scan.FailsFirst u := by
  rw [← flatMap_unmappable_eq_nil_iff] at unmapped
  obtain ⟨u, others, eq⟩ := List.exists_cons_of_ne_nil unmapped
  exact ⟨u, head?_flatMap_unmappable.mp (by rw [eq, List.head?_cons])⟩

theorem FailsFirst.methodCount_ne_zero (first : scan.FailsFirst u) :
    scan.methodCount ≠ 0 := by
  obtain ⟨earlier, x, later, eq, -, -⟩ := first
  rw [← length_candidates, eq, List.length_append, List.length_cons]
  omega

end Scan

namespace Plan

theorem strictFault?_mapTarget (config : Config) (scan : Scan) :
    strictFault? config (scan.targets.map Mapping.mapTarget) =
      if config.strict then
        (scan.targets.flatMap Mapping.unmappable).head?
      else
        none := by
  rw [strictFault?, List.flatMap_map]
  rfl

/--
The same scan under the same configuration, once strict and once not. If every
method of the scan has a native form, the outcome is the same. Otherwise the
strict run fails with the error of the first method that has none, and the
other run makes a plan, in whose report this error is the first of the methods
that are left out.
-/
theorem strict_only_filters (config : Config) (scan : Scan) :
    (scan.IsMappable →
      ofScan { config with strict := true } scan =
        ofScan { config with strict := false } scan) ∧
    (¬ scan.IsMappable →
      ∃ u plan, scan.FailsFirst u ∧
        ofScan { config with strict := true } scan = .error (.strict u) ∧
        ofScan { config with strict := false } scan = .ok plan ∧
        plan.report.skippedMethods.head? = some u) := by
  constructor
  · intro mapped
    rw [ofScan_eq, ofScan_eq, strictFault?_mapTarget, strictFault?_mapTarget,
      Scan.flatMap_unmappable_eq_nil_iff.mpr mapped]
    -- Neither run has a strict fault, and no file of a plan tells the mode.
    rfl
  · intro unmapped
    obtain ⟨u, first⟩ := Scan.exists_failsFirst unmapped
    have head := Scan.head?_flatMap_unmappable.mpr first
    refine ⟨u, planOf { config with strict := false } scan, first, ?_, ?_, ?_⟩
    · rw [ofScan_eq, strictFault?_mapTarget, if_pos rfl, head]
    · exact ofScan_eq_ok_iff.mpr
        ⟨strictFault?_mapTarget .., first.methodCount_ne_zero, rfl⟩
    · rw [skippedMethods_planOf, head]

/-- The error of the first method in `crowdedScan`. -/
def arrayFault : UnsupportedMethod :=
  ⟨⟨"a/B"⟩, "c", "([[I)V", "[[I", .multiDimensionalArray 2⟩

/-- A scan of the method of `mixedTarget` that has a native form. -/
def mappedScan : Scan :=
  ⟨[{ mixedTarget with methods := mixedTarget.methods.tail }], 1⟩

theorem strict_only_filters_crowdedScan :
    ¬ crowdedScan.IsMappable ∧
      ofScan { strict := true } crowdedScan = .error (.strict arrayFault) ∧
      (∃ plan, ofScan {} crowdedScan = .ok plan ∧
        plan.report.skippedMethods.head? = some arrayFault) ∧
      mappedScan.IsMappable ∧
      ofScan { strict := true } mappedScan = ofScan {} mappedScan := by
  have head : (crowdedScan.targets.flatMap Mapping.unmappable).head? =
      some arrayFault := by
    decide
  have unmapped : ¬ crowdedScan.IsMappable := by
    rw [← Scan.flatMap_unmappable_eq_nil_iff]
    decide
  have mapped : mappedScan.IsMappable := by
    rw [← Scan.flatMap_unmappable_eq_nil_iff]
    decide
  obtain ⟨u, plan, first, failed, made, listed⟩ :=
    (strict_only_filters {} crowdedScan).2 unmapped
  obtain rfl : arrayFault = u := Option.some.inj
    (head.symm.trans (Scan.head?_flatMap_unmappable.mpr first))
  exact ⟨unmapped, failed, ⟨plan, made, listed⟩, mapped,
    (strict_only_filters {} mappedScan).1 mapped⟩

end Plan
end NativeGlue
