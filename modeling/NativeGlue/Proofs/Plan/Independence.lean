import NativeGlue.Proofs.Plan.Accounting

/-!
# Targets do not interfere

What a run makes of a target that gets a unit depends on that target alone, so
a plan is the plans of its targets put together. A target that gets no unit
holds no entry point; it may be taken out of the scan, and no file of the plan
and no row of the table changes.
-/

namespace NativeGlue
namespace Plan

/-- The files of a plan that belong to targets. -/
def units (p : Plan) : List Artifact :=
  p.artifacts.dropLast.dropLast

section Signings

variable {naming : NamingScheme} {registry : Registry} {ts : List Target}
  {t : Target} {s : SignedTarget}

/-- What is signed in a run is signed alone. -/
theorem signings_singleton (member : (t, s) ∈ signings naming registry ts) :
    signings naming .empty [t] = [(t, s)] :=
  signings_cons_of_signed (ofTarget_empty_of_mem_signings member)

/-- Targets that are not signed do not matter to those that are. -/
theorem signings_map_fst (naming : NamingScheme) (registry : Registry)
    (ts : List Target) :
    signings naming registry ((signings naming registry ts).map Prod.fst) =
      signings naming registry ts := by
  induction ts generalizing registry with
  | nil =>
      rfl
  | cons t ts ih =>
      cases found : (Fate.ofTarget naming registry t).signed? with
      | none =>
          rw [signings_cons_of_not_signed found]
          exact ih registry
      | some s =>
          have fate : Fate.ofTarget naming registry t = .signed s := by
            cases eq : Fate.ofTarget naming registry t <;> rw [eq] at found <;>
              cases found
            rfl
          rw [signings_cons_of_signed fate, List.map_cons,
            signings_cons_of_signed fate, ih]

theorem signings_emitted (naming : NamingScheme) (ts : List Target) :
    signings naming .empty (emitted naming ts) = signings naming .empty ts :=
  signings_map_fst naming .empty ts

theorem exists_of_mem_emitted (member : t ∈ emitted naming ts) :
    ∃ s, (t, s) ∈ signings naming .empty ts := by
  obtain ⟨⟨_, s⟩, inside, rfl⟩ := List.mem_map.mp member
  exact ⟨s, inside⟩

theorem mem_of_mem_emitted (member : t ∈ emitted naming ts) : t ∈ ts := by
  obtain ⟨s, inside⟩ := exists_of_mem_emitted member
  rw [← map_fst_fates naming .empty ts]
  exact List.mem_map.mpr ⟨_, mem_signings.mp inside, rfl⟩

theorem mappable_ne_nil_of_mem_emitted (member : t ∈ emitted naming ts) :
    Mapping.mappable t ≠ [] := by
  obtain ⟨s, inside⟩ := exists_of_mem_emitted member
  exact (Fate.ofTarget_eq_signed_iff.mp
    (ofTarget_empty_of_mem_signings inside)).1

end Signings

section Parts

variable (config : Config) (scan : Scan)

/-- The file of a signed target. -/
def unitOf (s : SignedTarget) : Artifact :=
  let u := SourceUnit.ofTarget (emitOptions config) s
  ⟨u.fileName, u.contents⟩

theorem artifacts_planOf :
    (planOf config scan).artifacts =
      (signings config.naming .empty scan.targets).map
          (fun x => unitOf config x.2)
        ++ [⟨config.registration.runtimeHeader,
              RuntimeHeader.render generatorVersion⟩,
            ⟨config.registration.unitName,
              Registration.render (planOf config scan).table
                config.registration⟩] := by
  -- The table is made from the units too, and is left as it is.
  change (List.map _ _).map _ ++ _ = _
  refine congrArg (· ++ _) ?_
  rw [units_planOf, List.map_map]
  rfl

theorem units_eq_map_unitOf :
    (planOf config scan).units =
      (signings config.naming .empty scan.targets).map fun x =>
        unitOf config x.2 := by
  rw [units, artifacts_planOf]
  simp

theorem entries_eq_flatMap :
    (planOf config scan).table.entries =
      (signings config.naming .empty scan.targets).flatMap fun x =>
        (SourceUnit.ofTarget (emitOptions config) x.2).entries := by
  change List.flatMap _ (List.map _ _) = _
  rw [units_planOf, List.flatMap_map]

/-- Files and table depend on what is signed, and on no other target. -/
theorem planOf_congr (other : Scan)
    (same : signings config.naming .empty other.targets =
      signings config.naming .empty scan.targets) :
    (planOf config other).table = (planOf config scan).table ∧
      (planOf config other).artifacts = (planOf config scan).artifacts := by
  have units := units_planOf config other
  rw [same, ← units_planOf config scan] at units
  constructor
  · change Table.mk _ (List.flatMap _ (List.map _ _)) = _
    rw [units]
    rfl
  · change artifactsOf config (List.map _ _) ⟨_, List.flatMap _ (List.map _ _)⟩
      = _
    rw [units]
    rfl

theorem methodCount_ne_zero {ts : List Target} {n : Nat} {t : Target}
    (member : t ∈ ts) (mapped : Mapping.mappable t ≠ []) :
    (Scan.mk ts n).methodCount ≠ 0 := by
  obtain ⟨before, behind, rfl⟩ := List.append_of_mem member
  have positive := List.length_pos_iff.mpr mapped
  have all := Mapping.length_methods t
  rw [Scan.methodCount_eq_sum]
  simp only [List.map_append, List.map_cons, List.sum_append, List.sum_cons]
  omega

/-- A strict run that leaves nothing out does so for fewer targets. -/
theorem strictFault?_eq_none_of_subset {ts us : List Target}
    (subset : ∀ u ∈ us, u ∈ ts)
    (strict : strictFault? config (ts.map Mapping.mapTarget) = none) :
    strictFault? config (us.map Mapping.mapTarget) = none := by
  rw [strictFault?] at strict ⊢
  split
  · rename_i on
    rw [if_pos on, List.head?_eq_none_iff, List.flatMap_eq_nil_iff,
      List.forall_mem_map] at strict
    rw [List.head?_eq_none_iff, List.flatMap_eq_nil_iff, List.forall_mem_map]
    exact fun u member => strict u (subset u member)
  · rfl

/-- What signed targets have together is what each of them has alone. -/
theorem flatMap_signings {β : Type} (made : SignedTarget → List β)
    (alone : Target → List β)
    (same : ∀ t s, signings config.naming .empty [t] = [(t, s)] →
      made s = alone t) :
    ((signings config.naming .empty scan.targets).flatMap fun x =>
        made x.2) =
      (emitted config.naming scan.targets).flatMap alone := by
  rw [emitted, List.flatMap_map]
  exact List.flatMap_congr fun x member =>
    same x.1 x.2 (signings_singleton member)

variable {config scan} {plan : Plan}

/-- Some of the targets that get a unit have a plan of their own. -/
theorem ofScan_of_subset_emitted (made : ofScan config scan = .ok plan)
    {ts : List Target} (n : Nat) (nonempty : ts ≠ [])
    (subset : ∀ t ∈ ts, t ∈ emitted config.naming scan.targets) :
    ofScan config ⟨ts, n⟩ = .ok (planOf config ⟨ts, n⟩) := by
  obtain ⟨strict, -, -⟩ := ofScan_eq_ok_iff.mp made
  obtain ⟨t, member⟩ := List.exists_mem_of_ne_nil ts nonempty
  have mapped := mappable_ne_nil_of_mem_emitted (subset t member)
  exact ofScan_eq_ok_iff.mpr
    ⟨strictFault?_eq_none_of_subset config
        (fun t member => mem_of_mem_emitted (subset t member)) strict,
      methodCount_ne_zero member mapped, rfl⟩

end Parts

/--
Where a scan has a plan, each target that gets a unit has a plan alone, with
one unit, and the units, the entries and the summaries of all these plans, one
after another, are those of the plan of the scan. If there is such a target,
then the others can be taken out of the scan, and the plan keeps its files and
its table with the stamp.
-/
theorem targets_independent {config : Config} {scan : Scan} {plan : Plan}
    (made : ofScan config scan = .ok plan) (n : Nat) :
    (∃ alone : Target → Plan,
      (∀ t ∈ emitted config.naming scan.targets,
        ofScan config ⟨[t], n⟩ = .ok (alone t) ∧
          ∃ unit, (alone t).units = [unit] ∧
            (alone t).report.targets =
              [⟨t.name, unit.fileName, (alone t).table.entries.length⟩]) ∧
      plan.units = (emitted config.naming scan.targets).flatMap
        (fun t => (alone t).units) ∧
      plan.table.entries = (emitted config.naming scan.targets).flatMap
        (fun t => (alone t).table.entries) ∧
      plan.report.targets = (emitted config.naming scan.targets).flatMap
        (fun t => (alone t).report.targets)) ∧
    (emitted config.naming scan.targets ≠ [] →
      ∃ kept, ofScan config ⟨emitted config.naming scan.targets, n⟩ =
          .ok kept ∧
        kept.units = plan.units ∧ kept.artifacts = plan.artifacts ∧
        kept.table = plan.table) := by
  obtain ⟨-, -, eq⟩ := ofScan_eq_ok_iff.mp made
  constructor
  · refine ⟨fun t => planOf config ⟨[t], n⟩, ?_, ?_, ?_, ?_⟩
    · intro t member
      obtain ⟨s, inside⟩ := exists_of_mem_emitted member
      have single := signings_singleton inside
      refine ⟨ofScan_of_subset_emitted made n (List.cons_ne_nil t []) ?_,
        unitOf config s, ?_, ?_⟩
      · intro u same
        rwa [List.mem_singleton.mp same]
      · rw [units_eq_map_unitOf, single]
        rfl
      · rw [targets_report_planOf, length_entries_planOf, emitted, single,
          unitOf, SourceUnit.ofTarget, name_of_mem_signings inside]
        simp
    · rw [eq, units_eq_map_unitOf, List.map_eq_flatMap]
      refine flatMap_signings config scan (fun s => [unitOf config s]) _
        fun t s single => ?_
      rw [units_eq_map_unitOf, single]
      rfl
    · rw [eq, entries_eq_flatMap]
      refine flatMap_signings config scan
        (fun s => (SourceUnit.ofTarget (emitOptions config) s).entries) _
        fun t s single => ?_
      rw [entries_eq_flatMap, single]
      exact (List.flatMap_singleton _ _).symm
    · rw [eq, targets_report_planOf, List.map_eq_flatMap]
      refine List.flatMap_congr fun t member => ?_
      obtain ⟨s, inside⟩ := exists_of_mem_emitted member
      rw [targets_report_planOf, emitted, signings_singleton inside]
      rfl
  · intro nonempty
    have same := signings_emitted config.naming scan.targets
    obtain ⟨table, artifacts⟩ := planOf_congr config scan
      ⟨emitted config.naming scan.targets, n⟩ same
    refine ⟨_, ofScan_of_subset_emitted made n nonempty fun t member => member,
      ?_, ?_, ?_⟩
    · rw [eq, units, units, artifacts]
    · rw [eq, artifacts]
    · rw [eq, table]

theorem targets_independent_crowdedScan :
    ofScan {} crowdedScan = .ok (planOf {} crowdedScan) ∧
      emitted .jni crowdedScan.targets = [mixedTarget] ∧
      (∃ alone : Target → Plan, ofScan {} ⟨[mixedTarget], 1⟩ =
          .ok (alone mixedTarget) ∧
        (planOf {} crowdedScan).units = (alone mixedTarget).units) ∧
      ∃ kept, ofScan {} ⟨[mixedTarget], 1⟩ = .ok kept ∧
        kept.artifacts = (planOf {} crowdedScan).artifacts ∧
        kept.table = (planOf {} crowdedScan).table := by
  have single : emitted (Config.naming {}) crowdedScan.targets =
      [mixedTarget] := emitted_crowdedScan
  obtain ⟨⟨alone, each, units, -⟩, kept⟩ :=
    targets_independent ofScan_crowdedScan 1
  rw [single] at each units kept
  refine ⟨ofScan_crowdedScan, emitted_crowdedScan, ⟨alone, ?_, ?_⟩, ?_⟩
  · exact (each mixedTarget List.mem_cons_self).1
  · rw [units, List.flatMap_singleton]
  · obtain ⟨plan, made, -, artifacts, table⟩ := kept (List.cons_ne_nil _ _)
    exact ⟨plan, made, artifacts, table⟩

end Plan
end NativeGlue
