import Mathlib
import NativeGlue.Proofs.Plan.Fate

/-!
# Nothing is lost between a scan and its table

Methods leave a run in two ways: one by one, because they are not mapped, or
with their class, because it is turned away. All others are rows of the table,
class by class and in their order, and the report counts what is in the table
and lists what is not. So each method of a scan is accounted for once.
-/

namespace NativeGlue

/-- The class, name and descriptor of an entry. -/
def Entry.row (e : Entry) : Claim := ⟨e.owner, e.method, e.descriptor⟩

namespace Target

/-- The rows that the mapped methods of a target make, in order. -/
def rows (t : Target) : List Claim :=
  (Mapping.mappable t).map fun m =>
    ⟨t.name, m.method.name, m.method.descriptor.encode⟩

@[simp] theorem length_rows (t : Target) :
    t.rows.length = (Mapping.mappable t).length :=
  List.length_map ..

theorem mem_rows {t : Target} {m : Method} {mapped : MappedMethod}
    (member : m ∈ t.methods)
    (accepted : Mapping.mapMethod t.name m = .ok mapped) :
    ⟨t.name, m.name, m.descriptor.encode⟩ ∈ t.rows := by
  obtain rfl := (Mapping.mapMethod_eq_ok accepted).1
  exact List.mem_map.mpr
    ⟨mapped, Mapping.mem_mappable.mpr ⟨_, member, accepted⟩, rfl⟩

end Target

namespace Mapping

theorem mem_unmappable {t : Target} {u : UnsupportedMethod} :
    u ∈ unmappable t ↔ ∃ m ∈ t.methods, mapMethod t.name m = .error u := by
  rw [unmappable, List.mem_filterMap]
  refine exists_congr fun m => and_congr_right fun _ => ?_
  cases mapMethod t.name m <;> simp

/-- Every method of a target is mapped or left out. -/
theorem length_methods (t : Target) :
    t.methods.length = (mappable t).length + (unmappable t).length := by
  rw [mappable, unmappable]
  induction t.methods with
  | nil =>
      rfl
  | cons m ms ih =>
      cases accepted : mapMethod t.name m with
      | error u =>
          rw [List.filterMap_cons_none (by rw [accepted]; rfl),
            List.filterMap_cons_some (b := u) (by rw [accepted])]
          simp only [List.length_cons, ih]
          ring
      | ok mapped =>
          rw [List.filterMap_cons_some (b := mapped) (by rw [accepted]; rfl),
            List.filterMap_cons_none (by rw [accepted])]
          simp only [List.length_cons, ih]
          ring

end Mapping

theorem Scan.methodCount_eq_sum (scan : Scan) :
    scan.methodCount =
      (scan.targets.map fun t => t.methods.length).sum := by
  rw [methodCount, List.sum_eq_foldl, List.foldl_map]

namespace Plan

section Signed

variable {naming : NamingScheme} {registry : Registry} {ts : List Target}
  {t : Target} {s : SignedTarget}

/-- A signed target claims its rows, each for one entry point. -/
theorem map_snd_claims (member : (t, s) ∈ signings naming registry ts) :
    s.claims.map Prod.snd = t.rows := by
  obtain ⟨-, ⟨ranks, -, rfl⟩, -⟩ := Fate.ofTarget_eq_signed_iff.mp
    (ofTarget_empty_of_mem_signings member)
  rw [SignedTarget.claims_ofRanks, List.map_map]
  rfl

theorem name_of_mem_signings (member : (t, s) ∈ signings naming registry ts) :
    s.target.name = t.name := by
  obtain ⟨-, ⟨ranks, -, rfl⟩, -⟩ := Fate.ofTarget_eq_signed_iff.mp
    (ofTarget_empty_of_mem_signings member)
  rfl

/-- The unit of a signed target has the rows of the target. -/
theorem map_row_entries (options : EmitOptions)
    (member : (t, s) ∈ signings naming registry ts) :
    (SourceUnit.ofTarget options s).entries.map Entry.row = t.rows := by
  rw [← map_snd_claims member, ← SourceUnit.map_claim_entries options,
    List.map_map]
  rfl

/-- The report has the class of a unit, its file and the number of its rows. -/
theorem summary_ofTarget (options : EmitOptions)
    (member : (t, s) ∈ signings naming registry ts) :
    summary (SourceUnit.ofTarget options s) =
      ⟨t.name, SourceUnit.fileNameOf t.name, t.rows.length⟩ := by
  rw [← name_of_mem_signings member, ← map_row_entries options member,
    List.length_map]
  rfl

end Signed

section Counting

variable {naming : NamingScheme} {registry : Registry} {ts : List Target}

/-- What is mapped is in signed targets or in those that are turned away. -/
theorem sum_length_rows (naming : NamingScheme) (registry : Registry)
    (ts : List Target) :
    (ts.map fun t => t.rows.length).sum =
      ((signings naming registry ts).map fun x => x.1.rows.length).sum
        + ((rejections naming registry ts).map
          fun x => x.1.rows.length).sum := by
  induction ts generalizing registry with
  | nil =>
      rfl
  | cons t ts ih =>
      have rest := ih ⟨registry.claims
        ++ (Fate.ofTarget naming registry t).claims⟩
      rw [signings, rejections] at rest ⊢
      rw [List.map_cons, List.sum_cons, rest, fates]
      cases fate : Fate.ofTarget naming registry t with
      | passedOver =>
          have none := Fate.ofTarget_eq_passedOver_iff.mp fate
          simp [Fate.signed?, Fate.collision?, none]
      | turnedAway c =>
          simp [Fate.signed?, Fate.collision?]
          ring
      | signed s =>
          simp [Fate.signed?, Fate.collision?]
          ring

end Counting

/--
A plan has all methods of a scan: in its table, in the list of methods left
out, or in a class that is in the list of classes left out.
-/
structure AccountsFor (config : Config) (scan : Scan) (plan : Plan) :
    Prop where
  /-- The table has the mapped methods of the targets with a unit, in order. -/
  rows : plan.table.entries.map Entry.row =
    (emitted config.naming scan.targets).flatMap Target.rows
  /-- There is one unit for each such target, and two files for the library. -/
  units : plan.artifacts.map Artifact.fileName =
    (emitted config.naming scan.targets).map
        (fun t => SourceUnit.fileNameOf t.name)
      ++ [config.registration.runtimeHeader, config.registration.unitName]
  /-- The report lists the units, each with the number of its rows. -/
  summaries : plan.report.targets =
    (emitted config.naming scan.targets).map fun t =>
      ⟨t.name, SourceUnit.fileNameOf t.name, t.rows.length⟩
  /-- The methods left out are those without a native form, in order. -/
  skippedMethods : plan.report.skippedMethods =
    scan.targets.flatMap Mapping.unmappable
  /-- The classes left out are those that are turned away, in order. -/
  skippedTargets : plan.report.skippedTargets.map Collision.owner =
    (turnedAway config.naming scan.targets).map Target.name
  /-- Each of them has a mapped method. -/
  mappable : ∀ t ∈ turnedAway config.naming scan.targets, Mapping.mappable t ≠ []
  /-- Each method is a row, or it is left out alone or with its class. -/
  everyMethod : ∀ t ∈ scan.targets, ∀ m ∈ t.methods,
    (∃ u, Mapping.mapMethod t.name m = .error u ∧
        u ∈ plan.report.skippedMethods) ∨
      (∃ e ∈ plan.table.entries,
        e.row = ⟨t.name, m.name, m.descriptor.encode⟩) ∨
      ∃ c ∈ plan.report.skippedTargets, c.owner = t.name
  /-- No method is accounted for twice. -/
  methodCount : scan.methodCount =
    plan.table.entries.length + plan.report.skippedMethods.length
      + ((turnedAway config.naming scan.targets).map fun t => t.rows.length).sum
  /-- The report has the number of entries, which is that of all units. -/
  entryCount : plan.report.entryCount = plan.table.entries.length ∧
    plan.report.entryCount = (plan.report.targets.map TargetSummary.entries).sum
  /-- No entry point is used twice. -/
  entryPoints : (plan.table.entries.map Entry.entryPoint).Nodup

section Account

variable (config : Config) (scan : Scan)

theorem units_planOf :
    (signAll config.naming .empty (scan.targets.map Mapping.mapTarget)).1.map
        (SourceUnit.ofTarget (emitOptions config)) =
      (signings config.naming .empty scan.targets).map fun x =>
        SourceUnit.ofTarget (emitOptions config) x.2 := by
  rw [signAll_eq, List.map_map]
  rfl

theorem map_row_planOf :
    (planOf config scan).table.entries.map Entry.row =
      (emitted config.naming scan.targets).flatMap Target.rows := by
  have entries : (planOf config scan).table.entries =
      (signings config.naming .empty scan.targets).flatMap fun x =>
        (SourceUnit.ofTarget (emitOptions config) x.2).entries := by
    change List.flatMap _ (List.map _ _) = _
    rw [units_planOf, List.flatMap_map]
  rw [entries, emitted, List.map_flatMap, List.flatMap_map]
  exact List.flatMap_congr fun x member => map_row_entries _ member

theorem targets_report_planOf :
    (planOf config scan).report.targets =
      (emitted config.naming scan.targets).map fun t =>
        ⟨t.name, SourceUnit.fileNameOf t.name, t.rows.length⟩ := by
  change List.map summary (List.map _ _) = _
  rw [units_planOf, emitted, List.map_map, List.map_map]
  exact List.map_congr_left fun x member => summary_ofTarget _ member

theorem skippedTargets_planOf :
    (planOf config scan).report.skippedTargets =
      (rejections config.naming .empty scan.targets).map Prod.snd := by
  change (signAll _ _ _).2 = _
  rw [signAll_eq]

theorem map_owner_skippedTargets :
    (planOf config scan).report.skippedTargets.map Collision.owner =
      (turnedAway config.naming scan.targets).map Target.name := by
  rw [skippedTargets_planOf, turnedAway, List.map_map, List.map_map]
  refine List.map_congr_left fun x member => ?_
  obtain ⟨held, eq⟩ := exists_of_mem_fates (mem_rejections.mp member)
  exact Fate.owner_of_turnedAway eq.symm

theorem skippedMethods_planOf :
    (planOf config scan).report.skippedMethods =
      scan.targets.flatMap Mapping.unmappable :=
  List.flatMap_map ..

theorem mappable_ne_nil_of_mem_turnedAway {t : Target}
    (member : t ∈ turnedAway config.naming scan.targets) :
    Mapping.mappable t ≠ [] := by
  obtain ⟨⟨_, c⟩, inside, rfl⟩ := List.mem_map.mp member
  obtain ⟨held, eq⟩ := exists_of_mem_fates (mem_rejections.mp inside)
  exact Fate.mappable_ne_nil_of_turnedAway eq.symm

/-- A target with a mapped method gets a unit or is turned away. -/
theorem mem_emitted_or_mem_turnedAway {t : Target}
    (member : t ∈ scan.targets) (mapped : Mapping.mappable t ≠ []) :
    t ∈ emitted config.naming scan.targets ∨
      t ∈ turnedAway config.naming scan.targets := by
  rw [← map_fst_fates config.naming .empty scan.targets] at member
  obtain ⟨⟨_, fate⟩, inside, rfl⟩ := List.mem_map.mp member
  cases fate with
  | passedOver =>
      obtain ⟨held, eq⟩ := exists_of_mem_fates inside
      exact absurd (Fate.ofTarget_eq_passedOver_iff.mp eq.symm) mapped
  | turnedAway c =>
      exact .inr (List.mem_map.mpr ⟨_, mem_rejections.mpr inside, rfl⟩)
  | signed s =>
      exact .inl (List.mem_map.mpr ⟨_, mem_signings.mpr inside, rfl⟩)

theorem mem_planOf_of_mem_methods {t : Target} (member : t ∈ scan.targets)
    {m : Method} (inside : m ∈ t.methods) :
    (∃ u, Mapping.mapMethod t.name m = .error u ∧
        u ∈ (planOf config scan).report.skippedMethods) ∨
      (∃ e ∈ (planOf config scan).table.entries,
        e.row = ⟨t.name, m.name, m.descriptor.encode⟩) ∨
      ∃ c ∈ (planOf config scan).report.skippedTargets, c.owner = t.name := by
  cases accepted : Mapping.mapMethod t.name m with
  | error u =>
      refine .inl ⟨u, rfl, ?_⟩
      rw [skippedMethods_planOf, List.mem_flatMap]
      exact ⟨t, member, Mapping.mem_unmappable.mpr ⟨m, inside, accepted⟩⟩
  | ok mapped =>
      have mapped : Mapping.mappable t ≠ [] := List.ne_nil_of_mem
        (Mapping.mem_mappable.mpr ⟨m, inside, accepted⟩)
      rcases mem_emitted_or_mem_turnedAway config scan member mapped with
        made | turned
      · refine .inr (.inl (List.mem_map.mp ?_))
        rw [map_row_planOf, List.mem_flatMap]
        exact ⟨t, made, Target.mem_rows inside accepted⟩
      · refine .inr (.inr (List.mem_map.mp ?_))
        rw [map_owner_skippedTargets]
        exact List.mem_map_of_mem turned

theorem length_entries_planOf :
    (planOf config scan).table.entries.length =
      ((emitted config.naming scan.targets).map fun t => t.rows.length).sum := by
  rw [← List.length_map Entry.row, map_row_planOf, List.length_flatMap]

theorem methodCount_planOf :
    scan.methodCount =
      (planOf config scan).table.entries.length
        + (planOf config scan).report.skippedMethods.length
        + ((turnedAway config.naming scan.targets).map
            fun t => t.rows.length).sum := by
  calc
    scan.methodCount =
        (scan.targets.map fun t =>
          t.rows.length + (Mapping.unmappable t).length).sum := by
      rw [Scan.methodCount_eq_sum]
      simp only [Mapping.length_methods, Target.length_rows]
    _ = (scan.targets.map fun t => t.rows.length).sum
          + (scan.targets.map fun t =>
              (Mapping.unmappable t).length).sum :=
      List.sum_map_add
    _ = _ := by
      rw [sum_length_rows config.naming .empty, length_entries_planOf,
        skippedMethods_planOf, List.length_flatMap, emitted, turnedAway,
        List.map_map, List.map_map]
      simp only [Function.comp_def]
      ring

end Account

/-- Every plan accounts for every method of its scan. -/
theorem accountsFor_of_ofScan {config : Config} {scan : Scan} {plan : Plan}
    (made : ofScan config scan = .ok plan) :
    plan.AccountsFor config scan := by
  obtain ⟨-, -, rfl⟩ := ofScan_eq_ok_iff.mp made
  exact {
    rows := map_row_planOf config scan
    units := by
      change List.map _ (artifactsOf config (List.map _ _) _) = _
      rw [units_planOf, artifactsOf, List.map_append, List.map_map,
        List.map_map, emitted, List.map_map]
      refine congrArg (· ++ _) (List.map_congr_left fun x member => ?_)
      exact congrArg SourceUnit.fileNameOf (name_of_mem_signings member)
    summaries := targets_report_planOf config scan
    skippedMethods := skippedMethods_planOf config scan
    skippedTargets := map_owner_skippedTargets config scan
    mappable := fun t => mappable_ne_nil_of_mem_turnedAway config scan
    everyMethod := fun t member m =>
      mem_planOf_of_mem_methods config scan member
    methodCount := methodCount_planOf config scan
    entryCount := by
      refine ⟨rfl, ?_⟩
      change (planOf config scan).table.entries.length = _
      rw [length_entries_planOf, targets_report_planOf, List.map_map]
      rfl
    entryPoints := nodup_entryPoints config scan }

/-- A class with one method that is mapped and one that is not. -/
def mixedTarget : Target where
  name := ⟨"a/B"⟩
  methods :=
    [.ofName "c" ⟨[.array (.primitive .int) 2], .void⟩ ⟨true, false, false⟩,
      .ofName "d" ⟨[.primitive .int], .void⟩ ⟨true, false, false⟩]

/-- A class without a mapped method. -/
def unmappedTarget : Target where
  name := ⟨"a/C"⟩
  methods := [.ofName "c" ⟨[.array .string 1], .void⟩ ⟨true, false, false⟩]

/-- A scan with targets of every fate; the last comes once too often. -/
def crowdedScan : Scan :=
  ⟨[mixedTarget, unmappedTarget, mixedTarget], 3⟩

theorem ofScan_crowdedScan :
    ofScan {} crowdedScan = .ok (planOf {} crowdedScan) :=
  ofScan_eq_ok_iff.mpr ⟨rfl, by decide, rfl⟩

theorem emitted_crowdedScan :
    emitted .jni crowdedScan.targets = [mixedTarget] := by
  cbv

theorem turnedAway_crowdedScan :
    turnedAway .jni crowdedScan.targets = [mixedTarget] := by
  cbv

theorem accountsFor_crowdedScan :
    ofScan {} crowdedScan = .ok (planOf {} crowdedScan) ∧
      emitted .jni crowdedScan.targets = [mixedTarget] ∧
      turnedAway .jni crowdedScan.targets = [mixedTarget] ∧
      (planOf {} crowdedScan).AccountsFor {} crowdedScan :=
  ⟨ofScan_crowdedScan, emitted_crowdedScan, turnedAway_crowdedScan,
    accountsFor_of_ofScan ofScan_crowdedScan⟩

end Plan
end NativeGlue
