import NativeGlue.Proofs.Plan.Functions
import NativeGlue.Proofs.Table.Groups
import NativeGlue.Proofs.Table.Registration

/-!
# Registration of classes

The table of a plan is filled unit by unit. No unit is empty, and its entries
are those of its class. So if no two classes have the same name, the units are
the groups of the table, whose order and sizes the report tells, and the
registration unit registers each class once with all its methods.

Main statement: `registered_once`.
-/

namespace NativeGlue
namespace Plan

section Units

variable {config : Config} {scan : Scan} {t : Target} {s : SignedTarget}

/-- The entries of the unit of a signed target. -/
def unitEntries (config : Config) (s : SignedTarget) : List Entry :=
  (SourceUnit.ofTarget (emitOptions config) s).entries

theorem owner_of_mem_unitEntries
    (member : (t, s) ∈ signings config.naming .empty scan.targets) {e : Entry}
    (among : e ∈ unitEntries config s) : e.owner = t.name := by
  rw [unitEntries, SourceUnit.entries_ofTarget] at among
  obtain ⟨x, -, rfl⟩ := List.mem_map.mp among
  exact name_of_mem_signings member

theorem length_unitEntries
    (member : (t, s) ∈ signings config.naming .empty scan.targets) :
    (unitEntries config s).length = t.rows.length := by
  rw [← map_row_entries (emitOptions config) member, List.length_map]
  rfl

theorem unitEntries_ne_nil
    (member : (t, s) ∈ signings config.naming .empty scan.targets) :
    unitEntries config s ≠ [] := by
  have mapped := (Fate.ofTarget_eq_signed_iff.mp
    (ofTarget_empty_of_mem_signings member)).1
  rw [← List.length_pos_iff, length_unitEntries member, Target.length_rows]
  exact List.length_pos_iff.mpr mapped

/-- Classes of different names stay so where some are left out. -/
theorem nodup_map_name_signings (config : Config)
    (names : (scan.targets.map Target.name).Nodup) :
    ((signings config.naming .empty scan.targets).map
      fun x => x.1.name).Nodup := by
  have kept := ((emitted_sublist config.naming scan.targets).map
    Target.name).nodup names
  rwa [emitted, List.map_map] at kept

/-- The groups of the table are the units of the plan. -/
theorem byClass_planOf (config : Config)
    (names : (scan.targets.map Target.name).Nodup) :
    (planOf config scan).table.byClass =
      (signings config.naming .empty scan.targets).map fun x =>
        (x.1.name, unitEntries config x.2) := by
  refine Table.IsGrouping.eq_groups ⟨?_, ?_, ?_, ?_⟩
  · intro g member
    obtain ⟨x, signed, rfl⟩ := List.mem_map.mp member
    exact unitEntries_ne_nil signed
  · intro g member e among
    obtain ⟨x, signed, rfl⟩ := List.mem_map.mp member
    exact owner_of_mem_unitEntries signed among
  · have apart : ((signings config.naming .empty scan.targets).map fun x =>
        (x.1.name, unitEntries config x.2)).Pairwise fun g h => g.1 ≠ h.1 :=
      List.pairwise_map.mpr
        (List.pairwise_map.mp (nodup_map_name_signings config names))
    exact apart.isChain
  · rw [List.flatMap_map, entries_eq_flatMap]
    rfl

theorem map_fst_byClass_planOf (config : Config)
    (names : (scan.targets.map Target.name).Nodup) :
    ((planOf config scan).table.byClass.map Prod.fst).Nodup := by
  rw [byClass_planOf config names, List.map_map]
  exact nodup_map_name_signings config names

/-- The report has the class of each group and the number of its entries. -/
theorem map_length_byClass_planOf (config : Config)
    (names : (scan.targets.map Target.name).Nodup) :
    (planOf config scan).table.byClass.map (fun g => (g.1, g.2.length)) =
      (planOf config scan).report.targets.map fun s =>
        (s.owner, s.entries) := by
  rw [byClass_planOf config names, targets_report_planOf, emitted,
    List.map_map, List.map_map, List.map_map]
  exact List.map_congr_left fun x signed =>
    congrArg (x.1.name, ·) (length_unitEntries signed)

end Units

/--
For every table, the groups by class are not empty, have one class each, differ
from their neighbours in class, and put together they are the entries. The
registration unit lists their arrays: the row with the number of a group has its
class, the array of that number, and the count of the rows of this array, which
are those of the entries of the group.

In a plan of a scan whose classes have different names, no class has two groups.
In order, the groups have the classes of the report, each with the number of
entries that is reported, and the last file registers them.
-/
theorem registered_once :
    (∀ t : Table, Table.IsGrouping t.entries t.byClass ∧
      ∀ options, Registration.Registers (Registration.document t options)
        t.byClass) ∧
    ∀ (config : Config) (scan : Scan) (plan : Plan),
      ofScan config scan = .ok plan →
      (scan.targets.map Target.name).Nodup →
      (plan.table.byClass.map Prod.fst).Nodup ∧
      plan.table.byClass.map (fun g => (g.1, g.2.length)) =
        plan.report.targets.map (fun s => (s.owner, s.entries)) ∧
      ∃ items, plan.artifacts.getLast? =
          some ⟨config.registration.unitName, Code.render items⟩ ∧
        Registration.Registers items plan.table.byClass := by
  refine ⟨fun t => ⟨t.isGrouping_byClass, Registration.registers_document t⟩,
    fun config scan plan made names => ?_⟩
  obtain ⟨-, -, rfl⟩ := ofScan_eq_ok_iff.mp made
  refine ⟨map_fst_byClass_planOf config names,
    map_length_byClass_planOf config names,
    Registration.document (planOf config scan).table config.registration, ?_,
    Registration.registers_document _ _⟩
  rw [artifacts_planOf, List.getLast?_append]
  rfl

/-- The class of `gappedTarget` under another name. -/
def renamedTarget : Target := { gappedTarget with name := ⟨"a/D"⟩ }

/-- A scan with a class that is left out between two that are not. -/
def spacedScan : Scan :=
  ⟨[mixedTarget, unmappedTarget, renamedTarget], 3⟩

theorem emitted_spacedScan :
    emitted .jni spacedScan.targets = [mixedTarget, renamedTarget] := by
  cbv

theorem registered_once_spacedScan :
    ofScan {} spacedScan = .ok (planOf {} spacedScan) ∧
      (spacedScan.targets.map Target.name).Nodup ∧
      (planOf {} spacedScan).table.byClass.map
          (fun g => (g.1, g.2.length)) =
        [(⟨"a/B"⟩, 1), (⟨"a/D"⟩, 2)] := by
  have made : ofScan {} spacedScan = .ok (planOf {} spacedScan) :=
    ofScan_eq_ok_iff.mpr ⟨rfl, by decide, rfl⟩
  have names : (spacedScan.targets.map Target.name).Nodup := by
    decide
  obtain ⟨-, sizes, -⟩ := registered_once.2 {} spacedScan _ made names
  have units : emitted ({} : Config).naming spacedScan.targets =
      [mixedTarget, renamedTarget] :=
    emitted_spacedScan
  refine ⟨made, names, sizes.trans ?_⟩
  rw [targets_report_planOf, units]
  decide

end Plan
end NativeGlue
