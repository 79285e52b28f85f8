import NativeGlue.Proofs.Plan.Balance
import NativeGlue.Proofs.Stub.Implementation
import NativeGlue.Proofs.Symbol.Signature

/-!
# How a plan is put together

A plan fails only in a strict run that would leave out a method, or if no
method was found at all. Otherwise its table has one entry for each claim of
the targets that were signed, in their order, and no entry point is there
twice.
-/

namespace NativeGlue

section Entries

@[simp] theorem Lowering.length_lowerTarget (s : SignedTarget)
    (exceptionClass : String) :
    (lowerTarget s exceptionClass).length = s.methods.length := by
  simp [lowerTarget, implementationNames]

/-- The claim that an entry comes from. -/
def Entry.claim (e : Entry) : String × Claim :=
  (e.entryPoint, ⟨e.owner, e.method, e.descriptor⟩)

/-- The entries of a unit are the claims of its target. -/
theorem SourceUnit.map_claim_entries (options : EmitOptions)
    (s : SignedTarget) :
    (ofTarget options s).entries.map Entry.claim = s.claims := by
  have first : s.methods =
      (s.methods.zip
        (Lowering.lowerTarget s options.exceptionClass)).map Prod.fst := by
    rw [List.map_fst_zip]
    simp
  calc
    (ofTarget options s).entries.map Entry.claim =
        ((s.methods.zip
          (Lowering.lowerTarget s options.exceptionClass)).map
            Prod.fst).map
          fun x => (x.2.entryPoint,
            ⟨s.target.name, x.1.method.name, x.2.descriptor⟩) := by
      rw [ofTarget, List.map_map, List.map_map]
      rfl
    _ = s.claims := by
      rw [← first]
      rfl

end Entries

namespace Plan

section Signing

variable {naming : NamingScheme}

/-- Every signed target is one of the targets, with its ranks. -/
theorem exists_of_mem_signAll {registry : Registry}
    {mapped : List MappedTarget} {s : SignedTarget}
    (member : s ∈ (signAll naming registry mapped).1) :
    ∃ m ∈ mapped, ∃ ranks,
      Overload.ranks m.target.name m.target.methods = .ok ranks ∧
        s = SignedTarget.ofRanks naming m ranks := by
  induction mapped generalizing registry with
  | nil =>
      cases member
  | cons m rest ih =>
      have behind : ∀ {registry : Registry},
          s ∈ (signAll naming registry rest).1 →
          ∃ n ∈ m :: rest, ∃ ranks,
            Overload.ranks n.target.name n.target.methods = .ok ranks ∧
              s = SignedTarget.ofRanks naming n ranks := by
        intro registry member
        obtain ⟨n, inside, found⟩ := ih member
        exact ⟨n, List.mem_cons_of_mem m inside, found⟩
      rw [signAll] at member
      split at member
      · exact behind member
      · split at member
        · exact behind member
        · rename_i signed registry' accepted
          rcases List.mem_cons.mp member with rfl | member
          · obtain ⟨ranks, ranked, eq, -⟩ :=
              SignedTarget.sign_eq_ok_iff.mp accepted
            exact ⟨m, List.mem_cons_self, ranks, ranked, eq⟩
          · exact behind member

/-- Names are claimed once over a whole run. -/
theorem nodup_signAll {registry : Registry} {mapped : List MappedTarget}
    (nodup : registry.entryPoints.Nodup) :
    (registry.entryPoints ++
      ((signAll naming registry mapped).1.flatMap
        SignedTarget.claims).map Prod.fst).Nodup := by
  induction mapped generalizing registry with
  | nil =>
      simpa [signAll] using nodup
  | cons m rest ih =>
      rw [signAll]
      split
      · exact ih nodup
      · split
        · rename_i rejected
          rw [SignedTarget.registry_eq_of_sign_eq_error rejected]
          exact ih nodup
        · rename_i s registry' accepted
          obtain ⟨-, -, -, claimed⟩ := SignedTarget.sign_eq_ok_iff.mp accepted
          obtain ⟨once, new, rfl⟩ :=
            Registry.claimAll_eq_ok_iff.mp claimed
          have nodup' : (registry.entryPoints ++
              s.claims.map Prod.fst).Nodup := by
            refine List.Nodup.append nodup once ?_
            intro entryPoint held claimed
            obtain ⟨x, inside, rfl⟩ := List.mem_map.mp claimed
            exact new x inside held
          have all := @ih ⟨registry.claims ++ s.claims⟩
            (by rwa [Registry.entryPoints, List.map_append])
          rwa [Registry.entryPoints, List.map_append, List.append_assoc,
            ← List.map_append] at all

end Signing

/-- The plan of a scan for which nothing stands in the way of one. -/
def planOf (config : Config) (scan : Scan) : Plan :=
  let mapped := scan.targets.map Mapping.mapTarget
  let run := signAll config.naming Registry.empty mapped
  let units := run.1.map (SourceUnit.ofTarget (emitOptions config))
  let entries := units.flatMap SourceUnit.entries
  let table : Table := ⟨Table.stampOf generatorVersion entries, entries⟩
  { table
    artifacts := artifactsOf config units table
    report := reportOf config scan mapped units run.2 table }

/-- A strict run fails first; then only a scan without methods has no plan. -/
theorem ofScan_eq (config : Config) (scan : Scan) :
    ofScan config scan =
      match strictFault? config (scan.targets.map Mapping.mapTarget) with
      | some u => .error (.strict u)
      | none =>
          if scan.methodCount = 0 then .error (.emptyTable ⟨scan.classesScanned⟩)
          else .ok (planOf config scan) := by
  simp only [ofScan, SourceUnit.findSome?_unbalanced?, Table.build]
  cases strictFault? config (scan.targets.map Mapping.mapTarget) with
  | some u => rfl
  | none => by_cases found : scan.methodCount = 0 <;> simp [found, planOf]

/-- A plan is made unless a method is missing, in one way or the other. -/
theorem ofScan_eq_ok_iff {config : Config} {scan : Scan} {plan : Plan} :
    ofScan config scan = .ok plan ↔
      strictFault? config (scan.targets.map Mapping.mapTarget) = none ∧
        scan.methodCount ≠ 0 ∧ plan = planOf config scan := by
  rw [ofScan_eq]
  cases strictFault? config (scan.targets.map Mapping.mapTarget) with
  | some u => simp
  | none => by_cases found : scan.methodCount = 0 <;> simp [found, eq_comm]

/-- The rows of a table are the claims of the targets that were signed. -/
theorem map_claim_entries (config : Config) (scan : Scan) :
    (planOf config scan).table.entries.map Entry.claim =
      (signAll config.naming Registry.empty
        (scan.targets.map Mapping.mapTarget)).1.flatMap
          SignedTarget.claims := by
  change (List.flatMap SourceUnit.entries
    (List.map (SourceUnit.ofTarget (emitOptions config)) _)).map
      Entry.claim = _
  rw [List.map_flatMap, List.flatMap_map]
  simp only [SourceUnit.map_claim_entries]

theorem map_entryPoint_entries (config : Config) (scan : Scan) :
    (planOf config scan).table.entries.map Entry.entryPoint =
      ((signAll config.naming Registry.empty
        (scan.targets.map Mapping.mapTarget)).1.flatMap
          SignedTarget.claims).map Prod.fst := by
  rw [← map_claim_entries, List.map_map]
  rfl

/-- No entry point is in a table twice. -/
theorem nodup_entryPoints (config : Config) (scan : Scan) :
    ((planOf config scan).table.entries.map Entry.entryPoint).Nodup := by
  have nodup : Registry.empty.entryPoints.Nodup := List.nodup_nil
  rw [map_entryPoint_entries]
  exact (nodup_signAll nodup).of_append_right

end Plan

/-- An entry for a method of a target that is ranked. -/
structure Entry.IsFor (naming : NamingScheme) (t : Target)
    (ranks : List Overload.Rank) (m : Method) (e : Entry) : Prop where
  ranked : Overload.ranks t.name t.methods = .ok ranks
  member : m ∈ t.methods
  accepted : ∃ mapped, Mapping.mapMethod t.name m = .ok mapped
  owner : e.owner = t.name
  method : e.method = m.name
  descriptor : e.descriptor = m.descriptor.encode
  entryPoint : e.entryPoint =
    naming.entryPoint t.name m.name m.descriptor
      (Overload.indexOf ranks m)

/-- Every entry of a table is for a method of a target of the scan. -/
theorem Plan.exists_isFor {config : Config} {scan : Scan} {e : Entry}
    (member : e ∈ (planOf config scan).table.entries) :
    ∃ t ∈ scan.targets, ∃ ranks m, e.IsFor config.naming t ranks m := by
  have row : e.claim ∈ (signAll config.naming Registry.empty
      (scan.targets.map Mapping.mapTarget)).1.flatMap
        SignedTarget.claims := by
    rw [← map_claim_entries]
    exact List.mem_map_of_mem member
  obtain ⟨s, signed, claimed⟩ := List.mem_flatMap.mp row
  obtain ⟨n, mapped, ranks, ranked, rfl⟩ := exists_of_mem_signAll signed
  obtain ⟨t, target, rfl⟩ := List.mem_map.mp mapped
  rw [SignedTarget.claims_ofRanks] at claimed
  obtain ⟨a, inside, eq⟩ := List.mem_map.mp claimed
  obtain ⟨m, within, accepted⟩ := Mapping.mem_mappable.mp inside
  obtain rfl := (Mapping.mapMethod_eq_ok accepted).1
  simp only [Entry.claim, Prod.mk.injEq, Claim.mk.injEq] at eq
  obtain ⟨entryPoint, owner, method, descriptor⟩ := eq
  exact ⟨t, target, ranks, a.method, ranked, within, ⟨a, accepted⟩,
    owner.symm, method.symm, descriptor.symm, entryPoint.symm⟩

end NativeGlue
