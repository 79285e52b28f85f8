import NativeGlue.Plan.Basic
import NativeGlue.Proofs.Stub.Balance

/-!
# Plans have balanced stubs

Every stub of a plan is lowered from a mapped method, so the audits that are
made before a plan is complete find nothing. What they list as ways out is
counted exactly; the one surprise is a result that is an array, which can be
returned in two ways, filled or null.
-/

namespace NativeGlue

open Stub

/-- Every stub of a signed target has a lowered body, and a clean audit. -/
theorem isClean_of_mem_lowerTarget {s : SignedTarget}
    {exceptionClass : String} {lowered : LoweredStub}
    (member : lowered ∈ Lowering.lowerTarget s exceptionClass) :
    lowered.stub.audit.isClean = true := by
  simp only [Lowering.lowerTarget, List.mem_map] at member
  obtain ⟨⟨⟨m, signature⟩, implementation⟩, -, rfl⟩ := member
  rw [Lowering.audit_eq_of_body _ s.target.name m
    (Lowering.spaceOf s.target m.method) implementation exceptionClass rfl]
  rfl

theorem SourceUnit.unbalanced?_ofTarget (options : EmitOptions)
    (s : SignedTarget) :
    (SourceUnit.ofTarget options s).unbalanced? = none := by
  have clean : ∀ x ∈ (SourceUnit.ofTarget options s).audits,
      x.2.isClean = true := by
    intro x member
    obtain ⟨lowered, inside, rfl⟩ := List.mem_map.mp member
    exact isClean_of_mem_lowerTarget inside
  rw [SourceUnit.unbalanced?, SourceUnit.firstUnbalanced?,
    Option.map_eq_none_iff, List.find?_eq_none]
  intro x member
  simp [clean x member]

theorem SourceUnit.findSome?_unbalanced? (options : EmitOptions)
    (signed : List SignedTarget) :
    (signed.map (SourceUnit.ofTarget options)).findSome?
      SourceUnit.unbalanced? = none := by
  rw [List.findSome?_eq_none_iff]
  intro unit member
  obtain ⟨s, -, rfl⟩ := List.mem_map.mp member
  exact SourceUnit.unbalanced?_ofTarget options s

/-- A plan does not fail for an unbalanced stub. -/
theorem Plan.ofScan_ne_unbalanced (config : Config) (scan : Scan)
    (u : Unbalanced) :
    Plan.ofScan config scan ≠ .error (.unbalanced u) := by
  intro failed
  simp only [Plan.ofScan, SourceUnit.findSome?_unbalanced?] at failed
  split at failed
  · cases failed
  · split at failed <;> cases failed

namespace Lowering

/--
The audit of a stub lowered from a method that is mapped finds no violation,
and its ways out are exactly these, none of which leaks. With `n` owned
parameters, `g` of them objects, and `made` resources for the result:

* one for each owned parameter that is checked for null, with nothing acquired;
* for each `k` below `n`, one on which the argument after `k` others cannot be
  acquired, and these are released;
* one to the normal exit, or two alike if the result is an array;
* one from each of the two handlers.

So a plan is never refused for an unbalanced stub.
-/
theorem audit_lower_and_plan_balanced :
    (∀ (t : Target) (m : Method) (mapped : MappedMethod),
      Mapping.mapMethod t.name m = .ok mapped →
      ∀ (signature : Signature) (implementation exceptionClass : String),
        let audit :=
          (lower t mapped signature implementation exceptionClass).stub.audit
        let n := mapped.ownedParams.length
        let g := mapped.ownedParams.countP fun (_, p) => isOwnedObject p
        let made := resultsMade m.descriptor.ret
        audit.violations = [] ∧
          audit.paths =
            List.replicate
                (mapped.ownedParams.countP fun (i, _) => m.nullChecked i)
                ⟨.nullArgument, 0, 0, 0, []⟩
              ++ (List.range n).map (fun k => ⟨.acquireFailed, k, k, 0, []⟩)
              ++ (List.replicate (returnWays m.descriptor.ret)
                  ⟨.normal, n + made, n - g, g + made, []⟩
                ++ List.replicate 2 ⟨.nativeException, n, n - g, g, []⟩)) ∧
      ∀ (config : Config) (scan : Scan) (u : Unbalanced),
        Plan.ofScan config scan ≠ .error (.unbalanced u) := by
  refine ⟨?_, Plan.ofScan_ne_unbalanced⟩
  intro t m mapped accepted signature implementation exceptionClass
    audit n g made
  have eq : audit = ⟨exitsOfMethod mapped, []⟩ :=
    audit_eq_of_body _ t.name mapped (spaceOf t mapped.method)
      implementation exceptionClass rfl
  rw [exitsOfMethod_of_mapMethod accepted] at eq
  exact ⟨congrArg Audit.violations eq, congrArg Audit.paths eq⟩

/-- A method with arguments of each kind, whose result is an array. -/
def mixedMethod : Method where
  name := "mix"
  nativeName := "mix"
  space := none
  descriptor :=
    ⟨[.string, .primitive .int, .object ⟨"a/B"⟩, .array (.primitive .long) 1],
      .array (.primitive .int) 1⟩
  flags := ⟨true, true, false⟩
  uncheckedParams := [3]
  overloadIndex := none

/-- The mapped form of `mixedMethod`. -/
def mixedMapped : MappedMethod where
  method := mixedMethod
  params :=
    [⟨.string, "jstring", "const char*", .owned, .string⟩,
      ⟨.primitive .int, "jint", "std::int32_t", .byValue, .primitive .int⟩,
      ⟨.object ⟨"a/B"⟩, "jobject", "jnibridge::GlobalRef", .owned,
        .object true⟩,
      ⟨.array (.primitive .long) 1, "jlongArray", "jnibridge::Span<jlong>",
        .owned, .array .long⟩]
  ret :=
    ⟨.array (.primitive .int) 1, "jintArray", "std::vector<jint>", .owned,
      .array .int⟩

def mixedTarget : Target where
  name := ⟨"a/C"⟩
  methods := [mixedMethod]

theorem mapMethod_mixedMethod :
    Mapping.mapMethod mixedTarget.name mixedMethod = .ok mixedMapped := by
  decide

theorem audit_lower_mixedMethod :
    Mapping.mapMethod mixedTarget.name mixedMethod = .ok mixedMapped ∧
      (lower mixedTarget mixedMapped default "mix" "a/E").stub.audit.paths =
        [⟨.nullArgument, 0, 0, 0, []⟩, ⟨.nullArgument, 0, 0, 0, []⟩,
          ⟨.acquireFailed, 0, 0, 0, []⟩, ⟨.acquireFailed, 1, 1, 0, []⟩,
          ⟨.acquireFailed, 2, 2, 0, []⟩,
          ⟨.normal, 4, 2, 2, []⟩, ⟨.normal, 4, 2, 2, []⟩,
          ⟨.nativeException, 3, 2, 1, []⟩, ⟨.nativeException, 3, 2, 1, []⟩] :=
  ⟨mapMethod_mixedMethod,
    (audit_lower_and_plan_balanced.1 mixedTarget mixedMethod mixedMapped
      mapMethod_mixedMethod default "mix" "a/E").2⟩

/-- A stub does not always have just one way to the normal exit. -/
theorem not_one_normal_path :
    ¬ ∀ (t : Target) (m : Method) (mapped : MappedMethod),
      Mapping.mapMethod t.name m = .ok mapped →
      ∀ (signature : Signature) (implementation exceptionClass : String),
        ((lower t mapped signature implementation
          exceptionClass).stub.audit.pathsOf .normal).length = 1 := by
  intro one
  have count := one mixedTarget mixedMethod mixedMapped mapMethod_mixedMethod
    default "mix" "a/E"
  rw [audit_eq_of_body _ mixedTarget.name mixedMapped
    (spaceOf mixedTarget mixedMethod) "mix" "a/E" rfl] at count
  revert count
  decide

end Lowering
end NativeGlue
