import Mathlib
import NativeGlue.Proofs.Plan.Signing

/-!
# Entry points and the look-up of the virtual machine

The virtual machine looks for a native method under its short symbol first,
and under its long symbol if there is no function with the short one. In the
table of a plan for legal names this finds every method's own function. What
could go wrong is a short symbol that is there for another method; such a
method has the same class and name, so it is in the group of the method that
is looked for, and then both have long symbols.
-/

namespace NativeGlue

/--
The function that the virtual machine finds for a native method among those
that are defined.
-/
def Symbol.resolve? (defined : List String) (owner : ClassName)
    (method params : String) : Option String :=
  let short := shortName owner.internal method
  let long := longName owner.internal method params
  if defined.contains short then some short
  else if defined.contains long then some long
  else none

/-- A scan with classes of different legal names and with legal methods. -/
structure Scan.Legal (scan : Scan) : Prop where
  distinct : (scan.targets.map Target.name).Nodup
  targets : ∀ t ∈ scan.targets, t.Legal

instance (scan : Scan) : Decidable scan.Legal :=
  decidable_of_iff
    ((scan.targets.map Target.name).Nodup ∧ ∀ t ∈ scan.targets, t.Legal)
    ⟨fun ⟨distinct, targets⟩ => ⟨distinct, targets⟩,
      fun ⟨distinct, targets⟩ => ⟨distinct, targets⟩⟩

/-- A target of a legal scan is known by its name. -/
theorem Scan.Legal.eq_of_name_eq {scan : Scan} (legal : scan.Legal)
    {t t' : Target} (member : t ∈ scan.targets) (member' : t' ∈ scan.targets)
    (same : t.name = t'.name) : t = t' :=
  List.inj_on_of_nodup_map legal.distinct member member' same

namespace Entry.IsFor

variable {naming : NamingScheme} {t t' : Target}
  {ranks ranks' : List Overload.Rank} {m m' : Method} {e e' : Entry}

theorem entryPoint_eq_nameWith (isFor : e.IsFor naming t ranks m)
    (resolved : naming ≠ .indexed) :
    e.entryPoint = Symbol.nameWith e.owner e.method
      (naming.params? m.descriptor (Overload.indexOf ranks m)) := by
  rw [isFor.entryPoint, isFor.owner, isFor.method,
    NamingScheme.entryPoint_eq_nameWith resolved]

theorem parse_descriptor (isFor : e.IsFor naming t ranks m)
    (legal : t.Legal) :
    MethodDescriptor.parse e.descriptor = .ok m.descriptor := by
  rw [isFor.descriptor]
  exact (legal.canonical m isFor.member).parse_encode

/--
If the short symbol of an entry's method is there at all, it is the symbol of
this entry.
-/
theorem entryPoint_eq_shortName {scan : Scan} (legal : scan.Legal)
    (resolved : naming ≠ .indexed)
    (target : t ∈ scan.targets) (isFor : e.IsFor naming t ranks m)
    (target' : t' ∈ scan.targets) (isFor' : e'.IsFor naming t' ranks' m')
    (short : e'.entryPoint = Symbol.shortName e.owner.internal e.method) :
    e.entryPoint = Symbol.shortName e.owner.internal e.method := by
  have legalT := legal.targets t target
  have legalT' := legal.targets t' target'
  obtain ⟨mapped', accepted'⟩ := isFor'.accepted
  rw [isFor'.entryPoint_eq_nameWith resolved, isFor'.owner, isFor'.method,
    isFor.owner, isFor.method] at short
  have parts : t'.name = t.name ∧ m'.name = m.name ∧
      naming.params? m'.descriptor (Overload.indexOf ranks' m') = none := by
    have method := legalT.methods m isFor.member
    have method' := legalT'.methods m' isFor'.member
    refine Symbol.nameWith_inj legalT'.name method'.name ?_ legalT.name
      method.name ?_ short
    · intro params told
      rw [NamingScheme.eq_encodeParams_of_mem_params? told]
      exact Symbol.plainParams_of_mapMethod method' accepted'
    · intro params told
      cases told
  obtain ⟨owners, methods, untold⟩ := parts
  obtain rfl := legal.eq_of_name_eq target' target owners
  obtain rfl : ranks = ranks' :=
    Except.ok.inj (isFor.ranked.symm.trans isFor'.ranked)
  rw [isFor.entryPoint_eq_nameWith resolved]
  cases naming with
  | indexed => exact absurd rfl resolved
  | jniLong => cases untold
  | jni =>
      have alone : Overload.indexOf ranks m' = none := by
        cases index : Overload.indexOf ranks m' with
        | none => rfl
        | some i =>
            rw [index] at untold
            cases untold
      rw [Overload.indexOf_eq_none_iff legalT.canonical isFor'.ranked
        isFor'.member, methods, ← Overload.indexOf_eq_none_iff
          legalT.canonical isFor.ranked isFor.member] at alone
      rw [alone]
      rfl

end Entry.IsFor

/-- Looking up the method of an entry finds the function of this entry. -/
theorem Plan.resolve?_of_mem {config : Config} {scan : Scan}
    (resolved : config.naming ≠ .indexed) (legal : scan.Legal) {e : Entry}
    (member : e ∈ (planOf config scan).table.entries) :
    ∃ d, MethodDescriptor.parse e.descriptor = .ok d ∧
      Symbol.resolve?
        ((planOf config scan).table.entries.map Entry.entryPoint)
        e.owner e.method d.encodeParams = some e.entryPoint := by
  obtain ⟨t, target, ranks, m, isFor⟩ := exists_isFor member
  refine ⟨m.descriptor, isFor.parse_descriptor (legal.targets t target), ?_⟩
  have defined := List.mem_map_of_mem (f := Entry.entryPoint) member
  rw [Symbol.resolve?]
  simp only [List.contains_iff_mem]
  split
  · rename_i short
    obtain ⟨e', member', eq⟩ := List.mem_map.mp short
    obtain ⟨t', target', ranks', m', isFor'⟩ := exists_isFor member'
    rw [isFor.entryPoint_eq_shortName legal resolved target target' isFor' eq]
  · rename_i missing
    have long : e.entryPoint = Symbol.longName e.owner.internal e.method
        m.descriptor.encodeParams := by
      rw [isFor.entryPoint_eq_nameWith resolved] at defined ⊢
      cases told : config.naming.params? m.descriptor
          (Overload.indexOf ranks m) with
      | none =>
          rw [told] at defined
          exact absurd defined missing
      | some params =>
          rw [NamingScheme.eq_encodeParams_of_mem_params? told]
          rfl
    rw [← long, if_pos defined]

namespace Plan

/--
For a scan with different legal class names and legal methods, under either
scheme of the virtual machine, every entry of the table is found: looking up
its class, method and parameters gives the entry point of this entry, and no
other entry has it.
-/
theorem entries_resolve {config : Config} {scan : Scan} {plan : Plan}
    (scheme : config.naming = .jni ∨ config.naming = .jniLong)
    (legal : scan.Legal) (made : ofScan config scan = .ok plan) :
    (plan.table.entries.map Entry.entryPoint).Nodup ∧
      ∀ e ∈ plan.table.entries,
        ∃ d, MethodDescriptor.parse e.descriptor = .ok d ∧
          Symbol.resolve? (plan.table.entries.map Entry.entryPoint)
            e.owner e.method d.encodeParams = some e.entryPoint := by
  obtain ⟨-, -, rfl⟩ := ofScan_eq_ok_iff.mp made
  have resolved : config.naming ≠ .indexed := by
    rcases scheme with scheme | scheme <;> simp [scheme]
  exact ⟨nodup_entryPoints config scan, fun e member =>
    resolve?_of_mem resolved legal member⟩

/--
A scan of two classes, one of which has overloads. The overload with an array
of arrays is not mapped, and still the other one has a long symbol.
-/
def overloadedScan : Scan where
  targets :=
    [{ name := ⟨"a/b"⟩
       methods :=
        [.ofName "c" ⟨[.primitive .int], .void⟩ ⟨true, false, false⟩,
          .ofName "c" ⟨[.array (.primitive .int) 2], .void⟩
            ⟨true, false, false⟩,
          .ofName "_c" ⟨[.string], .primitive .int⟩ ⟨false, false, false⟩] },
      { name := ⟨"a"⟩
        methods :=
          [.ofName "b" ⟨[.object ⟨"a/b"⟩], .void⟩ ⟨true, false, false⟩] }]
  classesScanned := 2

theorem entries_resolve_overloaded :
    overloadedScan.Legal ∧
      ofScan {} overloadedScan = .ok (planOf {} overloadedScan) ∧
      (planOf {} overloadedScan).table.entries.map Entry.entryPoint =
        ["Java_a_b_c__I", "Java_a_b__1c", "Java_a_b"] ∧
      ∀ e ∈ (planOf {} overloadedScan).table.entries,
        ∃ d, MethodDescriptor.parse e.descriptor = .ok d ∧
          Symbol.resolve? ["Java_a_b_c__I", "Java_a_b__1c", "Java_a_b"]
            e.owner e.method d.encodeParams = some e.entryPoint := by
  have legal : overloadedScan.Legal := by decide
  have made : ofScan {} overloadedScan = .ok (planOf {} overloadedScan) :=
    ofScan_eq_ok_iff.mpr ⟨rfl, by decide, rfl⟩
  have names : (planOf {} overloadedScan).table.entries.map
      Entry.entryPoint = ["Java_a_b_c__I", "Java_a_b__1c", "Java_a_b"] := by
    rw [map_entryPoint_entries]
    cbv
  have found := (entries_resolve (.inl rfl) legal made).2
  rw [names] at found
  exact ⟨legal, made, names, found⟩

end Plan

end NativeGlue
