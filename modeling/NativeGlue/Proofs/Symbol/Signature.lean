import NativeGlue.Symbol.Signature
import NativeGlue.Proofs.Symbol.Naming
import NativeGlue.Proofs.Symbol.Overload

/-!
# Signing a target

A target is signed if its methods are ranked and the registry holds none of
its entry points yet. Within a target of legal names that is ranked, entry
points never meet: under the two schemes of the virtual machine because
symbols tell the parameters of overloaded methods, and under the third because
the places in a group differ.
-/

namespace NativeGlue

namespace Registry

/-- The names that are claimed. -/
def entryPoints (r : Registry) : List String :=
  r.claims.map Prod.fst

theorem owner?_eq_none_iff {r : Registry} {entryPoint : String} :
    r.owner? entryPoint = none ↔ entryPoint ∉ r.entryPoints := by
  rw [owner?, List.lookup_eq_none_iff, entryPoints, List.mem_map]
  simp only [bne_iff_ne, not_exists, not_and]
  exact forall₂_congr fun x _ => ne_comm

/-- Pending claims hold their names as claims of the registry do. -/
theorem firstConflict?_eq (r : Registry) (pending batch : List (String × Claim)) :
    r.firstConflict? pending batch =
      (⟨r.claims ++ pending⟩ : Registry).firstConflict? [] batch := by
  induction batch generalizing r pending with
  | nil =>
      rfl
  | cons x batch ih =>
      have held : (⟨r.claims ++ pending⟩ : Registry).owner? x.1 =
          (r.owner? x.1).or (pending.lookup x.1) :=
        List.lookup_append
      simp only [firstConflict?, held, List.lookup_nil, Option.or_none]
      cases (r.owner? x.1).or (pending.lookup x.1) with
      | some existing => rfl
      | none =>
          dsimp only
          rw [ih r, ih ⟨r.claims ++ pending⟩]
          simp only [List.nil_append, List.append_assoc]

theorem firstConflict?_cons (r : Registry) (entryPoint : String)
    (claim : Claim) (batch : List (String × Claim)) :
    r.firstConflict? [] ((entryPoint, claim) :: batch) =
      match r.owner? entryPoint with
      | some existing => some ⟨entryPoint, claim, existing⟩
      | none =>
          (⟨r.claims ++ [(entryPoint, claim)]⟩ : Registry).firstConflict? []
            batch := by
  rw [firstConflict?, List.lookup_nil, Option.or_none]
  cases r.owner? entryPoint with
  | some existing => rfl
  | none => exact firstConflict?_eq r _ batch

/-- There is no conflict if all names are new and each is there once. -/
theorem firstConflict?_eq_none_iff {r : Registry}
    {batch : List (String × Claim)} :
    r.firstConflict? [] batch = none ↔
      (batch.map Prod.fst).Nodup ∧ ∀ x ∈ batch, x.1 ∉ r.entryPoints := by
  induction batch generalizing r with
  | nil =>
      simp [firstConflict?]
  | cons x batch ih =>
      obtain ⟨entryPoint, claim⟩ := x
      rw [firstConflict?_cons, List.map_cons, List.nodup_cons,
        List.forall_mem_cons]
      cases owner : r.owner? entryPoint with
      | some existing =>
          have held : entryPoint ∈ r.entryPoints := by
            by_contra free
            rw [owner?_eq_none_iff.mpr free] at owner
            cases owner
          simp [held]
      | none =>
          have free := owner?_eq_none_iff.mp owner
          simp only [ih, entryPoints, List.map_append, List.mem_append,
            List.map_cons, List.map_nil, List.mem_singleton, not_or]
          constructor
          · rintro ⟨nodup, new⟩
            refine ⟨⟨fun member => ?_, nodup⟩, free, fun y inside =>
              (new y inside).1⟩
            obtain ⟨y, inside, same⟩ := List.mem_map.mp member
            exact (new y inside).2 same
          · rintro ⟨⟨once, nodup⟩, -, new⟩
            refine ⟨nodup, fun y inside => ⟨new y inside, ?_⟩⟩
            rintro rfl
            exact once (List.mem_map.mpr ⟨y, inside, rfl⟩)

variable {r r' : Registry} {batch : List (String × Claim)} {c : Conflict}

/-- A batch is claimed if its names are new and each is there once. -/
theorem claimAll_eq_ok_iff :
    r.claimAll batch = (.ok (), r') ↔
      (batch.map Prod.fst).Nodup ∧ (∀ x ∈ batch, x.1 ∉ r.entryPoints) ∧
        r' = ⟨r.claims ++ batch⟩ := by
  rw [← and_assoc, ← firstConflict?_eq_none_iff, claimAll]
  cases r.firstConflict? [] batch <;> simp [eq_comm]

/-- A batch that is refused leaves the registry as it was. -/
theorem claimAll_eq_error_iff_firstConflict? :
    r.claimAll batch = (.error c, r') ↔
      r.firstConflict? [] batch = some c ∧ r' = r := by
  rw [claimAll]
  cases r.firstConflict? [] batch <;> simp [eq_comm]

end Registry

namespace SignedTarget

variable {naming : NamingScheme} {registry registry' : Registry}
  {mapped : MappedTarget} {s : SignedTarget}

/-- A target is signed if it is ranked and its claims are accepted. -/
theorem sign_eq_ok_iff :
    sign naming registry mapped = (.ok s, registry') ↔
      ∃ ranks, Overload.ranks mapped.target.name mapped.target.methods =
          .ok ranks ∧
        s = ofRanks naming mapped ranks ∧
        registry.claimAll s.claims = (.ok (), registry') := by
  rw [sign]
  cases Overload.ranks mapped.target.name mapped.target.methods with
  | error e => simp
  | ok ranks =>
      simp only [Except.ok.injEq, exists_eq_left']
      rcases claimed :
        registry.claimAll (ofRanks naming mapped ranks).claims with
        ⟨result, after⟩
      cases result with
      | error conflict =>
          constructor
          · rintro ⟨⟩
          · rintro ⟨rfl, accepted⟩
            rw [claimed] at accepted
            cases accepted
      | ok _ =>
          constructor
          · rintro ⟨⟩
            exact ⟨rfl, claimed⟩
          · rintro ⟨rfl, accepted⟩
            rw [claimed] at accepted
            cases accepted
            rfl

/-- A target that is turned away holds no names. -/
theorem registry_eq_of_sign_eq_error {c : Collision}
    (rejected : sign naming registry mapped = (.error c, registry')) :
    registry' = registry := by
  rw [sign] at rejected
  split at rejected
  · cases rejected
    rfl
  · dsimp only at rejected
    split at rejected
    · rename_i claimed
      cases rejected
      exact (Registry.claimAll_eq_error_iff_firstConflict?.mp claimed).2
    · cases rejected

theorem claims_ofRanks (naming : NamingScheme) (mapped : MappedTarget)
    (ranks : List Overload.Rank) :
    (ofRanks naming mapped ranks).claims =
      mapped.methods.map fun m =>
        (naming.entryPoint mapped.target.name m.method.name
            m.method.descriptor (Overload.indexOf ranks m.method),
          ⟨mapped.target.name, m.method.name, m.method.descriptor.encode⟩) := by
  rw [claims, ofRanks, List.map_map]
  rfl

end SignedTarget

/-- A target with a legal name and legal methods. -/
structure Target.Legal (t : Target) : Prop where
  name : t.name.Legal
  methods : ∀ m ∈ t.methods, m.Legal

instance (t : Target) : Decidable t.Legal :=
  decidable_of_iff (t.name.Legal ∧ ∀ m ∈ t.methods, m.Legal)
    ⟨fun ⟨name, methods⟩ => ⟨name, methods⟩,
      fun ⟨name, methods⟩ => ⟨name, methods⟩⟩

theorem Target.Legal.canonical {t : Target} (legal : t.Legal) :
    Overload.Canonical t.methods := by
  intro m member
  obtain ⟨s, parsed⟩ := (legal.methods m member).parsed
  exact (MethodDescriptor.parse_eq_ok_iff.mp parsed).1

namespace NamingScheme

/-- The parameters that the symbol of a method tells. -/
def params? (naming : NamingScheme) (d : MethodDescriptor)
    (index : Option Nat) : Option String :=
  match naming, index with
  | jniLong, _ | jni, some _ => some d.encodeParams
  | _, _ => none

/-- The schemes of the virtual machine name methods by what symbols tell. -/
theorem entryPoint_eq_nameWith {naming : NamingScheme}
    (resolved : naming ≠ .indexed) (owner : ClassName) (method : String)
    (d : MethodDescriptor) (index : Option Nat) :
    naming.entryPoint owner method d index =
      Symbol.nameWith owner method (naming.params? d index) := by
  cases naming with
  | jni => cases index <;> rfl
  | jniLong => rfl
  | indexed => exact absurd rfl resolved

theorem entryPoint_indexed (owner : ClassName) (method : String)
    (d : MethodDescriptor) (index : Option Nat) :
    indexed.entryPoint owner method d index =
      Symbol.numbered owner method index := by
  cases index <;> rfl

theorem eq_encodeParams_of_mem_params? {naming : NamingScheme}
    {d : MethodDescriptor} {index : Option Nat} {params : String}
    (member : params ∈ naming.params? d index) :
    params = d.encodeParams := by
  cases naming <;> cases index <;> cases member <;> rfl

end NamingScheme

namespace Target.Legal

variable {naming : NamingScheme} {t t' : Target} {m m' : Method}
  {mapped mapped' : MappedMethod}

/-- Symbols of mapped methods tell all that the scheme puts into them. -/
theorem entryPoint_inj (resolved : naming ≠ .indexed)
    (legal : t.Legal) (member : m ∈ t.methods)
    (accepted : Mapping.mapMethod t.name m = .ok mapped)
    (legal' : t'.Legal) (member' : m' ∈ t'.methods)
    (accepted' : Mapping.mapMethod t'.name m' = .ok mapped')
    {i j : Option Nat}
    (eq : naming.entryPoint t.name m.name m.descriptor i =
      naming.entryPoint t'.name m'.name m'.descriptor j) :
    t.name = t'.name ∧ m.name = m'.name ∧
      naming.params? m.descriptor i = naming.params? m'.descriptor j := by
  have method := legal.methods m member
  have method' := legal'.methods m' member'
  rw [NamingScheme.entryPoint_eq_nameWith resolved,
    NamingScheme.entryPoint_eq_nameWith resolved] at eq
  refine Symbol.nameWith_inj legal.name method.name ?_ legal'.name
    method'.name ?_ eq
  · intro params told
    rw [NamingScheme.eq_encodeParams_of_mem_params? told]
    exact Symbol.plainParams_of_mapMethod method accepted
  · intro params told
    rw [NamingScheme.eq_encodeParams_of_mem_params? told]
    exact Symbol.plainParams_of_mapMethod method' accepted'

/-- Methods of a ranked target that do not clash have different symbols. -/
theorem entryPoint_ne {ranks : List Overload.Rank} (legal : t.Legal)
    (ranked : Overload.ranks t.name t.methods = .ok ranks)
    (few : naming = .indexed → t.methods.length ≤ Overload.maxIndex)
    (member : m ∈ t.methods)
    (accepted : Mapping.mapMethod t.name m = .ok mapped)
    (member' : m' ∈ t.methods)
    (accepted' : Mapping.mapMethod t.name m' = .ok mapped')
    (differ : m.name = m'.name →
      m.descriptor.params ≠ m'.descriptor.params) :
    naming.entryPoint t.name m.name m.descriptor
        (Overload.indexOf ranks m) ≠
      naming.entryPoint t.name m'.name m'.descriptor
        (Overload.indexOf ranks m') := by
  intro eq
  have other : m.name = m'.name → m ≠ m' := by
    rintro same rfl
    exact differ rfl rfl
  by_cases resolved : naming = .indexed
  · subst resolved
    rw [NamingScheme.entryPoint_indexed, NamingScheme.entryPoint_indexed]
      at eq
    obtain ⟨same, indices⟩ := Symbol.numbered_inj t.name
      (legal.methods m member).name (legal.methods m' member').name eq
    exact Overload.indexOf_ne legal.canonical ranked (few rfl) member member'
      same (other same) indices
  · obtain ⟨-, same, told⟩ := legal.entryPoint_inj resolved member accepted
      legal member' accepted' eq
    have several :=
      Overload.one_lt_length_group member member' same (other same)
    have index : Overload.indexOf ranks m ≠ none := by
      rw [Ne, Overload.indexOf_eq_none_iff legal.canonical ranked member]
      omega
    have index' : Overload.indexOf ranks m' ≠ none := by
      rw [Ne, Overload.indexOf_eq_none_iff legal.canonical ranked member',
        ← same]
      omega
    have params : m.descriptor.encodeParams = m'.descriptor.encodeParams := by
      obtain ⟨i, hi⟩ := Option.ne_none_iff_exists'.mp index
      obtain ⟨j, hj⟩ := Option.ne_none_iff_exists'.mp index'
      rw [hi, hj] at told
      cases naming with
      | jni => exact Option.some.inj told
      | jniLong => exact Option.some.inj told
      | indexed => exact absurd rfl resolved
    exact differ same ((legal.canonical m member).params_eq_of_encodeParams
      (legal.canonical m' member') params)

/-- The claims of a ranked target have different entry points. -/
theorem nodup_claims {ranks : List Overload.Rank} (legal : t.Legal)
    (ranked : Overload.ranks t.name t.methods = .ok ranks)
    (few : naming = .indexed → t.methods.length ≤ Overload.maxIndex) :
    ((SignedTarget.ofRanks naming (Mapping.mapTarget t) ranks).claims.map
      Prod.fst).Nodup := by
  have distinct := ((Overload.ranks_eq_ok_iff legal.canonical).mp ranked).1
  have differ := distinct.sublist (Mapping.map_method_mappable_sublist t)
  rw [List.pairwise_map] at differ
  rw [SignedTarget.claims_ofRanks, List.map_map, List.Nodup,
    List.pairwise_map]
  refine List.Pairwise.imp_of_mem ?_ differ
  intro a b inA inB differ
  obtain ⟨m, member, accepted⟩ := Mapping.mem_mappable.mp inA
  obtain ⟨m', member', accepted'⟩ := Mapping.mem_mappable.mp inB
  obtain rfl := (Mapping.mapMethod_eq_ok accepted).1
  obtain rfl := (Mapping.mapMethod_eq_ok accepted').1
  exact legal.entryPoint_ne ranked few member accepted member' accepted'
    differ

end Target.Legal

end NativeGlue
