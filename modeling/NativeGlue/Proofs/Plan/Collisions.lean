import NativeGlue.Proofs.Plan.Resolution

/-!
# Which classes collide

A class is turned away for one reason only, if its names are legal and no
other class has its name: two of its methods share name and parameter types.
Entry points of different classes never meet under the schemes of the virtual
machine, and those of one class never meet once it is ranked, so the registry
accepts whatever has been ranked.
-/

namespace NativeGlue

/-- Two methods, at different places, share name and parameter types. -/
def Target.Clashes (t : Target) : Prop :=
  ∃ a b, [a, b].Sublist t.methods ∧ a.name = b.name ∧
    a.descriptor.params = b.descriptor.params

theorem Target.clashes_iff {t : Target} :
    t.Clashes ↔ ¬ Overload.Distinct t.methods := by
  rw [Overload.Distinct, List.pairwise_iff_forall_sublist, Target.Clashes]
  push Not
  rfl

namespace SignedTarget

variable {naming : NamingScheme} {registry : Registry} {t : Target}

/-- A target without clashes is signed if the registry has none of its names. -/
theorem sign_of_distinct (legal : t.Legal)
    (few : naming = .indexed → t.methods.length ≤ Overload.maxIndex)
    (distinct : Overload.Distinct t.methods)
    (free : ∀ ranks, Overload.ranks t.name t.methods = .ok ranks →
      ∀ x ∈ (ofRanks naming (Mapping.mapTarget t) ranks).claims,
        x.1 ∉ registry.entryPoints) :
    ∃ ranks, Overload.ranks t.name t.methods = .ok ranks ∧
      sign naming registry (Mapping.mapTarget t) =
        (.ok (ofRanks naming (Mapping.mapTarget t) ranks),
          ⟨registry.claims
            ++ (ofRanks naming (Mapping.mapTarget t) ranks).claims⟩) := by
  have ranked : Overload.ranks t.name t.methods = .ok _ :=
    (Overload.ranks_eq_ok_iff legal.canonical).mpr ⟨distinct, rfl⟩
  have claimed := Registry.claimAll_eq_ok_iff.mpr
    ⟨legal.nodup_claims ranked few, free _ ranked, rfl⟩
  exact ⟨_, ranked, sign_eq_ok_iff.mpr ⟨_, ranked, rfl, claimed⟩⟩

/-- A target with a clash is turned away because of it. -/
theorem sign_of_not_distinct (naming : NamingScheme) (registry : Registry)
    (legal : t.Legal) (clash : ¬ Overload.Distinct t.methods) :
    ∃ c, sign naming registry (Mapping.mapTarget t) = (.error c, registry) ∧
      c.owner = t.name ∧ ∃ other, c.clash = .sameParams other := by
  cases ranked : Overload.ranks t.name t.methods with
  | ok ranks =>
      have distinct :=
        ((Overload.ranks_eq_ok_iff legal.canonical).mp ranked).1
      exact absurd distinct clash
  | error c =>
      have rejected : sign naming registry (Mapping.mapTarget t) =
          (.error c, registry) := by
        rw [sign]
        simp only [Mapping.mapTarget, ranked]
      exact ⟨c, rejected, Overload.ranks_eq_error ranked⟩

end SignedTarget

namespace Plan

/-- Whether a target has something to sign and cannot be signed. -/
def isTurnedAway (t : Target) : Bool :=
  !(Mapping.mapTarget t).methods.isEmpty
    && !decide (Overload.Distinct t.methods)

/-- Two targets whose entry points never meet. -/
def Apart (naming : NamingScheme) (t t' : Target) : Prop :=
  ∀ ranks ranks', Overload.ranks t.name t.methods = .ok ranks →
    Overload.ranks t'.name t'.methods = .ok ranks' →
    ∀ x ∈ (SignedTarget.ofRanks naming (Mapping.mapTarget t) ranks).claims,
      ∀ y ∈ (SignedTarget.ofRanks naming (Mapping.mapTarget t')
        ranks').claims, x.1 ≠ y.1

/-- Classes of different names are apart under a resolved scheme. -/
theorem apart_of_name_ne {naming : NamingScheme} {t t' : Target}
    (resolved : naming ≠ .indexed) (legal : t.Legal) (legal' : t'.Legal)
    (differ : t.name ≠ t'.name) : Apart naming t t' := by
  intro ranks ranks' _ _ x inX y inY same
  rw [SignedTarget.claims_ofRanks] at inX inY
  obtain ⟨a, inA, rfl⟩ := List.mem_map.mp inX
  obtain ⟨b, inB, rfl⟩ := List.mem_map.mp inY
  obtain ⟨m, member, accepted⟩ := Mapping.mem_mappable.mp inA
  obtain ⟨m', member', accepted'⟩ := Mapping.mem_mappable.mp inB
  obtain rfl := (Mapping.mapMethod_eq_ok accepted).1
  obtain rfl := (Mapping.mapMethod_eq_ok accepted').1
  exact differ (legal.entryPoint_inj resolved member accepted legal' member'
    accepted' same).1

/--
Where targets are apart from each other and from the registry, those with a
clash are turned away, in order, and no others.
-/
theorem signAll_collisions {naming : NamingScheme} {ts : List Target}
    {registry : Registry} (legal : ∀ t ∈ ts, t.Legal)
    (few : ∀ t ∈ ts, naming = .indexed →
      t.methods.length ≤ Overload.maxIndex)
    (free : ∀ t ∈ ts, ∀ ranks, Overload.ranks t.name t.methods = .ok ranks →
      ∀ x ∈ (SignedTarget.ofRanks naming (Mapping.mapTarget t) ranks).claims,
        x.1 ∉ registry.entryPoints)
    (apart : ts.Pairwise (Apart naming)) :
    (signAll naming registry (ts.map Mapping.mapTarget)).2.map
        Collision.owner = (ts.filter isTurnedAway).map Target.name ∧
      ∀ c ∈ (signAll naming registry (ts.map Mapping.mapTarget)).2,
        ∃ other, c.clash = .sameParams other := by
  induction ts generalizing registry with
  | nil =>
      simp [signAll]
  | cons t ts ih =>
      rw [List.forall_mem_cons] at legal few free
      rw [List.pairwise_cons] at apart
      rw [List.map_cons, signAll]
      by_cases empty : (Mapping.mapTarget t).methods.isEmpty = true
      · have stays : isTurnedAway t = false := by simp [isTurnedAway, empty]
        rw [if_pos empty, List.filter_cons_of_neg (by simp [stays])]
        exact ih legal.2 few.2 free.2 apart.2
      · rw [if_neg empty]
        by_cases distinct : Overload.Distinct t.methods
        · obtain ⟨ranks, ranked, signed⟩ := SignedTarget.sign_of_distinct
            legal.1 few.1 distinct free.1
          have stays : isTurnedAway t = false := by
            simp [isTurnedAway, distinct]
          rw [signed, List.filter_cons_of_neg (by simp [stays])]
          refine ih legal.2 few.2 ?_ apart.2
          intro t' member ranks' ranked' x inside held
          rw [Registry.entryPoints, List.map_append, List.mem_append] at held
          rcases held with held | held
          · exact free.2 t' member ranks' ranked' x inside held
          · obtain ⟨y, inY, same⟩ := List.mem_map.mp held
            exact apart.1 t' member ranks ranks' ranked ranked' y inY x inside
              same
        · obtain ⟨c, rejected, owner, clash⟩ :=
            SignedTarget.sign_of_not_distinct naming registry legal.1 distinct
          have turned : isTurnedAway t = true := by
            simp [isTurnedAway, empty, distinct]
          obtain ⟨owners, clashes⟩ := ih legal.2 few.2 free.2 apart.2
          rw [rejected, List.filter_cons_of_pos turned]
          refine ⟨?_, ?_⟩
          · simp only [List.map_cons, owner, owners]
          · rw [List.forall_mem_cons]
            exact ⟨clash, clashes⟩

/--
For a scan with different legal class names and legal methods, under either
scheme of the virtual machine, and under the numbering scheme for a single
class of at most 65535 methods: a class with a method that is mapped is left
out exactly if two of its methods, mapped or not, share name and parameter
types, and every class that is left out is left out because of that.
-/
theorem skippedTargets_iff_clashes {config : Config} {scan : Scan}
    {plan : Plan} (legal : scan.Legal)
    (numbered : config.naming = .indexed → scan.targets.length = 1 ∧
      ∀ t ∈ scan.targets, t.methods.length ≤ 65535)
    (made : ofScan config scan = .ok plan) :
    (∀ t ∈ scan.targets, Mapping.mappable t ≠ [] →
        ((∃ c ∈ plan.report.skippedTargets, c.owner = t.name) ↔
          t.Clashes)) ∧
      ∀ c ∈ plan.report.skippedTargets,
        ∃ other, c.clash = .sameParams other := by
  obtain ⟨-, -, rfl⟩ := ofScan_eq_ok_iff.mp made
  have apart : scan.targets.Pairwise (Apart config.naming) := by
    by_cases resolved : config.naming = .indexed
    · obtain ⟨t, single⟩ := List.length_eq_one_iff.mp (numbered resolved).1
      rw [single]
      exact List.pairwise_singleton _ t
    · have names := List.pairwise_map.mp legal.distinct
      exact names.imp_of_mem fun member member' differ =>
        apart_of_name_ne resolved (legal.targets _ member)
          (legal.targets _ member') differ
  obtain ⟨owners, clashes⟩ := signAll_collisions legal.targets
    (fun t member resolved => (numbered resolved).2 t member)
    (fun _ _ _ _ _ _ (held : _ ∈ Registry.empty.entryPoints) =>
      List.not_mem_nil held) apart
  refine ⟨?_, clashes⟩
  intro t member mapped
  have turned : isTurnedAway t = true ↔ t.Clashes := by
    rw [Target.clashes_iff, isTurnedAway]
    simp [Mapping.mapTarget, mapped]
  rw [← turned]
  calc
    (∃ c ∈ (planOf config scan).report.skippedTargets, c.owner = t.name) ↔
        t.name ∈ (scan.targets.filter isTurnedAway).map Target.name := by
      rw [← owners, List.mem_map]
      rfl
    _ ↔ isTurnedAway t = true := by
      rw [List.mem_map]
      constructor
      · rintro ⟨t', inside, same⟩
        obtain ⟨member', turned⟩ := List.mem_filter.mp inside
        rwa [← legal.eq_of_name_eq member' member same]
      · intro turned
        exact ⟨t, List.mem_filter.mpr ⟨member, turned⟩, rfl⟩

/-- A class with two methods that differ in their results alone. -/
def clashingTarget : Target where
  name := ⟨"a/C"⟩
  methods :=
    [.ofName "d" ⟨[.string], .void⟩ ⟨true, false, false⟩,
      .ofName "d" ⟨[.array .string 1], .void⟩ ⟨true, false, false⟩,
      .ofName "d" ⟨[.string], .array .string 1⟩ ⟨true, false, false⟩]

/-- A class with methods of one name that differ in their parameters. -/
def distinctTarget : Target where
  name := ⟨"a/C_d"⟩
  methods :=
    [.ofName "d" ⟨[.string], .void⟩ ⟨true, false, false⟩,
      .ofName "d" ⟨[], .void⟩ ⟨true, false, false⟩]

def clashingScan : Scan :=
  ⟨[clashingTarget, distinctTarget], 2⟩

theorem skippedTargets_clashingScan :
    clashingScan.Legal ∧
      ofScan {} clashingScan = .ok (planOf {} clashingScan) ∧
      (∃ c ∈ (planOf {} clashingScan).report.skippedTargets,
        c.owner = clashingTarget.name) ∧
      ¬ ∃ c ∈ (planOf {} clashingScan).report.skippedTargets,
        c.owner = distinctTarget.name := by
  have legal : clashingScan.Legal := by decide
  have made : ofScan {} clashingScan = .ok (planOf {} clashingScan) :=
    ofScan_eq_ok_iff.mpr ⟨rfl, by decide, rfl⟩
  have skipped := (skippedTargets_iff_clashes legal
    (fun indexed => by cases indexed) made).1
  refine ⟨legal, made, ?_, ?_⟩
  · rw [skipped clashingTarget (by decide) (by decide), Target.clashes_iff]
    decide
  · rw [skipped distinctTarget (by decide) (by decide), Target.clashes_iff]
    decide

end Plan

end NativeGlue
