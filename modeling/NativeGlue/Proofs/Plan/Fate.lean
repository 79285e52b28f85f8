import NativeGlue.Proofs.Plan.Signing

/-!
# What becomes of each target

A run takes the targets one after another. A target without a mapped method is
passed over. One whose methods cannot be ranked is turned away, and so is one
with an entry point that is held by an earlier target or by another of its own
methods. Any other target gets a unit, and from then on its entry points are
held. The lists that `signAll` makes are read off these fates; what a fate
depends on is the target and the entry points that are held, and nothing else.
-/

namespace NativeGlue

/-- What becomes of a target in a run. -/
inductive Fate where
  /-- No method of the target is mapped. -/
  | passedOver
  /-- There are mapped methods, but the target cannot be signed. -/
  | turnedAway (collision : Collision)
  /-- The target gets a unit. -/
  | signed (target : SignedTarget)
deriving DecidableEq, Repr, Inhabited

namespace Fate

/-- The fate of a target where the entry points of a registry are held. -/
def ofTarget (naming : NamingScheme) (registry : Registry) (t : Target) :
    Fate :=
  if (Mapping.mappable t).isEmpty then
    .passedOver
  else
    match SignedTarget.sign naming registry (Mapping.mapTarget t) with
    | (.error collision, _) => .turnedAway collision
    | (.ok s, _) => .signed s

/-- The signed target, if there is one. -/
def signed? : Fate → Option SignedTarget
  | signed s => some s
  | _ => none

/-- The collision, if there is one. -/
def collision? : Fate → Option Collision
  | turnedAway c => some c
  | _ => none

/-- The claims that are added to the registry. -/
def claims : Fate → List (String × Claim)
  | signed s => s.claims
  | _ => []

variable {naming : NamingScheme} {registry : Registry} {t : Target}

theorem ofTarget_eq_passedOver_iff :
    ofTarget naming registry t = .passedOver ↔ Mapping.mappable t = [] := by
  rw [ofTarget, ← List.isEmpty_iff]
  by_cases empty : (Mapping.mappable t).isEmpty = true
  · rw [if_pos empty]
    exact iff_of_true rfl empty
  · rw [if_neg empty]
    rcases SignedTarget.sign naming registry (Mapping.mapTarget t) with
      ⟨_ | _, after⟩ <;> simp [empty]

/-- A target is signed if it is ranked and all its entry points are free. -/
theorem ofTarget_eq_signed_iff {s : SignedTarget} :
    ofTarget naming registry t = .signed s ↔
      Mapping.mappable t ≠ [] ∧
        (∃ ranks, Overload.ranks t.name t.methods = .ok ranks ∧
          s = SignedTarget.ofRanks naming (Mapping.mapTarget t) ranks) ∧
        (s.claims.map Prod.fst).Nodup ∧
        ∀ x ∈ s.claims, x.1 ∉ registry.entryPoints := by
  rw [ofTarget]
  by_cases empty : (Mapping.mappable t).isEmpty = true
  · rw [if_pos empty]
    rw [List.isEmpty_iff] at empty
    simp [empty]
  · rw [if_neg empty]
    rw [List.isEmpty_iff] at empty
    constructor
    · intro eq
      split at eq
      · cases eq
      · rename_i signed registry' accepted
        cases eq
        obtain ⟨ranks, ranked, same, claimed⟩ :=
          SignedTarget.sign_eq_ok_iff.mp accepted
        obtain ⟨once, free, -⟩ := Registry.claimAll_eq_ok_iff.mp claimed
        exact ⟨empty, ⟨ranks, ranked, same⟩, once, free⟩
    · rintro ⟨-, ⟨ranks, ranked, same⟩, once, free⟩
      have accepted : SignedTarget.sign naming registry
          (Mapping.mapTarget t) = (.ok s, ⟨registry.claims ++ s.claims⟩) :=
        SignedTarget.sign_eq_ok_iff.mpr ⟨ranks, ranked, same,
          Registry.claimAll_eq_ok_iff.mpr ⟨once, free, rfl⟩⟩
      rw [accepted]

theorem mappable_ne_nil_of_turnedAway {c : Collision}
    (eq : ofTarget naming registry t = .turnedAway c) :
    Mapping.mappable t ≠ [] := by
  intro empty
  rw [ofTarget_eq_passedOver_iff.mpr empty] at eq
  cases eq

/-- A collision names the class that is turned away. -/
theorem owner_of_turnedAway {c : Collision}
    (eq : ofTarget naming registry t = .turnedAway c) : c.owner = t.name := by
  rw [ofTarget] at eq
  split at eq
  · cases eq
  · split at eq
    · rename_i rejected
      cases eq
      simp only [SignedTarget.sign] at rejected
      split at rejected
      · rename_i failed
        cases rejected
        exact (Overload.ranks_eq_error failed).1
      · split at rejected
        · cases rejected
          rfl
        · cases rejected
    · cases eq

end Fate

namespace Plan

/-- Each target with its fate; what is signed claims its entry points. -/
def fates (naming : NamingScheme) :
    Registry → List Target → List (Target × Fate)
  | _, [] => []
  | registry, t :: ts =>
      let fate := Fate.ofTarget naming registry t
      (t, fate) :: fates naming ⟨registry.claims ++ fate.claims⟩ ts

/-- The targets that are signed, each with its signed form. -/
def signings (naming : NamingScheme) (registry : Registry)
    (ts : List Target) : List (Target × SignedTarget) :=
  (fates naming registry ts).filterMap fun (t, fate) =>
    fate.signed?.map fun s => (t, s)

/-- The targets that are turned away, each with its collision. -/
def rejections (naming : NamingScheme) (registry : Registry)
    (ts : List Target) : List (Target × Collision) :=
  (fates naming registry ts).filterMap fun (t, fate) =>
    fate.collision?.map fun c => (t, c)

/-- The targets that get a unit in a run. -/
def emitted (naming : NamingScheme) (ts : List Target) : List Target :=
  (signings naming .empty ts).map Prod.fst

/-- The targets that have mapped methods and get no unit in a run. -/
def turnedAway (naming : NamingScheme) (ts : List Target) : List Target :=
  (rejections naming .empty ts).map Prod.fst

variable {naming : NamingScheme} {registry : Registry} {ts : List Target}
  {t : Target}

@[simp] theorem map_fst_fates (naming : NamingScheme) (registry : Registry)
    (ts : List Target) : (fates naming registry ts).map Prod.fst = ts := by
  induction ts generalizing registry with
  | nil =>
      rfl
  | cons t ts ih =>
      rw [fates, List.map_cons, ih]

/-- A target meets its fate with the entry points held that are by then. -/
theorem exists_of_mem_fates {fate : Fate}
    (member : (t, fate) ∈ fates naming registry ts) :
    ∃ held, fate = Fate.ofTarget naming held t := by
  induction ts generalizing registry with
  | nil =>
      cases member
  | cons u ts ih =>
      rw [fates, List.mem_cons] at member
      rcases member with first | later
      · cases first
        exact ⟨registry, rfl⟩
      · exact ih later

theorem mem_signings {s : SignedTarget} :
    (t, s) ∈ signings naming registry ts ↔
      (t, .signed s) ∈ fates naming registry ts := by
  simp only [signings, List.mem_filterMap, Option.map_eq_some_iff,
    Prod.exists, Prod.mk.injEq]
  constructor
  · rintro ⟨t', fate, member, s', found, rfl, rfl⟩
    cases fate <;> cases found
    exact member
  · intro member
    exact ⟨t, .signed s, member, s, rfl, rfl, rfl⟩

theorem mem_rejections {c : Collision} :
    (t, c) ∈ rejections naming registry ts ↔
      (t, .turnedAway c) ∈ fates naming registry ts := by
  simp only [rejections, List.mem_filterMap, Option.map_eq_some_iff,
    Prod.exists, Prod.mk.injEq]
  constructor
  · rintro ⟨t', fate, member, c', found, rfl, rfl⟩
    cases fate <;> cases found
    exact member
  · intro member
    exact ⟨t, .turnedAway c, member, c, rfl, rfl, rfl⟩

theorem signings_cons_of_signed
    (fate : Fate.ofTarget naming registry t = .signed s) :
    signings naming registry (t :: ts) =
      (t, s) :: signings naming ⟨registry.claims ++ s.claims⟩ ts := by
  rw [signings, fates, fate]
  rfl

/-- A target that is not signed leaves the registry as it was. -/
theorem signings_cons_of_not_signed
    (fate : (Fate.ofTarget naming registry t).signed? = none) :
    signings naming registry (t :: ts) = signings naming registry ts := by
  have stays : (Fate.ofTarget naming registry t).claims = [] := by
    cases eq : Fate.ofTarget naming registry t with
    | passedOver => rfl
    | turnedAway c => rfl
    | signed s =>
        rw [eq] at fate
        cases fate
  rw [signings, fates, stays, List.append_nil, List.filterMap_cons_none]
  · rfl
  · simp only [fate, Option.map_none]

theorem emitted_sublist (naming : NamingScheme) (ts : List Target) :
    (emitted naming ts).Sublist ts := by
  have kept : (emitted naming ts).Sublist
      ((fates naming .empty ts).map Prod.fst) := by
    rw [emitted, signings]
    induction fates naming .empty ts with
    | nil =>
        exact .slnil
    | cons x fates ih =>
        obtain ⟨t, fate⟩ := x
        cases fate with
        | signed s => exact ih.cons_cons t
        | _ => exact ih.cons t
  rwa [map_fst_fates] at kept

/-- What is signed in a run would be signed where no name is held. -/
theorem ofTarget_empty_of_mem_signings {s : SignedTarget}
    (member : (t, s) ∈ signings naming registry ts) :
    Fate.ofTarget naming .empty t = .signed s := by
  obtain ⟨held, eq⟩ := exists_of_mem_fates (mem_signings.mp member)
  obtain ⟨mapped, ranked, once, -⟩ := Fate.ofTarget_eq_signed_iff.mp eq.symm
  exact Fate.ofTarget_eq_signed_iff.mpr
    ⟨mapped, ranked, once, fun _ _ => List.not_mem_nil⟩

/-- The signed targets and the collisions of a run are those of the fates. -/
theorem signAll_eq (naming : NamingScheme) (registry : Registry)
    (ts : List Target) :
    signAll naming registry (ts.map Mapping.mapTarget) =
      ((signings naming registry ts).map Prod.snd,
        (rejections naming registry ts).map Prod.snd) := by
  induction ts generalizing registry with
  | nil =>
      rfl
  | cons t ts ih =>
      have stays : (⟨registry.claims ++ []⟩ : Registry) = registry := by
        rw [List.append_nil]
      rw [List.map_cons, signAll, signings, rejections, fates]
      by_cases empty : (Mapping.mapTarget t).methods.isEmpty = true
      · have fate : Fate.ofTarget naming registry t = .passedOver :=
          if_pos empty
        rw [if_pos empty, fate]
        simp only [Fate.claims, stays]
        exact ih registry
      · rw [if_neg empty]
        rcases signed :
          SignedTarget.sign naming registry (Mapping.mapTarget t) with
          ⟨result, registry'⟩
        cases result with
        | error c =>
            have fate : Fate.ofTarget naming registry t = .turnedAway c := by
              rw [Fate.ofTarget, signed]
              exact if_neg empty
            obtain rfl := SignedTarget.registry_eq_of_sign_eq_error signed
            simp only [fate, Fate.claims, stays, ih]
            rfl
        | ok s =>
            have fate : Fate.ofTarget naming registry t = .signed s := by
              rw [Fate.ofTarget, signed]
              exact if_neg empty
            obtain ⟨-, -, -, claimed⟩ := SignedTarget.sign_eq_ok_iff.mp signed
            obtain ⟨-, -, rfl⟩ := Registry.claimAll_eq_ok_iff.mp claimed
            simp only [fate, Fate.claims, ih]
            rfl

end Plan
end NativeGlue
