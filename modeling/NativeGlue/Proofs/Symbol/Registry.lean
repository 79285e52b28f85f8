import NativeGlue.Proofs.Lookup
import NativeGlue.Proofs.Symbol.Signature

/-!
# Claims over a whole run

Classes offer their claims one batch after another to a registry that is empty
at first.

**Step.** A batch is refused for its first claim that comes too late, the
conflict tells the claim that has the name, and the registry stays as it was
(`claimAll_eq_error_iff`). A batch without such a claim is added as it is
(`claimAll_eq_ok_iff_accepts`).

**Run.** The registry holds the batches that were accepted, one after another,
and no name is in them twice (`claims_afterAll`, `records_afterAll`). So a name
has the claim of one batch, and keeps it.
-/

namespace NativeGlue
namespace Registry

section Step

variable {r r' : Registry} {batch earlier : List (String × Claim)}
  {x : String × Claim} {c : Conflict}

/--
The claim that has a name when some claims of a batch have been looked at: the
registry's, or else the earliest of these.
-/
def holder? (r : Registry) (earlier : List (String × Claim))
    (entryPoint : String) : Option Claim :=
  (r.owner? entryPoint).or (earlier.lookup entryPoint)

/-- No claim of a batch comes too late. -/
structure Accepts (r : Registry) (batch : List (String × Claim)) : Prop where
  once : (batch.map Prod.fst).Nodup
  free : ∀ x ∈ batch, r.owner? x.1 = none

/-- A conflict is about the first claim of a batch that comes too late. -/
def Refuses (r : Registry) (batch : List (String × Claim)) (c : Conflict) :
    Prop :=
  ∃ earlier later, batch = earlier ++ (c.entryPoint, c.rejected) :: later ∧
    r.Accepts earlier ∧ r.holder? earlier c.entryPoint = some c.existing

theorem owner?_append (r : Registry) (batch : List (String × Claim))
    (entryPoint : String) :
    (⟨r.claims ++ batch⟩ : Registry).owner? entryPoint =
      r.holder? batch entryPoint :=
  List.lookup_append

theorem accepts_iff :
    r.Accepts batch ↔
      (batch.map Prod.fst).Nodup ∧ ∀ x ∈ batch, r.owner? x.1 = none :=
  ⟨fun ⟨once, free⟩ => ⟨once, free⟩, fun ⟨once, free⟩ => ⟨once, free⟩⟩

theorem claimAll_eq_ok_iff_accepts :
    r.claimAll batch = (.ok (), r') ↔
      r.Accepts batch ∧ r' = ⟨r.claims ++ batch⟩ := by
  rw [claimAll_eq_ok_iff, accepts_iff, and_assoc]
  simp only [owner?_eq_none_iff]

theorem accepts_cons_iff :
    r.Accepts (x :: batch) ↔
      r.owner? x.1 = none ∧
        (⟨r.claims ++ [x]⟩ : Registry).Accepts batch := by
  simp only [accepts_iff, owner?_append, holder?, List.map_cons,
    List.nodup_cons, List.forall_mem_cons, List.mem_map, not_exists, not_and,
    Option.or_eq_none_iff, List.lookup_eq_none_iff, List.mem_singleton,
    forall_eq, bne_iff_ne, forall_and]
  tauto

theorem holder?_cons :
    r.holder? (x :: earlier) c.entryPoint =
      (⟨r.claims ++ [x]⟩ : Registry).holder? earlier c.entryPoint := by
  rw [holder?, holder?, owner?_append, holder?, Option.or_assoc,
    ← List.lookup_append, List.singleton_append]

theorem refuses_cons_iff (free : r.owner? x.1 = none) :
    r.Refuses (x :: batch) c ↔
      (⟨r.claims ++ [x]⟩ : Registry).Refuses batch c := by
  constructor
  · rintro ⟨earlier, later, eq, accepts, held⟩
    cases earlier with
    | nil =>
        cases eq
        simp [holder?, free] at held
    | cons y earlier =>
        obtain ⟨rfl, rfl⟩ := List.cons.inj eq
        exact ⟨earlier, later, rfl, (accepts_cons_iff.mp accepts).2,
          holder?_cons.symm.trans held⟩
  · rintro ⟨earlier, later, rfl, accepts, held⟩
    exact ⟨x :: earlier, later, rfl, accepts_cons_iff.mpr ⟨free, accepts⟩,
      holder?_cons.trans held⟩

theorem firstConflict?_eq_some_iff :
    r.firstConflict? [] batch = some c ↔ r.Refuses batch c := by
  induction batch generalizing r with
  | nil =>
      simp [firstConflict?, Refuses]
  | cons x batch ih =>
      obtain ⟨entryPoint, claim⟩ := x
      rw [firstConflict?_cons]
      cases owner : r.owner? entryPoint with
      | none => rw [refuses_cons_iff owner, ih]
      | some existing =>
          -- The first claim is too late, and no other can be before it.
          constructor
          · rintro ⟨⟩
            have nothing : r.Accepts [] := accepts_iff.mpr (by simp)
            exact ⟨[], batch, rfl, nothing, by simp [holder?, owner]⟩
          · rintro ⟨earlier, later, eq, accepts, held⟩
            cases earlier with
            | nil =>
                cases eq
                rw [holder?, owner] at held
                cases held
                rfl
            | cons y earlier =>
                obtain ⟨rfl, -⟩ := List.cons.inj eq
                rw [(accepts_cons_iff.mp accepts).1] at owner
                cases owner

/-- A batch that is refused leaves the registry as it was. -/
theorem claimAll_eq_error_iff :
    r.claimAll batch = (.error c, r') ↔ r.Refuses batch c ∧ r' = r := by
  rw [claimAll_eq_error_iff_firstConflict?, firstConflict?_eq_some_iff]

/-- A batch is refused if a name is held or in the batch twice. -/
theorem exists_claimAll_eq_error_iff :
    (∃ c, (r.claimAll batch).1 = .error c) ↔
      (∃ x ∈ batch, r.owner? x.1 ≠ none) ∨ ¬ (batch.map Prod.fst).Nodup := by
  have refused : (∃ c, (r.claimAll batch).1 = .error c) ↔
      ¬ r.Accepts batch := by
    constructor
    · rintro ⟨c, eq⟩ accepts
      rw [claimAll_eq_ok_iff_accepts.mpr ⟨accepts, rfl⟩] at eq
      cases eq
    · intro rejects
      rcases claimed : r.claimAll batch with ⟨_ | _, r'⟩
      · exact ⟨_, rfl⟩
      · exact absurd (claimAll_eq_ok_iff_accepts.mp claimed).1 rejects
  rw [refused, accepts_iff, not_and_or, or_comm]
  push Not
  rfl

end Step

section Run

/-- A registry after a batch is offered to it. -/
def offer (r : Registry) (batch : List (String × Claim)) : Registry :=
  (r.claimAll batch).2

/-- The batches that are accepted, of some that are offered in this order. -/
def acceptedFrom : Registry → List (List (String × Claim)) →
    List (List (String × Claim))
  | _, [] => []
  | r, batch :: later =>
      match r.claimAll batch with
      | (.ok (), r') => batch :: acceptedFrom r' later
      | (.error _, r') => acceptedFrom r' later

/-- The registry of a run. -/
def afterAll (batches : List (List (String × Claim))) : Registry :=
  batches.foldl offer empty

/-- The batches that are accepted in a run. -/
def accepted (batches : List (List (String × Claim))) :
    List (List (String × Claim)) :=
  acceptedFrom empty batches

/-- The claims of a registry are those of some batches. -/
structure Records (r : Registry) (batches : List (List (String × Claim))) :
    Prop where
  owner : ∀ entryPoint claim,
    r.owner? entryPoint = some claim ↔
      ∃ batch ∈ batches, (entryPoint, claim) ∈ batch
  once : (batches.flatten.map Prod.fst).Nodup
  size : r.size = (batches.map List.length).sum

variable {r r' : Registry} {batch : List (String × Claim)}

theorem claims_foldl_offer (r : Registry)
    (batches : List (List (String × Claim))) :
    (batches.foldl offer r).claims =
      r.claims ++ (acceptedFrom r batches).flatten := by
  induction batches generalizing r with
  | nil =>
      simp [acceptedFrom]
  | cons batch later ih =>
      rw [List.foldl_cons, ih, offer, acceptedFrom]
      rcases claimed : r.claimAll batch with ⟨_ | _, r'⟩
      · obtain ⟨-, rfl⟩ := claimAll_eq_error_iff.mp claimed
        rfl
      · obtain ⟨-, rfl⟩ := claimAll_eq_ok_iff_accepts.mp claimed
        simp

theorem claims_afterAll (batches : List (List (String × Claim))) :
    (afterAll batches).claims = (accepted batches).flatten :=
  claims_foldl_offer empty batches

theorem nodup_offer (nodup : r.entryPoints.Nodup) :
    (r.offer batch).entryPoints.Nodup := by
  rw [offer]
  rcases claimed : r.claimAll batch with ⟨_ | _, r'⟩
  · obtain ⟨-, rfl⟩ := claimAll_eq_error_iff.mp claimed
    exact nodup
  · obtain ⟨⟨once, free⟩, rfl⟩ := claimAll_eq_ok_iff_accepts.mp claimed
    simp only [owner?_eq_none_iff] at free
    change (List.map _ (_ ++ _)).Nodup
    rw [List.map_append, List.nodup_append]
    refine ⟨nodup, once, ?_⟩
    rintro _ held _ new rfl
    obtain ⟨x, inside, rfl⟩ := List.mem_map.mp new
    exact free x inside held

theorem nodup_afterAll (batches : List (List (String × Claim))) :
    (afterAll batches).entryPoints.Nodup := by
  have start : empty.entryPoints.Nodup := List.nodup_nil
  rw [afterAll]
  revert start
  generalize empty = r
  induction batches generalizing r with
  | nil => exact id
  | cons batch later ih => exact fun nodup => ih _ (nodup_offer nodup)

theorem owner?_eq_some_iff (nodup : r.entryPoints.Nodup) {entryPoint : String}
    {claim : Claim} :
    r.owner? entryPoint = some claim ↔ (entryPoint, claim) ∈ r.claims :=
  lookup_eq_some_iff_mem nodup

theorem records_afterAll (batches : List (List (String × Claim))) :
    (afterAll batches).Records (accepted batches) where
  owner entryPoint claim := by
    rw [owner?_eq_some_iff (nodup_afterAll batches), claims_afterAll,
      List.mem_flatten]
  once := by
    rw [← claims_afterAll]
    exact nodup_afterAll batches
  size := by
    rw [size, claims_afterAll, List.length_flatten]

theorem afterAll_concat (batches : List (List (String × Claim)))
    (batch : List (String × Claim)) :
    afterAll (batches ++ [batch]) = (afterAll batches).offer batch := by
  rw [afterAll, List.foldl_concat, afterAll]

theorem acceptedFrom_append (r : Registry)
    (past later : List (List (String × Claim))) :
    acceptedFrom r (past ++ later) =
      acceptedFrom r past ++ acceptedFrom (past.foldl offer r) later := by
  induction past generalizing r with
  | nil =>
      rfl
  | cons batch past ih =>
      rw [List.cons_append, List.foldl_cons, offer, acceptedFrom, acceptedFrom]
      rcases r.claimAll batch with ⟨_ | _, r'⟩
      · exact ih r'
      · exact congrArg (batch :: ·) (ih r')

/-- What a batch does to a run that takes it. -/
theorem afterAll_concat_of_ok {past : List (List (String × Claim))}
    (claimed : (afterAll past).claimAll batch = (.ok (), r')) :
    afterAll (past ++ [batch]) = r' ∧
      accepted (past ++ [batch]) = accepted past ++ [batch] := by
  constructor
  · rw [afterAll_concat, offer, claimed]
  · rw [accepted, acceptedFrom_append]
    change _ ++ acceptedFrom (afterAll past) [batch] = _
    rw [acceptedFrom, claimed]
    rfl

theorem afterAll_concat_of_error {past : List (List (String × Claim))}
    {c : Conflict}
    (claimed : (afterAll past).claimAll batch = (.error c, r')) :
    afterAll (past ++ [batch]) = r' ∧
      accepted (past ++ [batch]) = accepted past := by
  constructor
  · rw [afterAll_concat, offer, claimed]
  · rw [accepted, acceptedFrom_append]
    change _ ++ acceptedFrom (afterAll past) [batch] = _
    rw [acceptedFrom, claimed]
    exact List.append_nil _

/-- A name keeps its claim, whatever is offered later. -/
theorem owner?_afterAll_append (batches later : List (List (String × Claim)))
    {entryPoint : String} {claim : Claim}
    (owned : (afterAll batches).owner? entryPoint = some claim) :
    (afterAll (batches ++ later)).owner? entryPoint = some claim := by
  have grown : afterAll (batches ++ later) =
      ⟨(afterAll batches).claims
        ++ (acceptedFrom (afterAll batches) later).flatten⟩ := by
    rw [← claims_foldl_offer, afterAll, List.foldl_append]
    rfl
  rw [grown, owner?_append, holder?, owned]
  rfl

/-- A batch that is taken adds its names with its claims, and nothing else. -/
theorem owner?_of_claimAll (nodup : r.entryPoints.Nodup)
    (claimed : r.claimAll batch = (.ok (), r')) :
    (∀ entryPoint claim, r'.owner? entryPoint = some claim ↔
        r.owner? entryPoint = some claim ∨ (entryPoint, claim) ∈ batch) ∧
      r'.size = r.size + batch.length := by
  have nodup' : r'.entryPoints.Nodup := by
    have kept : (r.offer batch).entryPoints.Nodup := nodup_offer nodup
    rwa [offer, claimed] at kept
  obtain ⟨-, rfl⟩ := claimAll_eq_ok_iff_accepts.mp claimed
  refine ⟨fun entryPoint claim => ?_, List.length_append⟩
  rw [owner?_eq_some_iff nodup', owner?_eq_some_iff nodup, List.mem_append]

end Run

/--
Let any batches have been offered to a registry that was empty at first. Then
the next one is refused just if one of its names is held or is in it twice. The
conflict is about the first claim that comes too late, and tells the claim it
meets: the registry's, or else the earliest of the batch. The registry that is
given back is the one from before, so each name has the owner it had, if any,
and there are as many. A batch that is taken adds its names with its claims,
and nothing else.

So the claim of a name is the one that it has in the batches taken so far, in
which no name is twice and whose sizes add up to that of the registry; and a
name keeps its claim whatever is offered later.
-/
theorem claimAll_over_runs (past : List (List (String × Claim))) :
    (∀ batch, (∃ c, ((afterAll past).claimAll batch).1 = .error c) ↔
      (∃ x ∈ batch, (afterAll past).owner? x.1 ≠ none) ∨
        ¬ (batch.map Prod.fst).Nodup) ∧
    (∀ batch c r, (afterAll past).claimAll batch = (.error c, r) →
      (afterAll past).Refuses batch c ∧ r = afterAll past ∧
        afterAll (past ++ [batch]) = r ∧
        accepted (past ++ [batch]) = accepted past) ∧
    (∀ batch r, (afterAll past).claimAll batch = (.ok (), r) →
      afterAll (past ++ [batch]) = r ∧
        accepted (past ++ [batch]) = accepted past ++ [batch] ∧
        (∀ entryPoint claim, r.owner? entryPoint = some claim ↔
          (afterAll past).owner? entryPoint = some claim ∨
            (entryPoint, claim) ∈ batch) ∧
        r.size = (afterAll past).size + batch.length) ∧
    (afterAll past).Records (accepted past) ∧
    ∀ later entryPoint claim,
      (afterAll past).owner? entryPoint = some claim →
        (afterAll (past ++ later)).owner? entryPoint = some claim := by
  refine ⟨fun batch => exists_claimAll_eq_error_iff, ?_, ?_,
    records_afterAll past,
    fun later entryPoint claim => owner?_afterAll_append past later⟩
  · intro batch c r claimed
    obtain ⟨refused, same⟩ := claimAll_eq_error_iff.mp claimed
    exact ⟨refused, same, afterAll_concat_of_error claimed⟩
  · intro batch r claimed
    obtain ⟨after, taken⟩ := afterAll_concat_of_ok claimed
    exact ⟨after, taken, owner?_of_claimAll (nodup_afterAll past) claimed⟩

/-- The claim of a method without parameters. -/
def claimOf (owner method : String) : Claim := ⟨⟨owner⟩, method, "()V"⟩

/-- A run in which the second batch meets the first one, and is refused. -/
def contestedRun : List (List (String × Claim)) :=
  [[("Java_a_B_f", claimOf "a/B" "f")],
    [("Java_a_C_g", claimOf "a/C" "g"), ("Java_a_B_f", claimOf "a/C" "f")]]

/-- A batch with a name that is in it twice, behind one that is free. -/
def repeatingBatch : List (String × Claim) :=
  [("Java_a_C_g", claimOf "a/C" "g"), ("Java_a_D_h", claimOf "a/D" "h"),
    ("Java_a_D_h", claimOf "a/D" "k")]

theorem claimAll_over_contestedRun :
    accepted contestedRun = [[("Java_a_B_f", claimOf "a/B" "f")]] ∧
      (afterAll contestedRun).Records (accepted contestedRun) ∧
      (afterAll contestedRun).claimAll repeatingBatch =
        (.error ⟨"Java_a_D_h", claimOf "a/D" "k", claimOf "a/D" "h"⟩,
          afterAll contestedRun) ∧
      afterAll (contestedRun ++ [repeatingBatch]) = afterAll contestedRun ∧
      (afterAll
          (contestedRun ++ [[("Java_a_C_g", claimOf "a/C" "g")]])).owner?
        "Java_a_C_g" = some (claimOf "a/C" "g") := by
  obtain ⟨-, refused, taken, records, -⟩ := claimAll_over_runs contestedRun
  have late : (afterAll contestedRun).claimAll repeatingBatch =
      (.error ⟨"Java_a_D_h", claimOf "a/D" "k", claimOf "a/D" "h"⟩,
        afterAll contestedRun) := by
    rfl
  obtain ⟨-, -, stays, -⟩ := refused _ _ _ late
  obtain ⟨after, -, owner, -⟩ :=
    taken [("Java_a_C_g", claimOf "a/C" "g")] _ rfl
  refine ⟨by decide, records, late, stays, ?_⟩
  rw [after, owner]
  exact .inr (List.mem_singleton_self _)

end Registry
end NativeGlue
