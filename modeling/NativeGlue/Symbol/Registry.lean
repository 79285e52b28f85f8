import NativeGlue.ClassName

/-!
# Claimed entry points

A run keeps one registry of the entry points in use and who uses them. The
claims of a class enter together or not at all, so that a class that is turned
away holds no names.
-/

namespace NativeGlue

/-- The method that an entry point belongs to. -/
structure Claim where
  owner : ClassName
  method : String
  descriptor : String
deriving DecidableEq, Repr, Inhabited

/-- The class, method and descriptor of a claim, run together. -/
def Claim.render (c : Claim) : String :=
  c.owner.binary ++ "." ++ c.method ++ c.descriptor

/-- A claim that came too late, and the one that has the name. -/
structure Conflict where
  entryPoint : String
  rejected : Claim
  existing : Claim
deriving DecidableEq, Repr, Inhabited

/-- The entry points claimed so far, in the order of their claims. -/
structure Registry where
  claims : List (String × Claim)
deriving DecidableEq, Repr, Inhabited

namespace Registry

/-- The registry in which no name is claimed. -/
def empty : Registry := ⟨[]⟩

/-- The claim that holds a name. -/
def owner? (r : Registry) (entryPoint : String) : Option Claim :=
  r.claims.lookup entryPoint

/-- Number of names that are claimed. -/
def size (r : Registry) : Nat :=
  r.claims.length

/--
The first of some claims whose name is already held, by the registry or by a
pending claim. A claim that is looked at becomes pending.
-/
def firstConflict? (r : Registry) (pending : List (String × Claim)) :
    List (String × Claim) → Option Conflict
  | [] => none
  | (entryPoint, claim) :: rest =>
      match (r.owner? entryPoint).or (pending.lookup entryPoint) with
      | some existing => some ⟨entryPoint, claim, existing⟩
      | none => firstConflict? r (pending ++ [(entryPoint, claim)]) rest

/--
Offers the claims of one class, and gives the registry afterwards. They are
added if none of them is in conflict; else the first conflict is the result.
-/
def claimAll (r : Registry) (batch : List (String × Claim)) :
    Except Conflict Unit × Registry :=
  match r.firstConflict? [] batch with
  | some conflict => (.error conflict, r)
  | none => (.ok (), ⟨r.claims ++ batch⟩)

end Registry
end NativeGlue
