import NativeGlue.Mapping.Basic
import NativeGlue.Symbol.Naming
import NativeGlue.Symbol.Overload
import NativeGlue.Symbol.Registry

/-!
# Signed targets

A target is signed when each of its mapped methods has an entry point and the
run's registry holds them. Every method of the target counts for overloading,
those left out as well, so that leaving one out renames no other.
-/

namespace NativeGlue

/-- The descriptor of a method and its entry point. -/
structure Signature where
  descriptor : String
  entryPoint : String
  overloadIndex : Option Nat
deriving DecidableEq, Repr, Inhabited

/-- A target whose mapped methods have entry points. -/
structure SignedTarget where
  /-- The target with all its methods, ranked. -/
  target : Target
  methods : List (MappedMethod × Signature)
  skipped : List UnsupportedMethod
deriving DecidableEq, Repr, Inhabited

namespace Signature

/-- The signature of a method whose overload index is set. -/
def ofMethod (naming : NamingScheme) (owner : ClassName) (m : Method) :
    Signature where
  descriptor := m.descriptor.encode
  entryPoint := naming.entryPoint owner m.name m.descriptor m.overloadIndex
  overloadIndex := m.overloadIndex

end Signature

namespace SignedTarget

/-- A target with its methods ranked and signed. -/
def ofRanks (naming : NamingScheme) (mapped : MappedTarget)
    (ranks : List Overload.Rank) : SignedTarget :=
  let rank (m : Method) : Method :=
    { m with overloadIndex := Overload.indexOf ranks m }
  let owner := mapped.target.name
  { target :=
      { mapped.target with methods := mapped.target.methods.map rank }
    methods := mapped.methods.map fun m =>
      let method := rank m.method
      ({ m with method }, Signature.ofMethod naming owner method)
    skipped := mapped.skipped }

/-- The entry points of a target, each with its claim. -/
def claims (s : SignedTarget) : List (String × Claim) :=
  s.methods.map fun (m, signature) =>
    (signature.entryPoint,
      ⟨s.target.name, m.method.name, signature.descriptor⟩)

/-- The collision of a claim that came too late. -/
def collision (owner : ClassName) (c : Conflict) : Collision where
  owner
  method := c.rejected.method
  descriptor := c.rejected.descriptor
  entryPoint := c.entryPoint
  clash := .claimed c.existing.render

/-- Signs a target, and gives the registry after its claims. -/
def sign (naming : NamingScheme) (registry : Registry)
    (mapped : MappedTarget) : Except Collision SignedTarget × Registry :=
  let owner := mapped.target.name
  match Overload.ranks owner mapped.target.methods with
  | .error e => (.error e, registry)
  | .ok ranks =>
      let signed := ofRanks naming mapped ranks
      match registry.claimAll signed.claims with
      | (.error conflict, registry) =>
          (.error (collision owner conflict), registry)
      | (.ok (), registry) => (.ok signed, registry)

end SignedTarget
end NativeGlue
