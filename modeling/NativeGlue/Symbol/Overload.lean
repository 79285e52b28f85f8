import NativeGlue.Binding
import NativeGlue.Symbol.Mangling

/-!
# Overloaded methods

Methods of one class that share a name are told apart by their parameter
types. They are ranked by descriptor; a class with two methods that share name
and parameter types cannot be bound, because their entry points are the same.
-/

namespace NativeGlue

/-- How two methods came to the same entry point. -/
inductive Clash where
  /-- Two methods of a class have the same name and parameter types. -/
  | sameParams (otherDescriptor : String)
  /-- Another method holds the entry point. -/
  | claimed (holder : String)
deriving DecidableEq, Repr, Inhabited

/-- A class that cannot be bound because of one of its methods. -/
structure Collision where
  owner : ClassName
  method : String
  descriptor : String
  entryPoint : String
  clash : Clash
deriving DecidableEq, Repr, Inhabited

/-- The wording of a collision. -/
def Collision.message (c : Collision) : String :=
  c.owner.binary ++ "." ++ c.method ++ c.descriptor
    ++ " collides on entry point '" ++ c.entryPoint ++ "'"

namespace Overload

/-- The rank of a method among those of its name; none if it is alone. -/
structure Rank where
  name : String
  descriptor : String
  index : Option Nat
deriving DecidableEq, Repr, Inhabited

/-- The largest rank; later methods share it. -/
def maxIndex : Nat := 65535

/-- The order of methods in a group: by descriptor. -/
def descriptorLe (a b : Method) : Bool :=
  Text.le a.descriptor.encode b.descriptor.encode

/-- The methods of one name, by descriptor. -/
def group (name : String) (methods : List Method) : List Method :=
  (methods.filter fun m => m.name = name).mergeSort descriptorLe

/-- The names of methods, each once, in the order of their first use. -/
def names (methods : List Method) : List String :=
  methods.foldl
    (fun seen m => if seen.contains m.name then seen else seen ++ [m.name]) []

/-- The first two neighbours in a group whose parameters are the same. -/
def samePair? : List Method → Option (Method × Method)
  | a :: b :: rest =>
      if a.descriptor.params = b.descriptor.params then
        some (a, b)
      else
        samePair? (b :: rest)
  | _ => none

/-- The ranks of a group. -/
def ranksOfGroup (methods : List Method) : List Rank :=
  methods.zipIdx.map fun (m, position) =>
    { name := m.name
      descriptor := m.descriptor.encode
      index :=
        if 1 < methods.length then some (min maxIndex position) else none }

/-- The collision of two methods with the same name and parameters. -/
def collision (owner : ClassName) (a b : Method) : Collision where
  owner
  method := b.name
  descriptor := b.descriptor.encode
  entryPoint :=
    Symbol.longName owner.internal b.name b.descriptor.encodeParams
  clash := .sameParams a.descriptor.encode

/-- The ranks of the methods with the given names, name by name. -/
def ranksOfNames (owner : ClassName) (methods : List Method) :
    List String → Except Collision (List Rank)
  | [] => .ok []
  | name :: rest =>
      let members := group name methods
      match samePair? members with
      | some (a, b) => .error (collision owner a b)
      | none =>
          match ranksOfNames owner methods rest with
          | .error e => .error e
          | .ok ranks => .ok (ranksOfGroup members ++ ranks)

/-- The ranks of all methods of a class. -/
def ranks (owner : ClassName) (methods : List Method) :
    Except Collision (List Rank) :=
  ranksOfNames owner methods (names methods)

/--
The index of a method in a list of ranks. Where two ranks are for the same
name and descriptor, the later one counts.
-/
def indexOf (ranks : List Rank) (m : Method) : Option Nat :=
  (ranks.reverse.find? fun r =>
    r.name = m.name && r.descriptor = m.descriptor.encode).bind Rank.index

/-- The order in which ranks are listed: by name, then by descriptor. -/
def rankLe (a b : Rank) : Bool :=
  if a.name = b.name then Text.le a.descriptor b.descriptor
  else Text.le a.name b.name

/-- The ranks in order, one for each name and descriptor. -/
def listing (ranks : List Rank) : List Rank :=
  let counted := ranks.zipIdx.filter fun (r, i) =>
    (ranks.drop (i + 1)).all fun s =>
      !(s.name = r.name && s.descriptor = r.descriptor)
  (counted.map Prod.fst).mergeSort rankLe

end Overload
end NativeGlue
