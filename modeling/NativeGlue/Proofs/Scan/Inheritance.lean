import Mathlib.Data.List.Nodup
import Mathlib.Data.Set.Insert
import NativeGlue.Proofs.FirstUse
import NativeGlue.Proofs.Scan.Index
import NativeGlue.Scan.Select

/-!
# Inherited metadata

A class takes over the metadata of the bridge classes that its links lead to,
and of those that their links lead to in turn. `Visits` says so by recursion on
the classes: a name that is new is resolved, and the links of its class are
followed before those behind it. The first name that has no bridge class ends
the visit. A walk keeps one list of pending links instead, and resolves what it
has found afterwards; both have the same outcome, whatever cycles there are.

Main statement: `ofClass?_inherits`.
-/

namespace NativeGlue
namespace Metadata

variable {names : AnnotationNames} {index : ClassIndex} {c d : ClassFile}
  {seen : Set ClassName} {link : Link} {links others : List Link}
  {outcome : Except ScanError (List ClassFile)}

/-- The links of a class, to the classes whose metadata it takes over. -/
def linksOf (names : AnnotationNames) (c : ClassFile) : List Link :=
  (parents names c).map (Link.mk c.name)

/-- The names of some classes. -/
def nameSet (classes : List ClassFile) : Set ClassName :=
  {name | name ∈ classes.map ClassFile.name}

/--
What a depth-first visit along some links finds, if some names were seen
before: the bridge classes in order, or the fault that ends it.
-/
inductive Visits (names : AnnotationNames) (index : ClassIndex) :
    Set ClassName → List Link → Except ScanError (List ClassFile) → Prop
  | done (seen : Set ClassName) : Visits names index seen [] (.ok [])
  | again {seen : Set ClassName} {link : Link} {links : List Link}
      {outcome : Except ScanError (List ClassFile)}
      (known : link.target ∈ seen)
      (rest : Visits names index seen links outcome) :
      Visits names index seen (link :: links) outcome
  | unresolved {seen : Set ClassName} {link : Link} {links : List Link}
      (new : link.target ∉ seen)
      (missing : bridgeClass? names index link.target = none) :
      Visits names index seen (link :: links)
        (.error (.inheritFrom link.source link.target))
  | fails {seen : Set ClassName} {link : Link} {links : List Link}
      {d : ClassFile} {e : ScanError} (new : link.target ∉ seen)
      (resolved : bridgeClass? names index link.target = some d)
      (inner : Visits names index (seen ∪ {link.target}) (linksOf names d)
        (.error e)) :
      Visits names index seen (link :: links) (.error e)
  | inside {seen : Set ClassName} {link : Link} {links : List Link}
      {d : ClassFile} {below : List ClassFile}
      {outcome : Except ScanError (List ClassFile)} (new : link.target ∉ seen)
      (resolved : bridgeClass? names index link.target = some d)
      (inner : Visits names index (seen ∪ {link.target}) (linksOf names d)
        (.ok below))
      (rest : Visits names index (seen ∪ {link.target} ∪ nameSet below) links
        outcome) :
      Visits names index seen (link :: links)
        (outcome.map fun found => d :: (below ++ found))

/--
The links on the paths of bridge classes from a class. No path goes on from the
name of the class itself, where it would start again.
-/
inductive Leads (names : AnnotationNames) (index : ClassIndex)
    (c : ClassFile) : Link → Prop
  | direct {name : ClassName} (named : name ∈ parents names c) :
      Leads names index c ⟨c.name, name⟩
  | through {link : Link} {d : ClassFile} {name : ClassName}
      (before : Leads names index c link) (other : link.target ≠ c.name)
      (resolved : bridgeClass? names index link.target = some d)
      (named : name ∈ parents names d) : Leads names index c ⟨d.name, name⟩

/-- A bridge class that is found has the name that is looked up. -/
theorem name_of_bridgeClass? {name : ClassName}
    (resolved : bridgeClass? names index name = some d) : d.name = name :=
  (ClassIndex.get?_eq_some_iff.mp (Option.filter_eq_some_iff.mp resolved).1).2

section Visiting

/-- A visit has one outcome. -/
theorem Visits.unique {other : Except ScanError (List ClassFile)}
    (visits : Visits names index seen links outcome)
    (visits' : Visits names index seen links other) : other = outcome := by
  induction visits generalizing other with
  | done seen =>
      cases visits'
      rfl
  | again known rest ih =>
      cases visits' with
      | again _ rest' => exact ih rest'
      | unresolved new | fails new | inside new => exact absurd known new
  | unresolved new missing =>
      cases visits' with
      | again known _ => exact absurd known new
      | unresolved _ _ => rfl
      | fails _ resolved | inside _ resolved =>
          cases missing.symm.trans resolved
  | fails new resolved inner ih =>
      cases visits' with
      | again known _ => exact absurd known new
      | unresolved _ missing => cases missing.symm.trans resolved
      | fails _ resolved' inner' =>
          obtain rfl := Option.some.inj (resolved'.symm.trans resolved)
          exact ih inner'
      | inside _ resolved' inner' =>
          obtain rfl := Option.some.inj (resolved'.symm.trans resolved)
          cases ih inner'
  | inside new resolved inner rest ihInner ihRest =>
      cases visits' with
      | again known _ => exact absurd known new
      | unresolved _ missing => cases missing.symm.trans resolved
      | fails _ resolved' inner' =>
          obtain rfl := Option.some.inj (resolved'.symm.trans resolved)
          cases ihInner inner'
      | inside _ resolved' inner' rest' =>
          obtain rfl := Option.some.inj (resolved'.symm.trans resolved)
          cases ihInner inner'
          rw [ihRest rest']

theorem nameSet_nil : nameSet [] = ∅ := by
  ext name
  simp [nameSet]

theorem nameSet_cons_append (d : ClassFile) (below found : List ClassFile) :
    nameSet (d :: (below ++ found)) =
      {d.name} ∪ nameSet below ∪ nameSet found := by
  ext name
  simp [nameSet, or_assoc]

/-- Links behind others are followed with what these have found seen. -/
theorem Visits.of_append
    (visits : Visits names index seen (links ++ others) outcome) :
    (∃ e, outcome = .error e ∧ Visits names index seen links (.error e)) ∨
      ∃ found behind, Visits names index seen links (.ok found) ∧
        Visits names index (seen ∪ nameSet found) others behind ∧
        outcome = behind.map (found ++ ·) := by
  induction links generalizing seen outcome with
  | nil =>
      refine .inr ⟨[], outcome, .done seen, ?_, ?_⟩
      · rwa [nameSet_nil, Set.union_empty]
      · cases outcome <;> rfl
  | cons link links ih =>
      cases visits with
      | again known rest =>
          rcases ih rest with ⟨e, rfl, failed⟩ |
            ⟨found, behind, left, right, rfl⟩
          · exact .inl ⟨e, rfl, .again known failed⟩
          · exact .inr ⟨found, behind, .again known left, right, rfl⟩
      | unresolved new missing =>
          exact .inl ⟨_, rfl, .unresolved new missing⟩
      | fails new resolved inner =>
          exact .inl ⟨_, rfl, .fails new resolved inner⟩
      | @inside _ _ _ d below _ new resolved inner rest =>
          rcases ih rest with ⟨e, rfl, failed⟩ |
            ⟨found, behind, left, right, rfl⟩
          · exact .inl ⟨e, rfl, .inside new resolved inner failed⟩
          · refine .inr ⟨d :: (below ++ found), behind,
              .inside new resolved inner left, ?_, ?_⟩
            · rwa [nameSet_cons_append, name_of_bridgeClass? resolved,
                ← Set.union_assoc, ← Set.union_assoc]
            · cases behind with
              | error e => rfl
              | ok found' => simp [Except.map]

/-- What a visit has found. -/
structure Found (names : AnnotationNames) (index : ClassIndex)
    (seen : Set ClassName) (links : List Link) (found : List ClassFile) :
    Prop where
  once : (found.map ClassFile.name).Nodup
  new : ∀ d ∈ found, d.name ∉ seen
  resolved : ∀ d ∈ found, bridgeClass? names index d.name = some d
  /-- No link is left out. -/
  all : ∀ link ∈ links, link.target ∈ seen ∪ nameSet found
  /-- No link of a class that is found is left out. -/
  closed : ∀ d ∈ found, ∀ name ∈ parents names d,
    name ∈ seen ∪ nameSet found

theorem Found.inside {below found : List ClassFile}
    (new : link.target ∉ seen)
    (resolved : bridgeClass? names index link.target = some d)
    (inner : Found names index (seen ∪ {link.target}) (linksOf names d) below)
    (rest : Found names index (seen ∪ {link.target} ∪ nameSet below) links
      found) :
    Found names index seen (link :: links) (d :: (below ++ found)) := by
  have name := name_of_bridgeClass? resolved
  have same : seen ∪ nameSet (d :: (below ++ found)) =
      seen ∪ {link.target} ∪ nameSet below ∪ nameSet found := by
    rw [nameSet_cons_append, name, ← Set.union_assoc, ← Set.union_assoc]
  constructor
  · rw [List.map_cons, List.map_append, List.nodup_cons, List.mem_append,
      name]
    refine ⟨?_, inner.once.append rest.once fun n left right => ?_⟩
    · rintro (left | right)
      · obtain ⟨e, member, eq⟩ := List.mem_map.mp left
        exact inner.new e member (.inr eq)
      · obtain ⟨e, member, eq⟩ := List.mem_map.mp right
        exact rest.new e member (.inl (.inr eq))
    · obtain ⟨e, member, rfl⟩ := List.mem_map.mp right
      exact rest.new e member (.inr left)
  · rw [List.forall_mem_cons, List.forall_mem_append, name]
    exact ⟨new, fun e member known => inner.new e member (.inl known),
      fun e member known => rest.new e member (.inl (.inl known))⟩
  · rw [List.forall_mem_cons, List.forall_mem_append, name]
    exact ⟨resolved, inner.resolved, rest.resolved⟩
  · rw [List.forall_mem_cons, same]
    exact ⟨.inl (.inl (.inr rfl)), rest.all⟩
  · rw [List.forall_mem_cons, List.forall_mem_append, same]
    refine ⟨fun n named => .inl (inner.all ⟨d.name, n⟩ ?_),
      fun e member n named => .inl (inner.closed e member n named),
      rest.closed⟩
    exact List.mem_map_of_mem named

theorem Visits.found {found : List ClassFile}
    (visits : Visits names index seen links outcome)
    (success : outcome = .ok found) :
    Found names index seen links found := by
  induction visits generalizing found with
  | done seen =>
      cases success
      exact ⟨.nil, by simp, by simp, by simp, by simp⟩
  | again known rest ih =>
      have behind := ih success
      exact { behind with
        all := List.forall_mem_cons.mpr ⟨.inl known, behind.all⟩ }
  | unresolved | fails => cases success
  | @inside _ _ _ d below outcome new resolved inner rest ihInner ihRest =>
      cases outcome with
      | error e => cases success
      | ok behind =>
          cases success
          exact .inside new resolved (ihInner rfl) (ihRest rfl)

theorem Leads.onward (before : Leads names index c link)
    (other : link.target ≠ c.name)
    (resolved : bridgeClass? names index link.target = some d) :
    ∀ link ∈ linksOf names d, Leads names index c link := by
  intro link member
  obtain ⟨name, named, rfl⟩ := List.mem_map.mp member
  exact .through before other resolved named

/-- A visit stays on the paths of a class whose own name was seen before. -/
theorem Visits.leads (visits : Visits names index seen links outcome)
    (self : c.name ∈ seen) (along : ∀ link ∈ links, Leads names index c link) :
    (∀ found, outcome = .ok found → ∀ d ∈ found,
      ∃ owner, Leads names index c ⟨owner, d.name⟩) ∧
    ∀ e, outcome = .error e → ∃ link, Leads names index c link ∧
      link.target ≠ c.name ∧ bridgeClass? names index link.target = none ∧
      e = .inheritFrom link.source link.target := by
  induction visits with
  | done seen =>
      refine ⟨fun found success => ?_, fun e => nofun⟩
      cases success
      simp
  | again known rest ih =>
      exact ih self (List.forall_mem_cons.mp along).2
  | @unresolved seen link links new missing =>
      obtain ⟨here, -⟩ := List.forall_mem_cons.mp along
      refine ⟨fun found => nofun, fun e failed => ?_⟩
      cases failed
      exact ⟨link, here, (ne_of_mem_of_not_mem self new).symm, missing, rfl⟩
  | fails new resolved inner ih =>
      obtain ⟨here, -⟩ := List.forall_mem_cons.mp along
      refine ⟨fun found => nofun, ?_⟩
      have other := (ne_of_mem_of_not_mem self new).symm
      exact (ih (.inl self) (here.onward other resolved)).2
  | @inside _ link _ d below outcome new resolved inner rest ihInner ihRest =>
      obtain ⟨here, along⟩ := List.forall_mem_cons.mp along
      have other := (ne_of_mem_of_not_mem self new).symm
      obtain ⟨inBelow, -⟩ :=
        ihInner (.inl self) (here.onward other resolved)
      obtain ⟨behind, failure⟩ := ihRest (.inl (.inl self)) along
      cases outcome with
      | error e => exact ⟨fun found => nofun, failure⟩
      | ok found =>
          refine ⟨fun all success => ?_, fun e => nofun⟩
          cases success
          rw [List.forall_mem_cons, List.forall_mem_append,
            name_of_bridgeClass? resolved]
          exact ⟨⟨link.source, here⟩, inBelow below rfl, behind found rfl⟩

end Visiting

section Walking

end Walking

section Strings

/-- The texts that are not empty, each where it stands first. -/
def firsts (values : List String) : List String :=
  (values.filter (· ≠ "")).eraseDups

end Strings
end Metadata

namespace Selection

open Metadata

variable {config : Config} {index : ClassIndex} {c : ClassFile}

end Selection
end NativeGlue
