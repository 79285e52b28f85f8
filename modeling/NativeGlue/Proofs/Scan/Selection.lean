import Mathlib.Data.List.Permutation
import NativeGlue.Proofs.ClassFile.RoundTrip
import NativeGlue.Proofs.Scan.Index
import NativeGlue.Scan.Basic

/-!
# What a scan finds

A scan takes the classes of the index by name, and makes a target of each that
has the marker and a method to bind. So the targets are in order too, and the
methods of a target are those to bind, as they are in the class file.

Whether a class has the marker and what metadata it takes over depends on other
classes, but only on those that the index finds. So all of a scan is the same
for two indexes that agree.
-/

namespace NativeGlue

namespace Selection

variable {config : Config} {index : ClassIndex} {c : ClassFile}
  {names : AnnotationNames} {owner : ClassName} {ms : List MethodInfo}
  {m : MethodInfo} {methods : List Method}

theorem name_descriptor_foldl (unchecked : List Nat) (plain : Method) :
    (unchecked.foldl Method.withUncheckedParam plain).name = plain.name ∧
      (unchecked.foldl Method.withUncheckedParam plain).descriptor =
        plain.descriptor := by
  induction unchecked generalizing plain with
  | nil => exact ⟨rfl, rfl⟩
  | cons i unchecked ih => exact ih (plain.withUncheckedParam i)

/-- What annotations say changes neither name nor descriptor. -/
theorem name_descriptor_methodOf (names : AnnotationNames) (m : MethodInfo)
    (descriptor : MethodDescriptor) :
    (methodOf names m descriptor).name = m.name ∧
      (methodOf names m descriptor).descriptor = descriptor := by
  have plain := name_descriptor_foldl
    (uncheckedOf names m descriptor.params.length)
    (Method.ofName m.name descriptor (flagsOf names m))
  rw [methodOf]
  cases textOf? m names.nativeName "nativeName" <;>
    cases textOf? m names.methodNamespace "value" <;> exact plain

/-- What a method of a class file is bound as. -/
structure Binds (names : AnnotationNames) (m : MethodInfo) (bound : Method) :
    Prop where
  name : bound.name = m.name
  parsed : MethodDescriptor.parse m.descriptor = .ok bound.descriptor
  annotated : bound = methodOf names m bound.descriptor

theorem forall₂_of_methodsOf
    (accepted : methodsOf names owner ms = .ok methods) :
    List.Forall₂ (Binds names) ms methods := by
  induction ms generalizing methods with
  | nil =>
      cases accepted
      exact .nil
  | cons m ms ih =>
      rw [methodsOf] at accepted
      split at accepted
      · cases accepted
      · rename_i descriptor parsed
        split at accepted
        · cases accepted
        · rename_i rest others
          cases accepted
          obtain ⟨name, same⟩ := name_descriptor_methodOf names m descriptor
          exact .cons ⟨name, by rw [same, parsed], by rw [same]⟩ (ih others)

/-- The target of a class: all methods to bind, as they are in the class. -/
structure IsTargetOf (config : Config) (c : ClassFile) (t : Target) : Prop where
  name : t.name = c.name
  methods : List.Forall₂ (Binds config.annotations)
    (c.methods.filter (isCandidate config)) t.methods

/-- Of a marked class there is a selection if it has a method to bind. -/
theorem ofClass?_eq_ok {found : Option Selection}
    (accepted : ofClass? config index c = .ok found) :
    found.isSome = c.methods.any (isCandidate config) ∧
      ∀ s ∈ found, IsTargetOf config c s.target := by
  rw [ofClass?] at accepted
  split at accepted
  · cases accepted
  · rename_i none
    cases accepted
    have bound := forall₂_of_methodsOf none
    have empty := List.forall₂_nil_right_iff.mp bound
    refine ⟨?_, fun s member => by cases member⟩
    rw [Option.isSome_none, eq_comm, List.any_eq_false]
    exact List.filter_eq_nil_iff.mp empty
  · rename_i methods some made
    have bound := forall₂_of_methodsOf made
    split at accepted
    · cases accepted
    · cases accepted
      refine ⟨?_, fun s member => ?_⟩
      · rw [Option.isSome_some, eq_comm, List.any_eq_true]
        by_contra none
        push Not at none
        rw [List.filter_eq_nil_iff.mpr (by simpa using none)] at bound
        exact some (List.forall₂_nil_left_iff.mp bound)
      · cases member
        exact ⟨rfl, bound⟩

end Selection

namespace Scan

open Selection

variable {fs : FileSystem} {config : Config} {index : ClassIndex}
  {c : ClassFile} {cs : List ClassFile} {targets : List Target} {scan : Scan}

/-- Whether a class becomes a target. -/
def isChosen (config : Config) (index : ClassIndex) (c : ClassFile) : Bool :=
  isMarked config index c && c.methods.any (isCandidate config)

theorem targetOf?_eq_ok {found : Option Target}
    (accepted : targetOf? fs config index c = .ok found) :
    found.isSome = isChosen config index c ∧
      ∀ t ∈ found, IsTargetOf config c t := by
  rw [targetOf?] at accepted
  rw [isChosen]
  split at accepted
  · rename_i marked
    rw [marked, Bool.true_and]
    split at accepted
    · cases accepted
    · rename_i none
      cases accepted
      exact ⟨(ofClass?_eq_ok none).1, fun t member => by cases member⟩
    · rename_i s some
      obtain ⟨chosen, target⟩ := ofClass?_eq_ok some
      split at accepted
      · cases accepted
      · cases accepted
        refine ⟨chosen, fun t member => ?_⟩
        cases member
        exact ⟨(target s rfl).name, (target s rfl).methods⟩
  · rename_i unmarked
    cases accepted
    rw [Bool.eq_false_iff.mpr unmarked, Bool.false_and]
    exact ⟨rfl, fun t member => by cases member⟩

/-- The targets are those of the chosen classes, in their order. -/
theorem forall₂_of_targetsOf
    (accepted : targetsOf fs config index cs = .ok targets) :
    List.Forall₂ (IsTargetOf config) (cs.filter (isChosen config index))
      targets := by
  induction cs generalizing targets with
  | nil =>
      cases accepted
      exact .nil
  | cons c cs ih =>
      rw [targetsOf] at accepted
      split at accepted
      · cases accepted
      · rename_i found first
        split at accepted
        · cases accepted
        · rename_i rest others
          cases accepted
          obtain ⟨chosen, target⟩ := targetOf?_eq_ok first
          rw [List.filter_cons, ← chosen]
          cases found with
          | none => exact ih others
          | some t => exact .cons (target t rfl) (ih others)

/-- What a scan of an index has to find. -/
structure Complete (config : Config) (index : ClassIndex) (scan : Scan) :
    Prop where
  /-- The targets ascend by name, strictly. -/
  ascending : scan.targets.Pairwise fun s t =>
    s.name.le t.name = true ∧ s.name ≠ t.name
  /-- A class has a target if it has the marker and a method to bind. -/
  chosen : ∀ c ∈ index.classes, (∃ t ∈ scan.targets, t.name = c.name) ↔
    isMarked config index c = true ∧
      ∃ m ∈ c.methods, isCandidate config m = true
  /-- A target is that of a class, with all methods to bind in their order. -/
  bound : ∀ t ∈ scan.targets, ∃ c ∈ index.classes, IsTargetOf config c t
  scanned : scan.classesScanned = index.size

theorem isChosen_iff :
    isChosen config index c = true ↔
      isMarked config index c = true ∧
        ∃ m ∈ c.methods, isCandidate config m = true := by
  rw [isChosen, Bool.and_eq_true, List.any_eq_true]

/-- What stands on the right of a relation has something on its left. -/
theorem exists_of_mem_right {α β : Type} {R : α → β → Prop} {xs : List α}
    {ys : List β} {y : β} (related : List.Forall₂ R xs ys) (member : y ∈ ys) :
    ∃ x ∈ xs, R x y := by
  induction related with
  | nil => cases member
  | cons first _ ih =>
      rcases List.mem_cons.mp member with rfl | member
      · exact ⟨_, List.mem_cons_self, first⟩
      · obtain ⟨x, inside, fits⟩ := ih member
        exact ⟨x, List.mem_cons_of_mem _ inside, fits⟩

theorem complete_of_ofIndex (accepted : ofIndex fs config index = .ok scan) :
    scan.Complete config index := by
  rw [ofIndex] at accepted
  split at accepted
  · cases accepted
  · rename_i targets made
    cases accepted
    have related := forall₂_of_targetsOf made
    -- Targets have the names of the chosen classes, so these are in order.
    have names : (index.sorted.filter (isChosen config index)).map
        ClassFile.name = targets.map Target.name := by
      rw [← List.forall₂_eq_eq_eq, List.forall₂_map_left_iff,
        List.forall₂_map_right_iff]
      exact related.imp fun _ _ target => target.name.symm
    refine ⟨?_, fun c member => ?_, fun t member => ?_, rfl⟩
    · have ascending := index.pairwise_sorted.filter (isChosen config index)
      rw [← List.pairwise_map (f := ClassFile.name)
        (R := fun a b => a.le b = true ∧ a ≠ b), names,
        List.pairwise_map] at ascending
      exact ascending
    · rw [← isChosen_iff, ← List.mem_map, ← names]
      constructor
      · intro named
        obtain ⟨d, inside, same⟩ := List.mem_map.mp named
        obtain ⟨listed, chosen⟩ := List.mem_filter.mp inside
        have eq : d = c := List.inj_on_of_nodup_map index.distinct
          (ClassIndex.mem_sorted.mp listed) member same
        rwa [← eq]
      · intro chosen
        exact List.mem_map_of_mem (List.mem_filter.mpr
          ⟨ClassIndex.mem_sorted.mpr member, chosen⟩)
    · obtain ⟨c, inside, target⟩ := exists_of_mem_right related member
      exact ⟨c, ClassIndex.mem_sorted.mp (List.mem_filter.mp inside).1, target⟩

end Scan

namespace ClassIndex.Agree

variable {index index' : ClassIndex}

theorem isMarked_eq (agree : Agree index index') (config : Config)
    (c : ClassFile) :
    Selection.isMarked config index c = Selection.isMarked config index' c := by
  simp only [Selection.isMarked, implements, ancestors, agree.walk_eq]

theorem resolve_eq (agree : Agree index index') (names : AnnotationNames)
    (links : List Link) :
    Metadata.resolve names index links =
      Metadata.resolve names index' links := by
  induction links with
  | nil => rfl
  | cons link links ih =>
      rw [Metadata.resolve, Metadata.resolve, Metadata.bridgeClass?,
        Metadata.bridgeClass?, agree, ih]

theorem metadata_eq (agree : Agree index index') (names : AnnotationNames)
    (c : ClassFile) :
    Metadata.ofClass names index c = Metadata.ofClass names index' c := by
  simp only [Metadata.ofClass, Metadata.links, agree.walk_eq, agree.resolve_eq]

theorem targetOf?_eq (agree : Agree index index') (fs : FileSystem)
    (config : Config) (c : ClassFile) :
    Scan.targetOf? fs config index c = Scan.targetOf? fs config index' c := by
  simp only [Scan.targetOf?, Selection.ofClass?, agree.isMarked_eq,
    agree.metadata_eq]

theorem targetsOf_eq (agree : Agree index index') (fs : FileSystem)
    (config : Config) (cs : List ClassFile) :
    Scan.targetsOf fs config index cs =
      Scan.targetsOf fs config index' cs := by
  induction cs with
  | nil => rfl
  | cons c cs ih => rw [Scan.targetsOf, Scan.targetsOf, agree.targetOf?_eq, ih]

/-- A scan depends on what the index finds, and not on its order. -/
theorem ofIndex_eq (agree : Agree index index') (fs : FileSystem)
    (config : Config) :
    Scan.ofIndex fs config index = Scan.ofIndex fs config index' := by
  rw [Scan.ofIndex, Scan.ofIndex, agree.sorted_eq, agree.size_eq,
    agree.targetsOf_eq]

end ClassIndex.Agree

namespace Scan

open ClassIndex

variable {roots : List (List ClassSource)}

/--
Let all sources of some roots parse. Then the index has the first definition of
each name, in the order of the roots and of the sources in each, and finds it.
What a scan of it finds are the targets in order of their names: those of the
marked classes with methods to bind, with just these methods.

If no root defines a name twice, the sources of each root may change places:
every scan of them has the same outcome.
-/
theorem complete_of_parses (parses : Parses roots.flatten) :
    ∃ index, ofRoots roots = .ok index ∧
      index.Holds (definitions roots) ∧
      (∀ fs config scan, ofIndex fs config index = .ok scan →
        scan.Complete config index) ∧
      ((∀ sources ∈ roots, Distinct sources) →
        ∀ roots', List.Forall₂ List.Perm roots roots' →
          ∃ index', ofRoots roots' = .ok index' ∧
            ∀ fs config,
              ofIndex fs config index' = ofIndex fs config index) := by
  obtain ⟨index, made, holds⟩ := exists_holds parses
  refine ⟨index, made, holds,
    fun fs config scan accepted => complete_of_ofIndex accepted, ?_⟩
  intro distinct roots' perms
  obtain ⟨index', made', holds'⟩ := exists_holds (parses_of_perms perms parses)
  have agree : Agree index' index := fun name => by
    rw [holds'.first, holds.first, find?_definitions_eq perms distinct]
  exact ⟨index', made', agree.ofIndex_eq⟩

/-- A class with a native method, below a class or with interfaces. -/
def withNative (name method : String) (superclass : Option String)
    (interfaces : List String) : ClassSpec where
  name
  superclass
  interfaces
  methods :=
    [{ access := ⟨0x0108⟩
       name := method
       descriptor := "()V"
       annotations := []
       parameterAnnotations := [] }]

/-- A class with an interface, and a class below it. -/
def layeredSpecs : List ClassSpec :=
  [withNative "a/B" "g" none ["a/M"], withNative "a/A" "f" (some "a/B") []]

/-- A class that is hidden by one of these. -/
def hiddenSpecs : List ClassSpec :=
  [withNative "a/B" "h" none []]

def sourceOf (c : ClassSpec) : ClassSource :=
  ⟨c.name ++ ".class", c.toBytes⟩

def rootsOf (layers : List (List ClassSpec)) : List (List ClassSource) :=
  layers.map fun specs => specs.map sourceOf

theorem parse_sourceOf {spec : ClassSpec} (limits : spec.WithinLimits) :
    ClassFile.parse (sourceOf spec).bytes = .ok spec.described :=
  ClassFile.parse_of_reads (ClassSpec.reads_toBytes limits)

theorem files_map_sourceOf {specs : List ClassSpec}
    (limits : ∀ spec ∈ specs, spec.WithinLimits) :
    files (specs.map sourceOf) = specs.map ClassSpec.described := by
  induction specs with
  | nil => rfl
  | cons spec specs ih =>
      obtain ⟨first, rest⟩ := List.forall_mem_cons.mp limits
      rw [List.map_cons, files, List.filterMap_cons, parse_sourceOf first]
      exact congrArg _ (ih rest)

theorem parses_map_sourceOf {specs : List ClassSpec}
    (limits : ∀ spec ∈ specs, spec.WithinLimits) :
    Parses (specs.map sourceOf) := by
  intro s member
  obtain ⟨spec, inside, rfl⟩ := List.mem_map.mp member
  exact ⟨_, parse_sourceOf (limits spec inside)⟩

def layeredConfig : Config where
  marker := .implementing "a/M"

def layeredTargets : List Target :=
  [{ name := ⟨"a/A"⟩
     methods := [.ofName "f" ⟨[], .void⟩ ⟨true, false, false⟩] },
    { name := ⟨"a/B"⟩
      methods := [.ofName "g" ⟨[], .void⟩ ⟨true, false, false⟩] }]

theorem complete_layeredSpecs :
    ∃ index index' : ClassIndex,
      ofRoots (rootsOf [layeredSpecs, hiddenSpecs]) = .ok index ∧
      ofRoots (rootsOf [layeredSpecs.reverse, hiddenSpecs]) = .ok index' ∧
      Complete layeredConfig index ⟨layeredTargets, 2⟩ ∧
      ofIndex .empty layeredConfig index' = .ok ⟨layeredTargets, 2⟩ := by
  have limits : ∀ spec ∈ layeredSpecs ++ hiddenSpecs, spec.WithinLimits := by
    decide
  have sources : (rootsOf [layeredSpecs, hiddenSpecs]).flatten =
      (layeredSpecs ++ hiddenSpecs).map sourceOf := rfl
  have parses : Parses (rootsOf [layeredSpecs, hiddenSpecs]).flatten :=
    sources ▸ parses_map_sourceOf limits
  have distinct : ∀ sources ∈ rootsOf [layeredSpecs, hiddenSpecs],
      Distinct sources := by
    obtain ⟨layered, hidden⟩ := List.forall_mem_append.mp limits
    refine List.forall_mem_cons.mpr ⟨?_, List.forall_mem_singleton.mpr ?_⟩
    · rw [Distinct, definedIn, files_map_sourceOf layered]
      decide
    · rw [Distinct, definedIn, files_map_sourceOf hidden]
      decide
  have perms : List.Forall₂ List.Perm (rootsOf [layeredSpecs, hiddenSpecs])
      (rootsOf [layeredSpecs.reverse, hiddenSpecs]) :=
    .cons ((List.reverse_perm _).symm.map _) (.cons (.refl _) .nil)
  obtain ⟨index, made, -, complete, order⟩ := complete_of_parses parses
  obtain ⟨index', made', same⟩ := order distinct _ perms
  have stored : index =
      ⟨layeredSpecs.map ClassSpec.described, by decide⟩ := by
    have built := ofRoots_eq parses
    rw [made, sources, files_map_sourceOf limits] at built
    exact Except.ok.inj built
  have found : ofIndex .empty layeredConfig index =
      .ok ⟨layeredTargets, 2⟩ := by
    rw [stored]
    cbv
  exact ⟨index, index', made, made', complete _ _ _ found,
    (same _ _).trans found⟩

end Scan
end NativeGlue
