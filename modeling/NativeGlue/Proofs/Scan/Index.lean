import Mathlib.Data.List.Forall2
import Mathlib.Data.List.Nodup
import Mathlib.Data.List.Perm.Basic
import NativeGlue.Proofs.Text.Order
import NativeGlue.Scan.Index

/-!
# What the index holds

The index of some roots has the first definition of each name. So it finds
what a search through all definitions finds, and this is all that a walk needs.

Where the sources of each root change places, and no root defines a name twice,
the first definitions stay. The index may then hold its classes in another
order, but it finds the same ones.
-/

namespace NativeGlue
namespace ClassIndex

section Lookup

variable {index : ClassIndex} {c : ClassFile} {name : ClassName}

theorem get?_eq_some_iff :
    index.get? name = some c ↔ c ∈ index.classes ∧ c.name = name := by
  constructor
  · intro found
    exact ⟨List.mem_of_find?_eq_some found,
      by simpa using List.find?_some found⟩
  · rintro ⟨member, rfl⟩
    have named : (index.get? c.name).isSome = true := by
      rw [get?, List.find?_isSome]
      exact ⟨c, member, by simp⟩
    obtain ⟨d, found⟩ := Option.isSome_iff_exists.mp named
    have same : d.name = c.name := by simpa using List.find?_some found
    rw [found, List.inj_on_of_nodup_map index.distinct
      (List.mem_of_find?_eq_some found) member same]

theorem mem_classes_iff : c ∈ index.classes ↔ index.get? c.name = some c := by
  simp [get?_eq_some_iff]

theorem mem_names_iff :
    name ∈ index.names ↔ (index.get? name).isSome = true := by
  simp [names, get?]

theorem nodup_classes (index : ClassIndex) : index.classes.Nodup :=
  .of_map _ index.distinct

end Lookup

section Order

variable {index : ClassIndex} {c : ClassFile}

theorem mem_sorted : c ∈ index.sorted ↔ c ∈ index.classes :=
  List.mem_mergeSort

/-- The classes by name, each name once. -/
theorem pairwise_sorted (index : ClassIndex) :
    index.sorted.Pairwise fun a b =>
      a.name.le b.name = true ∧ a.name ≠ b.name := by
  have trans : ∀ a b c : ClassFile, a.name.le b.name = true →
      b.name.le c.name = true → a.name.le c.name = true :=
    fun _ _ _ => Text.le_trans
  have distinct : index.classes.Pairwise fun a b => a.name ≠ b.name :=
    List.pairwise_map.mp index.distinct
  refine (List.pairwise_mergeSort trans
    (fun a b => Text.le_total a.name.internal b.name.internal) _).and ?_
  exact ((List.mergeSort_perm _ _).pairwise_iff Ne.symm).mpr distinct

end Order

section Walk

variable {index : ClassIndex} {next : ClassFile → List ClassName}
  {seen : List ClassName} {link : Link} {rest : List Link} {c : ClassFile}

theorem walk_of_seen (visited : seen.contains link.target = true) :
    index.walk next seen (link :: rest) = index.walk next seen rest := by
  rw [walk, dif_pos visited]

theorem walk_of_found (new : ¬ seen.contains link.target = true)
    (found : index.get? link.target = some c) :
    index.walk next seen (link :: rest) =
      link :: index.walk next (link.target :: seen)
        ((next c).map (Link.mk c.name) ++ rest) := by
  rw [walk, dif_neg new]
  split
  · rename_i d found'
    obtain rfl : d = c := Option.some.inj (found'.symm.trans found)
    rfl
  · rename_i missing
    rw [missing] at found
    cases found

theorem walk_of_missing (new : ¬ seen.contains link.target = true)
    (missing : index.get? link.target = none) :
    index.walk next seen (link :: rest) =
      link :: index.walk next (link.target :: seen) rest := by
  rw [walk, dif_neg new]
  split
  · rename_i found
    rw [missing] at found
    cases found
  · rfl

end Walk

section Building

variable {index : ClassIndex} {c : ClassFile} {name : ClassName}

/-- Only a new name is added. -/
theorem get?_add :
    (index.add c).get? name =
      (index.get? name).or
        ([c].find? fun d => !d.isDescriptor && d.name = name) := by
  by_cases kept : c.isDescriptor = true ∨ c.name ∈ index.names
  · rw [add, dif_pos kept]
    cases found : index.get? name with
    | some d => rfl
    | none =>
        have absent : name ∉ index.names := by
          rw [mem_names_iff, found]
          exact Bool.false_ne_true
        have other : (!c.isDescriptor && decide (c.name = name)) = false := by
          rcases kept with descriptor | taken
          · rw [descriptor]
            rfl
          · have differs : c.name ≠ name := fun same => absent (same ▸ taken)
            simp [differs]
        rw [List.find?_cons, other]
        rfl
  · rw [add, dif_neg kept, get?, insert, List.find?_append]
    have isClass : c.isDescriptor = false := by
      simpa using fun descriptor => kept (.inl descriptor)
    simp [get?, isClass]

/-- An index finds what it had, else the first of what is added. -/
theorem get?_foldl_add (files : List ClassFile) :
    (files.foldl add index).get? name =
      (index.get? name).or
        (files.find? fun c => !c.isDescriptor && c.name = name) := by
  induction files generalizing index with
  | nil => simp
  | cons c files ih =>
      rw [List.foldl_cons, ih, get?_add, Option.or_assoc, ← List.find?_append]
      rfl

end Building

section Sources

variable {sources sources' : List ClassSource}
  {roots roots' : List (List ClassSource)} {name : ClassName}

/-- Sources of which none is malformed. -/
def Parses (sources : List ClassSource) : Prop :=
  ∀ s ∈ sources, ∃ c, ClassFile.parse s.bytes = .ok c

/-- The class files of some sources. -/
def files (sources : List ClassSource) : List ClassFile :=
  sources.filterMap fun s => (ClassFile.parse s.bytes).toOption

/-- The classes that some sources define, in their order. -/
def definedIn (sources : List ClassSource) : List ClassFile :=
  (files sources).filter fun c => !c.isDescriptor

/-- The classes that the sources of roots define, in classpath order. -/
def definitions (roots : List (List ClassSource)) : List ClassFile :=
  roots.flatMap definedIn

theorem parseAll_eq (parses : Parses sources) :
    parseAll sources = .ok (files sources) := by
  induction sources with
  | nil => rfl
  | cons s sources ih =>
      obtain ⟨first, rest⟩ := List.forall_mem_cons.mp parses
      obtain ⟨c, parsed⟩ := first
      simp [parseAll, files, parsed, ih rest, Except.toOption]

theorem ofRoots_eq (parses : Parses roots.flatten) :
    ofRoots roots = .ok ((files roots.flatten).foldl add empty) := by
  rw [ofRoots, parseAll_eq parses]

theorem definedIn_append (sources sources' : List ClassSource) :
    definedIn (sources ++ sources') =
      definedIn sources ++ definedIn sources' := by
  rw [definedIn, files, List.filterMap_append, List.filter_append]
  rfl

theorem definedIn_flatten (roots : List (List ClassSource)) :
    definedIn roots.flatten = definitions roots := by
  induction roots with
  | nil => rfl
  | cons sources roots ih =>
      rw [List.flatten_cons, definedIn_append, ih]
      rfl

/-- An index has the first definition of each name, and nothing else. -/
structure Holds (index : ClassIndex) (defined : List ClassFile) : Prop where
  /-- A name that is defined is that of exactly one class. -/
  named : ∀ name, index.names.count name =
    if name ∈ defined.map ClassFile.name then 1 else 0
  /-- This class is the first definition of the name. -/
  first : ∀ name,
    index.get? name = defined.find? fun c => c.name = name
  found : ∀ c, c ∈ index.classes ↔ index.get? c.name = some c

theorem holds_of_get?_eq {index : ClassIndex} {defined : List ClassFile}
    (first : ∀ name,
      index.get? name = defined.find? fun c => c.name = name) :
    index.Holds defined := by
  refine ⟨fun name => ?_, first, fun _ => mem_classes_iff⟩
  have defines : name ∈ index.names ↔ name ∈ defined.map ClassFile.name := by
    rw [mem_names_iff, first, List.find?_isSome]
    simp
  have distinct : index.names.Nodup := index.distinct
  rw [distinct.count]
  simp only [defines]

/-- Sources that parse have an index, which holds the first definitions. -/
theorem exists_holds (parses : Parses roots.flatten) :
    ∃ index, ofRoots roots = .ok index ∧ index.Holds (definitions roots) := by
  refine ⟨_, ofRoots_eq parses, holds_of_get?_eq fun name => ?_⟩
  have fresh : empty.get? name = none := rfl
  rw [get?_foldl_add, fresh, Option.none_or, ← definedIn_flatten, definedIn,
    List.find?_filter]
  simp

end Sources

section Permuting

variable {sources sources' : List ClassSource}
  {roots roots' : List (List ClassSource)}

/-- Sources that define no name twice. -/
def Distinct (sources : List ClassSource) : Prop :=
  ((definedIn sources).map ClassFile.name).Nodup

theorem definedIn_perm (perm : sources.Perm sources') :
    (definedIn sources).Perm (definedIn sources') :=
  (perm.filterMap _).filter _

/-- Where no name is twice, a search does not depend on the order. -/
theorem find?_eq_of_perm {cs ds : List ClassFile} (perm : cs.Perm ds)
    (distinct : (cs.map ClassFile.name).Nodup) (name : ClassName) :
    (cs.find? fun c => c.name = name) = ds.find? fun c => c.name = name := by
  -- Both lists are those of an index, which finds the members of its list.
  have distinct' := (perm.map ClassFile.name).nodup_iff.mp distinct
  refine Option.ext fun c => ?_
  have left : get? ⟨cs, distinct⟩ name = some c ↔ c ∈ cs ∧ c.name = name :=
    get?_eq_some_iff
  have right : get? ⟨ds, distinct'⟩ name = some c ↔ c ∈ ds ∧ c.name = name :=
    get?_eq_some_iff
  exact left.trans ((and_congr_left' perm.mem_iff).trans right.symm)

theorem find?_definitions_eq (perms : List.Forall₂ List.Perm roots roots')
    (distinct : ∀ sources ∈ roots, Distinct sources) (name : ClassName) :
    ((definitions roots).find? fun c => c.name = name) =
      (definitions roots').find? fun c => c.name = name := by
  induction perms with
  | nil => rfl
  | cons perm _ ih =>
      obtain ⟨first, rest⟩ := List.forall_mem_cons.mp distinct
      rw [definitions, definitions, List.flatMap_cons, List.flatMap_cons,
        List.find?_append, List.find?_append,
        find?_eq_of_perm (definedIn_perm perm) first name]
      exact congrArg _ (ih rest)

theorem parses_of_perms (perms : List.Forall₂ List.Perm roots roots')
    (parses : Parses roots.flatten) : Parses roots'.flatten := by
  have perm : roots.flatten.Perm roots'.flatten :=
    List.Perm.flatten_congr perms
  exact fun s member => parses s (perm.mem_iff.mpr member)

end Permuting

/-- Indexes that find the same classes. -/
def Agree (index index' : ClassIndex) : Prop :=
  ∀ name, index.get? name = index'.get? name

namespace Agree

variable {index index' : ClassIndex}

theorem perm (agree : Agree index index') :
    index.classes.Perm index'.classes := by
  rw [List.perm_ext_iff_of_nodup index.nodup_classes index'.nodup_classes]
  intro c
  rw [mem_classes_iff, mem_classes_iff, agree]

theorem size_eq (agree : Agree index index') : index.size = index'.size :=
  agree.perm.length_eq

theorem sorted_eq (agree : Agree index index') :
    index.sorted = index'.sorted := by
  refine List.Perm.eq_of_pairwise ?_ index.pairwise_sorted
    index'.pairwise_sorted ?_
  · rintro a b - - ⟨low, differs⟩ ⟨high, -⟩
    exact absurd (congrArg ClassName.mk (Text.le_antisymm low high)) differs
  · exact ((List.mergeSort_perm _ _).trans agree.perm).trans
      (List.mergeSort_perm _ _).symm

/-- A walk only looks classes up. -/
theorem walk_eq (agree : Agree index index')
    (next : ClassFile → List ClassName) (seen : List ClassName)
    (pending : List Link) :
    index.walk next seen pending = index'.walk next seen pending := by
  -- Along the walk of one index, the other takes the same steps.
  induction seen, pending using walk.induct index next with
  | case1 seen => rw [walk, walk]
  | case2 seen link rest visited ih =>
      rw [walk_of_seen visited, walk_of_seen visited, ih]
  | case3 seen link rest new c found ih =>
      rw [walk_of_found new found, walk_of_found new (agree _ ▸ found), ih]
  | case4 seen link rest new missing ih =>
      rw [walk_of_missing new missing, walk_of_missing new (agree _ ▸ missing),
        ih]

end Agree

end ClassIndex
end NativeGlue
