import NativeGlue.ClassFile.Basic
import NativeGlue.Scan.Classpath

/-!
# The class index

All classes of a classpath by name. A class that an earlier root defines hides
later definitions. Super types and inherited metadata are found by walking
from class to class, and a walk visits every name at most once.
-/

namespace NativeGlue

/-- Classes, each name once. -/
structure ClassIndex where
  classes : List ClassFile
  distinct : (classes.map ClassFile.name).Nodup

/-- A step of a walk: a class, and a name that it mentions. -/
structure Link where
  source : ClassName
  target : ClassName
deriving DecidableEq, Repr, Inhabited

namespace ClassIndex

/-- The classes of some sources; the first that is malformed is the fault. -/
def parseAll : List ClassSource → Except ScanError (List ClassFile)
  | [] => .ok []
  | s :: rest =>
      match ClassFile.parse s.bytes with
      | .error cause => .error (.malformed s.origin cause)
      | .ok c =>
          match parseAll rest with
          | .error e => .error e
          | .ok cs => .ok (c :: cs)

/-- The index without classes. -/
def empty : ClassIndex := ⟨[], .nil⟩

instance : Inhabited ClassIndex := ⟨empty⟩

/-- The names of the classes. -/
def names (index : ClassIndex) : List ClassName :=
  index.classes.map ClassFile.name

/-- An index with one more class, whose name is not taken. -/
def insert (index : ClassIndex) (c : ClassFile) (h : c.name ∉ index.names) :
    ClassIndex where
  classes := index.classes ++ [c]
  distinct := by
    rw [List.map_append, List.nodup_append]
    refine ⟨index.distinct, by simp, ?_⟩
    intro a ha b hb hab
    obtain rfl : b = c.name := by simpa using hb
    exact h (hab ▸ ha)

/-- An index with one more class, unless its name is taken or it is no class. -/
def add (index : ClassIndex) (c : ClassFile) : ClassIndex :=
  if h : c.isDescriptor = true ∨ c.name ∈ index.names then index
  else index.insert c fun hc => h (.inr hc)

/-- The index of the classes of some roots, in classpath order. -/
def ofRoots (roots : List (List ClassSource)) : Except ScanError ClassIndex :=
  match parseAll roots.flatten with
  | .error e => .error e
  | .ok files => .ok (files.foldl add empty)

/-- Number of classes. -/
def size (index : ClassIndex) : Nat :=
  index.classes.length

/-- The class of a given name. -/
def get? (index : ClassIndex) (name : ClassName) : Option ClassFile :=
  index.classes.find? fun c => c.name = name

/-- The classes by name. -/
def sorted (index : ClassIndex) : List ClassFile :=
  index.classes.mergeSort fun a b => a.name.le b.name

/-- The classes whose names are not among some names. -/
def unseen (index : ClassIndex) (seen : List ClassName) : List ClassFile :=
  index.classes.filter fun c => !seen.contains c.name

/-- A class that is found is no longer among the unseen ones. -/
theorem length_unseen_cons_lt {index : ClassIndex} {seen : List ClassName}
    {name : ClassName} {c : ClassFile} (h : index.get? name = some c)
    (hn : ¬ seen.contains name = true) :
    (index.unseen (name :: seen)).length < (index.unseen seen).length := by
  have hmem : c ∈ index.classes := List.mem_of_find?_eq_some h
  have hname : c.name = name := by simpa using List.find?_some h
  have hsub :
      index.unseen (name :: seen)
        = (index.unseen seen).filter fun d => d.name ≠ name := by
    simp only [unseen, List.filter_filter]
    congr 1
    funext d
    simp
  rw [hsub]
  apply List.length_filter_lt_length_iff_exists.2
  refine ⟨c, ?_, by simp [hname]⟩
  simp only [unseen, List.mem_filter]
  refine ⟨hmem, ?_⟩
  rw [hname]
  simpa using hn

/-- More names seen leave no more classes unseen. -/
theorem length_unseen_cons_le (index : ClassIndex) (seen : List ClassName)
    (name : ClassName) :
    (index.unseen (name :: seen)).length ≤ (index.unseen seen).length := by
  unfold unseen
  rw [← List.countP_eq_length_filter, ← List.countP_eq_length_filter]
  apply List.countP_mono_left
  intro c _ hc
  simp only [List.contains_cons, Bool.not_or, Bool.and_eq_true] at hc
  exact hc.2

/--
Follows links depth first. The result has every link that led to a name for
the first time, in the order of the walk; `next` gives the names that a class
leads to.
-/
def walk (index : ClassIndex) (next : ClassFile → List ClassName)
    (seen : List ClassName) : List Link → List Link
  | [] => []
  | link :: rest =>
      if _hs : seen.contains link.target = true then
        walk index next seen rest
      else
        match _hf : index.get? link.target with
        | some c =>
            link :: walk index next (link.target :: seen)
              ((next c).map (Link.mk c.name) ++ rest)
        | none => link :: walk index next (link.target :: seen) rest
termination_by pending => ((index.unseen seen).length, pending.length)
decreasing_by
  · exact Prod.Lex.right _ (by simp)
  · exact Prod.Lex.left _ _ (length_unseen_cons_lt _hf _hs)
  · rcases Nat.lt_or_eq_of_le
      (length_unseen_cons_le index seen link.target) with hlt | heq
    · exact Prod.Lex.left _ _ hlt
    · rw [heq]
      exact Prod.Lex.right _ (by simp)

/-- The direct super types of a class, its interfaces first. -/
def superTypes (c : ClassFile) : List ClassName :=
  c.interfaces ++ c.superclass.toList

/-- The names of all super types of a class, in the order of a walk. -/
def ancestors (index : ClassIndex) (c : ClassFile) : List ClassName :=
  (index.walk superTypes [] ((superTypes c).map (Link.mk c.name))).map
    Link.target

/-- Whether an interface is among the super types of a class. -/
def implements (index : ClassIndex) (c : ClassFile) (name : ClassName) : Bool :=
  (index.ancestors c).contains name

/-- The super types of a class that the index lacks, but for the root class. -/
def unresolved (index : ClassIndex) (c : ClassFile) : List ClassName :=
  (index.ancestors c).filter fun name =>
    (index.get? name).isNone && name ≠ ClassName.object

end ClassIndex
end NativeGlue
