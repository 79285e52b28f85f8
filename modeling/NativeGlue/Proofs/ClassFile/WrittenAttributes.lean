import Mathlib.Order.Nat
import NativeGlue.Proofs.ClassFile.WrittenAnnotations

/-!
# Written attributes are read

The attributes of a class or method are read one by one. Those for the two
visibilities stand apart in the file, and what is read of them is joined: the
visible annotations in front, parameter by parameter where they are those of
parameters.
-/

namespace NativeGlue

open NativeGlue.Parser Writer

section Attributes

variable {kind : AttributeKind} {body : Writer} {n : Nat} {found : Attribute}

theorem AttributeKind.ofName?_name (kind : AttributeKind) :
    ofName? kind.name = some kind := by
  cases kind with
  | annotations visible | parameterAnnotations visible =>
      cases visible <;> decide
  | sourceFile => decide

theorem AttributeKind.textFits_name (kind : AttributeKind) :
    TextFits kind.name := by
  cases kind with
  | annotations visible | parameterAnnotations visible =>
      cases visible <;> decide
  | sourceFile => decide

theorem Attribute.readWhole_eq {name : String} {declared : Nat}
    {p : Parser Attribute} {offset : Nat} {contents : List UInt8}
    (inside : Reads p offset contents found) :
    readWhole name declared ⟨offset, contents⟩ p = pure found := by
  have read := inside []
  rw [List.append_nil] at read
  rw [readWhole, read]
  rfl

/-- An attribute is read if its contents are, and their size can be written. -/
theorem ReadAs.attribute (inside : ReadAs body kind.readBody found)
    (size : HasSize body n) (small : n < 2 ^ 32) :
    ReadAs (kind.write body) Attribute.read found where
  keeps := inside.keeps.bind fun _ =>
    (Finds.text kind.textFits_name).keeps.bind fun _ => keeps_pure _
  reads p final later offset := by
    -- in the file the name comes first, into the pool it enters last
    have named := Finds.text kind.textFits_name
    have between : (body p).2.Final final :=
      ⟨(named.keeps.grows (body p).2).trans later.le, later.small⟩
    have length : (UInt32.ofNat (body p).1.length).toNat =
        (body p).1.length := by
      rw [UInt32.toNat_ofNat', size p, Nat.mod_eq_of_lt small]
    change Reads _ _ (Bytes.u2 (PoolBuilder.text kind.name (body p).2).1
      ++ Bytes.u4 (body p).1.length ++ (body p).1) _
    rw [List.append_assoc]
    refine ((ReadAs.index named).reads (body p).2 final later offset).bind ?_
    refine (reads_u4 (body p).1.length).bind ?_
    rw [length]
    intro rest
    rw [bind_eq_of_ok (reads_window (body p).1 rest), kind.ofName?_name]
    exact congrFun (Attribute.readWhole_eq (inside.reads p final between _)) _

end Attributes

section Parameters

variable {visible : Bool} {parameters : List (Nat × AnnotationSpec)}

theorem getD_max?_cons (n : Nat) (ns : List Nat) :
    (n :: ns).max?.getD 0 = max n (ns.max?.getD 0) := by
  rw [List.max?_cons]
  cases ns.max? with
  | none => exact (Nat.max_zero n).symm
  | some last => rfl

theorem parameterCount_cons (p : Nat × AnnotationSpec)
    (parameters : List (Nat × AnnotationSpec)) :
    parameterCount (p :: parameters) =
      max (p.1 + 1) (parameterCount parameters) :=
  getD_max?_cons (p.1 + 1) _

theorem parameterCount_le_iff {n : Nat} :
    parameterCount parameters ≤ n ↔ ∀ p ∈ parameters, p.1 < n := by
  induction parameters with
  | nil => exact iff_of_true (Nat.zero_le n) (List.forall_mem_nil _)
  | cons p parameters ih =>
      rw [parameterCount_cons, Nat.max_le, ih, List.forall_mem_cons]
      rfl

theorem mem_parametersOfVisibility {p : Nat × AnnotationSpec} :
    p ∈ parametersOfVisibility visible parameters ↔
      p ∈ parameters ∧ p.2.visible = visible := by
  rw [parametersOfVisibility, List.mem_filter, decide_eq_true_iff]

/-- The last parameter with an annotation is that of one visibility. -/
theorem parameterCount_eq_max (parameters : List (Nat × AnnotationSpec)) :
    parameterCount parameters =
      max (parameterCount (parametersOfVisibility true parameters))
        (parameterCount (parametersOfVisibility false parameters)) := by
  -- both sides are at most the same numbers
  refine eq_of_forall_ge_iff fun n => ?_
  simp only [Nat.max_le, parameterCount_le_iff, mem_parametersOfVisibility]
  constructor
  · intro all
    exact ⟨fun p member => all p member.1, fun p member => all p member.1⟩
  · rintro ⟨visible, hidden⟩ p member
    cases seen : p.2.visible with
    | true => exact visible p ⟨member, seen⟩
    | false => exact hidden p ⟨member, seen⟩

theorem annotationsAt_parametersOfVisibility (visible : Bool)
    (parameters : List (Nat × AnnotationSpec)) (i : Nat) :
    annotationsAt (parametersOfVisibility visible parameters) i =
      ofVisibility visible (annotationsAt parameters i) := by
  rw [annotationsAt, annotationsAt, parametersOfVisibility, ofVisibility,
    List.filter_map, List.filter_filter, List.filter_filter]
  congr 2
  funext p
  exact Bool.and_comm _ _

/-- Behind the last parameter with an annotation there is none. -/
theorem annotationsAt_eq_nil {i : Nat}
    (behind : parameterCount parameters ≤ i) :
    annotationsAt parameters i = [] := by
  rw [annotationsAt, List.map_eq_nil_iff, List.filter_eq_nil_iff]
  intro p member here
  have before := parameterCount_le_iff.mp behind p member
  exact before.ne (of_decide_eq_true here)

namespace Attribute

@[simp] theorem merge_nil (xs : List (List Annotation)) : merge xs [] = xs := by
  cases xs <;> rfl

/-- Lists that are joined reach as far as the longer of the two. -/
theorem merge_range {f g : Nat → List Annotation} {m n : Nat}
    (f_nil : ∀ i, m ≤ i → f i = []) (g_nil : ∀ i, n ≤ i → g i = []) :
    merge ((List.range m).map f) ((List.range n).map g) =
      (List.range (max m n)).map fun i => f i ++ g i := by
  induction m generalizing n f g with
  | zero =>
      -- `f` is empty everywhere, and so is `g` in the case below
      have all : (fun i => f i ++ g i) = g := by
        funext i
        rw [f_nil i i.zero_le, List.nil_append]
      rw [all, Nat.zero_max]
      rfl
  | succ m ih =>
      cases n with
      | zero =>
          have all : (fun i => f i ++ g i) = f := by
            funext i
            rw [g_nil i i.zero_le, List.append_nil]
          rw [all, Nat.max_zero]
          exact merge_nil _
      | succ n =>
          rw [Nat.succ_max_succ, List.range_succ_eq_map, List.range_succ_eq_map,
            List.range_succ_eq_map, List.map_cons, List.map_cons,
            List.map_cons, List.map_map, List.map_map, List.map_map]
          have rest := ih
            (fun i le => f_nil (i + 1) (Nat.succ_le_succ le))
            (fun i le => g_nil (i + 1) (Nat.succ_le_succ le))
          exact congrArg _ rest

theorem merge_parameterGroups (parameters : List (Nat × AnnotationSpec)) :
    merge
        ((parameterGroups true parameters).map
          (List.map AnnotationSpec.described))
        ((parameterGroups false parameters).map
          (List.map AnnotationSpec.described)) =
      describedParameters parameters := by
  have behind (visible : Bool) (i : Nat)
      (le : parameterCount (parametersOfVisibility visible parameters) ≤ i) :
      (annotationsAt (parametersOfVisibility visible parameters) i).map
        AnnotationSpec.described = [] := by
    rw [annotationsAt_eq_nil le, List.map_nil]
  rw [parameterGroups, parameterGroups, List.map_map, List.map_map]
  refine (merge_range (behind true) (behind false)).trans ?_
  rw [describedParameters, ← parameterCount_eq_max]
  simp only [annotationsAt_parametersOfVisibility, describedAnnotations,
    List.map_append]

end Attribute

end Parameters

section Described

variable (visible : Bool) (annotations : List AnnotationSpec)
  (parameters : List (Nat × AnnotationSpec))

/-- The attribute that is read for annotations of one visibility. -/
def describedAttribute : List Attribute :=
  let chosen := ofVisibility visible annotations
  if chosen.isEmpty then
    []
  else
    [.annotations visible (chosen.map AnnotationSpec.described)]

/-- The attribute that is read for annotations of parameters. -/
def describedParameterAttribute : List Attribute :=
  let groups := parameterGroups visible parameters
  if groups.isEmpty then
    []
  else
    [.parameterAnnotations (groups.map (List.map AnnotationSpec.described))]

/-- An attribute is left out if it has nothing to hold. -/
theorem length_ite_nil_le {p : Prop} [Decidable p] (found : Attribute) :
    (if p then [] else [found]).length ≤ 1 := by
  split
  · exact Nat.zero_le 1
  · exact le_rfl

end Described

section Lists

variable {visible : Bool} {annotations : List AnnotationSpec}
  {parameters : List (Nat × AnnotationSpec)}

/-- A list of attributes is read as one of what they hold. -/
abbrev ReadAsAttributes (ws : List Writer) (found : List Attribute) : Prop :=
  List.Forall₂ (fun w x => ReadAs w Attribute.read x) ws found

theorem readAs_annotationAttribute (fit : AnnotationsFit annotations)
    (visible : Bool) :
    ReadAsAttributes (annotationAttribute annotations visible)
      (describedAttribute visible annotations) := by
  have each (a : AnnotationSpec) (member : a ∈ ofVisibility visible annotations) :
      a.WithinLimits ∧ a.visible = visible := by
    rw [ofVisibility, List.mem_filter, decide_eq_true_iff] at member
    exact ⟨fit.each a member.1, member.2⟩
  rw [annotationAttribute, describedAttribute, ← ofVisibility]
  split
  · exact .nil
  · refine .cons (ReadAs.attribute ?_ (hasSize_annotations _) (fit.sizes _)) .nil
    exact (readAs_annotations each (fit.counts visible)).map _

/-- The attribute for parameters is written group by group. -/
theorem parameterAttribute_eq (parameters : List (Nat × AnnotationSpec))
    (visible : Bool) :
    parameterAttribute parameters visible =
      let groups := parameterGroups visible parameters
      if groups.isEmpty then
        []
      else
        [(AttributeKind.parameterAnnotations visible).write
          (.seq (.plain [UInt8.ofNat groups.length])
            (.all (groups.map fun group =>
              .counted (group.map AnnotationSpec.write))))] := by
  rw [parameterAttribute, parameterGroups, parameterCount,
    ← parametersOfVisibility]
  -- there is a last parameter exactly if there is a group to write
  split
  · rename_i last
    rw [last]
    rfl
  · rename_i count last
    have pos : 0 < count := by
      obtain ⟨p, -, rfl⟩ := List.mem_map.mp (List.max?_mem last)
      exact p.1.succ_pos
    have filled : (List.range count).isEmpty = false :=
      List.isEmpty_eq_false_iff.mpr
        (List.ne_nil_of_mem (List.mem_range.mpr pos))
    simp only [last, Option.getD_some, List.isEmpty_map, filled,
      List.length_map, List.length_range, List.map_map]
    rfl

theorem each_parameterGroups (fit : ParametersFit parameters)
    {visible : Bool} {group : List AnnotationSpec}
    (member : group ∈ parameterGroups visible parameters) :
    ∀ a ∈ group, a.WithinLimits ∧ a.visible = visible := by
  obtain ⟨i, -, rfl⟩ := List.mem_map.mp member
  intro a at_place
  obtain ⟨p, found, rfl⟩ := List.mem_map.mp at_place
  have chosen := mem_parametersOfVisibility.mp (List.mem_filter.mp found).1
  exact ⟨(fit.each p chosen.1).2, chosen.2⟩

theorem length_parameterGroups_le (fit : ParametersFit parameters)
    (visible : Bool) : (parameterGroups visible parameters).length ≤ 255 := by
  rw [parameterGroups, List.length_map, List.length_range,
    parameterCount_le_iff]
  intro p member
  exact (fit.each p (mem_parametersOfVisibility.mp member).1).1

theorem readAs_parameterAttribute (fit : ParametersFit parameters)
    (visible : Bool) :
    ReadAsAttributes (parameterAttribute parameters visible)
      (describedParameterAttribute visible parameters) := by
  have few := length_parameterGroups_le fit visible
  rw [parameterAttribute_eq, describedParameterAttribute]
  generalize grouped : parameterGroups visible parameters = groups at few
  have count : (UInt8.ofNat groups.length).toNat = groups.length := by
    rw [UInt8.toNat_ofNat', Nat.mod_eq_of_lt (Nat.lt_succ_of_le few)]
  dsimp only
  split
  · exact .nil
  · refine .cons (ReadAs.attribute (n := 1 + (groups.map listSize).sum)
      ?_ ?_ ?_) .nil
    · refine ReadAs.map Attribute.parameterAnnotations ?_
      refine (ReadAs.plain fun _ => reads_u1 _).bind ?_
      have lists := ReadAs.all (ReadAs.each_map fun group member =>
        readAs_annotations (each_parameterGroups fit member)
          (fit.counts visible group member))
      rwa [List.length_map, grouped, ← count] at lists
    · exact (HasSize.plain _).seq
        (HasSize.all fun group _ => hasSize_annotations group)
    · rw [← grouped]
      exact fit.sizes visible

theorem readAs_sourceAttribute {name : Option String}
    (fit : ∀ s ∈ name.toList, TextFits s) :
    ReadAsAttributes (sourceAttribute name)
      (name.toList.map Attribute.sourceFile) := by
  refine ReadAs.each_map fun s member => ?_
  exact ReadAs.attribute ((ReadAs.index (.text (fit s member))).map _)
    (HasSize.index _) (by decide)

namespace Attribute

@[simp] theorem flatMap_annotationsOf (wanted : Bool) :
    (describedAttribute visible annotations).flatMap (annotationsOf wanted) =
      if visible = wanted then
        (ofVisibility visible annotations).map AnnotationSpec.described
      else [] := by
  rw [describedAttribute]
  split
  · rename_i empty
    rw [List.isEmpty_iff.mp empty]
    split <;> rfl
  · simp only [List.flatMap_cons, List.flatMap_nil, List.append_nil,
      annotationsOf]

@[simp] theorem flatMap_annotationsOf_parameters (wanted : Bool) :
    (describedParameterAttribute visible parameters).flatMap
      (annotationsOf wanted) = [] := by
  rw [describedParameterAttribute]
  split <;> rfl

@[simp] theorem filterMap_sourceFileOf :
    (describedAttribute visible annotations).filterMap sourceFileOf = [] := by
  rw [describedAttribute]
  split <;> rfl

@[simp] theorem foldl_merge_described (lists : List (List Annotation)) :
    ((describedAttribute visible annotations).map parametersOf).foldl merge
      lists = lists := by
  rw [describedAttribute]
  split
  · rfl
  · exact merge_nil lists

theorem foldl_merge_parameters (lists : List (List Annotation)) :
    ((describedParameterAttribute visible parameters).map parametersOf).foldl
        merge lists =
      merge lists ((parameterGroups visible parameters).map
        (List.map AnnotationSpec.described)) := by
  rw [describedParameterAttribute]
  split
  · rename_i empty
    rw [List.isEmpty_iff.mp empty]
    exact (merge_nil lists).symm
  · rfl

end Attribute

end Lists

end NativeGlue
