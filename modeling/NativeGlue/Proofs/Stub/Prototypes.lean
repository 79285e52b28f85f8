import NativeGlue.Proofs.Code.Identifier
import NativeGlue.Proofs.FirstUse
import NativeGlue.Proofs.Mapping.Basic
import NativeGlue.Proofs.Stub.Implementation
import NativeGlue.Proofs.Stub.UnitText
import NativeGlue.Proofs.Symbol.Signature
import NativeGlue.Proofs.Text.Separators

/-!
# Prototypes of implementations

A prototype is written with the result in front, the name before the first
parenthesis, and the parameters with commas between them. No type that a method
is mapped to has a parenthesis or a comma in it, and no name a space. So the
text tells which prototype it is.

A unit writes a block for each namespace in the order of first use, with the
prototypes of its stubs that belong there. As these are distinct, each stub has
one prototype, in the one block of its namespace.

Main statement: `implementations_apart`.
-/

namespace NativeGlue

section Plain

/-- A type that is written without parentheses and commas. -/
def IsPlainType (text : String) : Prop :=
  '(' ∉ text.toList ∧ ',' ∉ text.toList

instance (text : String) : Decidable (IsPlainType text) :=
  inferInstanceAs (Decidable (_ ∧ _))

/-- A name that is written with the characters of identifiers alone. -/
def IsPlainName (text : String) : Prop :=
  ∀ c ∈ text.toList, Code.isIdentifierChar c = true

instance (text : String) : Decidable (IsPlainName text) :=
  List.decidableBAll _ _

theorem IsPlainName.not_mem {text : String} (plain : IsPlainName text)
    {c : Char} (other : Code.isIdentifierChar c = false) :
    c ∉ text.toList := by
  intro member
  rw [plain c member] at other
  cases other

theorem IsPlainType.append {a b : String} (left : IsPlainType a)
    (right : IsPlainType b) : IsPlainType (a ++ b) := by
  simp only [IsPlainType, String.toList_append, List.mem_append, not_or]
  exact ⟨⟨left.1, right.1⟩, left.2, right.2⟩

theorem Primitive.isPlainType_cppType (kind : Primitive) :
    IsPlainType kind.cppType := by
  cases kind <;> decide

theorem Primitive.isPlainType_jniType (kind : Primitive) :
    IsPlainType kind.jniType := by
  cases kind <;> decide

theorem Mapping.isPlainType_ofArray (position : Position) (t : TypeDescriptor)
    (kind : Primitive) : IsPlainType (ofArray position t kind).cppType := by
  have element := kind.isPlainType_jniType
  cases position with
  | param =>
      exact (IsPlainType.append (a := "jnibridge::Span<") (by decide)
        element).append (b := ">") (by decide)
  | result =>
      exact (IsPlainType.append (a := "std::vector<") (by decide)
        element).append (b := ">") (by decide)

theorem Mapping.isPlainType_ofObject (position : Position) (owning : Bool)
    (t : TypeDescriptor) :
    IsPlainType (ofObject position owning t).cppType := by
  have borrowed : IsPlainType "jobject" := by decide
  have owned : IsPlainType "jnibridge::GlobalRef" := by decide
  cases position with
  | param =>
      cases owning with
      | false => exact borrowed
      | true => exact owned
  | result => exact borrowed

theorem Mapping.isPlainType_of_mapType {position : Position} {owning : Bool}
    {t : TypeDescriptor} {p : MappedType}
    (mapped : mapType position owning t = .ok p) : IsPlainType p.cppType := by
  unfold mapType at mapped
  split at mapped
  · split at mapped
    · cases mapped
    · cases mapped
      exact Primitive.isPlainType_cppType _
  · cases mapped
    cases position <;> decide
  · cases mapped
    exact isPlainType_ofObject position owning _
  · split at mapped
    · cases mapped
    · split at mapped
      · split at mapped
        · cases mapped
        · cases mapped
          exact isPlainType_ofArray position _ _
      · cases mapped

/-- A method of which no type has a parenthesis or a comma in it. -/
structure MappedMethod.IsPlain (m : MappedMethod) : Prop where
  params : ∀ p ∈ m.params, IsPlainType p.cppType
  ret : IsPlainType m.ret.cppType

theorem Mapping.isPlain_of_mapMethod {owner : ClassName} {m : Method}
    {mapped : MappedMethod} (accepted : mapMethod owner m = .ok mapped) :
    mapped.IsPlain := by
  obtain ⟨-, params, ret⟩ := mapMethod_eq_ok accepted
  refine ⟨fun p member => ?_, isPlainType_of_mapType ret⟩
  obtain ⟨t, -, mapped⟩ := (mem_mapParams params).2 p member
  exact isPlainType_of_mapType mapped

theorem isPlainName_sanitize (segment : String) :
    IsPlainName (Code.sanitize segment) :=
  fun _ member => Code.isIdentifierChar_of_mem_sanitize member

theorem IsPlainName.append {a b : String} (left : IsPlainName a)
    (right : IsPlainName b) : IsPlainName (a ++ b) := by
  intro c member
  rw [String.toList_append, List.mem_append] at member
  exact member.elim (left c) (right c)

theorem isPlainName_toString (n : Nat) : IsPlainName (toString n) := by
  intro c member
  have isDigit := Text.isDigit_of_mem_toString member
  simp [Code.isIdentifierChar, Char.isAlphanum, isDigit]

theorem isPlainName_numbered {name : String} (plain : IsPlainName name)
    (n : Nat) : IsPlainName (Lowering.numbered name n) :=
  (plain.append (by decide)).append (isPlainName_toString n)

theorem isPlainName_argName (i : Nat) : IsPlainName (Lowering.argName i) :=
  IsPlainName.append (by decide) (isPlainName_toString i)

end Plain

namespace Lowering

section Text

/-- The parameters from a position on, as a prototype writes them. -/
def paramTexts (ps : List MappedType) (start : Nat) : List String :=
  (ps.zipIdx start).map fun (p, i) => p.cppType ++ " " ++ argName i

/-- The parts of a prototype between its parentheses. -/
def insideTexts (m : MappedMethod) : List String :=
  "JNIEnv* env"
    :: ((if m.method.flags.isStatic then [] else ["jobject self"])
      ++ paramTexts m.params 0)

/--
The prototype of the implementation of a method, without a semicolon. The
environment comes first, then the object that the method belongs to, if any.
-/
def prototypeText (m : MappedMethod) (name : String) : String :=
  m.ret.cppType ++ " " ++ name ++ "("
    ++ String.intercalate ", "
      ("JNIEnv* env"
        :: ((if m.method.flags.isStatic then [] else ["jobject self"])
          ++ m.params.zipIdx.map fun (p, i) =>
            p.cppType ++ " a" ++ toString i))
    ++ ")"

theorem prototype_eq (m : MappedMethod) (name : String) :
    prototype m name = prototypeText m name := by
  simp only [prototype, append_argName, prototypeText]

theorem toList_prototype (m : MappedMethod) (name : String) :
    (prototype m name).toList =
      (m.ret.cppType.toList ++ ' ' :: name.toList)
        ++ '(' :: ((", ".toList.intercalate
          ((insideTexts m).map String.toList)) ++ [')']) := by
  rw [prototype]
  change (m.ret.cppType ++ " " ++ name ++ "("
    ++ String.intercalate ", " (insideTexts m) ++ ")").toList = _
  simp [String.toList_append, String.toList_intercalate]

theorem map_cppType_of_paramTexts_eq {ps qs : List MappedType} {start : Nat}
    (eq : paramTexts ps start = paramTexts qs start) :
    ps.map MappedType.cppType = qs.map MappedType.cppType := by
  induction ps generalizing qs start with
  | nil =>
      cases qs with
      | nil => rfl
      | cons q qs => cases eq
  | cons p ps ih =>
      cases qs with
      | nil => cases eq
      | cons q qs =>
          obtain ⟨first, rest⟩ := List.cons.inj eq
          have type : p.cppType = q.cppType := by
            rw [String.append_left_inj, String.append_left_inj] at first
            exact first
          rw [List.map_cons, List.map_cons, type, ih rest]

/-- A receiver is written in another way than any parameter. -/
theorem receiver_not_mem_paramTexts (ps : List MappedType) :
    ∀ rest, paramTexts ps 0 ≠ "jobject self" :: rest := by
  intro rest eq
  cases ps with
  | nil => cases eq
  | cons p ps =>
      have first : p.cppType ++ " " ++ argName 0 = "jobject self" :=
        (List.cons.inj eq).1
      have last := congrArg (fun s : String => s.toList.getLast?) first
      simp [argName] at last

theorem comma_not_mem_insideTexts {m : MappedMethod} (plain : m.IsPlain) :
    ∀ text ∈ insideTexts m, ',' ∉ text.toList := by
  have params : ∀ text ∈ paramTexts m.params 0, ',' ∉ text.toList := by
    intro text member
    obtain ⟨⟨p, i⟩, inside, rfl⟩ := List.mem_map.mp member
    have type := (plain.params p (List.fst_mem_of_mem_zipIdx inside)).2
    have arg := (isPlainName_argName i).not_mem (c := ',') rfl
    simp [String.toList_append, type, arg]
  intro text member
  rcases List.mem_cons.mp member with rfl | member
  · decide
  · rcases List.mem_append.mp member with receiver | param
    · split at receiver
      · cases receiver
      · rw [List.mem_singleton.mp receiver]
        decide
    · exact params text param

/-- The text of a prototype tells its name and what is in the parentheses. -/
theorem eq_of_prototype_eq {m m' : MappedMethod} {name name' : String}
    (plain : m.IsPlain) (plain' : m'.IsPlain) (named : IsPlainName name)
    (named' : IsPlainName name')
    (eq : prototype m name = prototype m' name') :
    name = name' ∧ insideTexts m = insideTexts m' := by
  have chars := congrArg String.toList eq
  rw [toList_prototype, toList_prototype] at chars
  have outside {m : MappedMethod} {name : String} (plain : m.IsPlain)
      (named : IsPlainName name) :
      '(' ∉ m.ret.cppType.toList ++ ' ' :: name.toList := by
    have result := plain.ret.1
    have name := named.not_mem (c := '(') rfl
    simp [result, name]
  obtain ⟨front, inside⟩ := Text.append_cons_inj_of_not_mem_left
    (outside plain named) (outside plain' named') chars
  obtain ⟨-, names⟩ := Text.append_cons_inj_of_not_mem_right
    (named.not_mem rfl) (named'.not_mem rfl) front
  have commas {m : MappedMethod} (plain : m.IsPlain) :
      ∀ text ∈ (insideTexts m).map String.toList, ',' ∉ text := by
    intro text member
    obtain ⟨text, inside, rfl⟩ := List.mem_map.mp member
    exact comma_not_mem_insideTexts plain text inside
  have texts := Text.intercalate_inj (commas plain) (commas plain')
    (by simp [insideTexts]) (by simp [insideTexts])
    (List.append_cancel_right inside)
  exact ⟨String.toList_injective names,
    (List.map_inj_right fun _ _ => String.toList_injective).mp texts⟩

/-- What is in the parentheses tells the receiver and the types. -/
theorem eq_of_insideTexts_eq {m m' : MappedMethod}
    (eq : insideTexts m = insideTexts m') :
    m.method.flags.isStatic = m'.method.flags.isStatic ∧
      m.params.map MappedType.cppType = m'.params.map MappedType.cppType := by
  have rest := (List.cons.inj eq).2
  cases left : m.method.flags.isStatic with
  | false =>
      cases right : m'.method.flags.isStatic with
      | false =>
          simp only [left, right] at rest
          exact ⟨rfl, map_cppType_of_paramTexts_eq (List.cons.inj rest).2⟩
      | true =>
          simp only [left, right] at rest
          exact absurd rest.symm (receiver_not_mem_paramTexts _ _)
  | true =>
      cases right : m'.method.flags.isStatic with
      | false =>
          simp only [left, right] at rest
          exact absurd rest (receiver_not_mem_paramTexts _ _)
      | true =>
          simp only [left, right] at rest
          exact ⟨rfl, map_cppType_of_paramTexts_eq rest⟩

end Text

end Lowering

namespace SourceUnit

section Groups

variable {demands : List (List String × String)} {stub : LoweredStub}

/-- What a stub has to find declared: a prototype in a namespace. -/
def demanded (stub : LoweredStub) : List String × String :=
  (stub.space, stub.prototype)

/-- The namespaces of some prototypes, in the order of first use. -/
def spacesOf (demands : List (List String × String)) : List (List String) :=
  (demands.map Prod.fst).eraseDups

/-- The prototypes of a namespace, in order. -/
def prototypesIn (demands : List (List String × String))
    (space : List String) : List String :=
  (demands.filter fun d => d.1 = space).map Prod.snd

/-- Prototypes by namespace. -/
def groupsOf (demands : List (List String × String)) :
    List (List String × List String) :=
  (spacesOf demands).map fun space => (space, prototypesIn demands space)

theorem nodup_spacesOf : (spacesOf demands).Nodup :=
  nodup_eraseDups _

theorem mem_spacesOf {space : List String} :
    space ∈ spacesOf demands ↔ ∃ d ∈ demands, d.1 = space := by
  rw [spacesOf, List.mem_eraseDups, List.mem_map]

theorem mem_prototypesIn {space : List String} {prototype : String} :
    prototype ∈ prototypesIn demands space ↔ (space, prototype) ∈ demands := by
  simp [prototypesIn]

theorem prototypesIn_concat (demands : List (List String × String))
    (d : List String × String) (space : List String) :
    prototypesIn (demands ++ [d]) space =
      prototypesIn demands space ++ if d.1 = space then [d.2] else [] := by
  rw [prototypesIn, List.filter_append, List.map_append, prototypesIn]
  split
  · rename_i same
    rw [List.filter_cons_of_pos (by simpa using same)]
    rfl
  · rename_i other
    rw [List.filter_cons_of_neg (by simpa using other)]
    rfl

/-- A prototype that is not in its group yet is added at the end of it. -/
theorem addPrototype_map {spaces : List (List String)}
    (nodup : spaces.Nodup) (f : List String → List String)
    (fresh : stub.prototype ∉ f stub.space) :
    addPrototype (spaces.map fun space => (space, f space)) stub =
      if stub.space ∈ spaces then
        spaces.map fun space => (space,
          f space ++ if stub.space = space then [stub.prototype] else [])
      else
        (spaces.map fun space => (space, f space))
          ++ [(stub.space, [stub.prototype])] := by
  induction spaces with
  | nil => rfl
  | cons space spaces ih =>
      rw [List.nodup_cons] at nodup
      rw [List.map_cons, addPrototype]
      by_cases same : space = stub.space
      · subst same
        have absent : (f stub.space).contains stub.prototype = false := by
          simpa using fresh
        have others : spaces.map (fun space => (space,
            f space ++ if stub.space = space then [stub.prototype] else [])) =
              spaces.map fun space => (space, f space) := by
          refine List.map_congr_left fun space member => ?_
          have other : stub.space ≠ space := fun eq => nodup.1 (eq ▸ member)
          rw [if_neg other, List.append_nil]
        rw [if_pos rfl, absent, if_neg Bool.false_ne_true,
          if_pos List.mem_cons_self, List.map_cons, others, if_pos rfl]
      · have elsewhere : stub.space ∈ space :: spaces ↔ stub.space ∈ spaces := by
          simp [Ne.symm same]
        rw [if_neg same, ih nodup.2]
        simp only [elsewhere, List.map_cons, Ne.symm same, if_false,
          List.append_nil, List.cons_append]
        split <;> rfl

theorem addPrototype_groupsOf (fresh : demanded stub ∉ demands) :
    addPrototype (groupsOf demands) stub =
      groupsOf (demands ++ [demanded stub]) := by
  have absent : stub.prototype ∉ prototypesIn demands stub.space :=
    fun member => fresh (mem_prototypesIn.mp member)
  have spaces : spacesOf (demands ++ [demanded stub]) =
      if stub.space ∈ spacesOf demands then spacesOf demands
      else spacesOf demands ++ [stub.space] := by
    simp only [spacesOf, List.map_append, List.map_cons, List.map_nil,
      eraseDups_concat, List.mem_eraseDups, demanded]
  rw [groupsOf, addPrototype_map nodup_spacesOf _ absent, groupsOf, spaces]
  simp only [prototypesIn_concat]
  split
  · rfl
  · -- Nothing is in the group of a namespace that is new.
    rename_i new
    have others : (spacesOf demands).map (fun space => (space,
        prototypesIn demands space
          ++ if stub.space = space then [stub.prototype] else [])) =
        groupsOf demands := by
      refine List.map_congr_left fun space member => ?_
      have other : stub.space ≠ space := fun eq => new (eq ▸ member)
      rw [if_neg other, List.append_nil]
    have empty : prototypesIn demands stub.space = [] := by
      refine List.eq_nil_iff_forall_not_mem.mpr fun p member => new ?_
      exact mem_spacesOf.mpr ⟨_, mem_prototypesIn.mp member, rfl⟩
    rw [List.map_append]
    change _ = (spacesOf demands).map (fun space => (space,
      prototypesIn demands space
        ++ if stub.space = space then [stub.prototype] else [])) ++ _
    rw [others, List.map_cons, List.map_nil, empty, groupsOf]
    simp [demanded]

/-- Stubs with prototypes of their own are all declared, and nothing else. -/
theorem prototypeGroups_eq {stubs : List LoweredStub}
    (nodup : (stubs.map demanded).Nodup) :
    prototypeGroups stubs = groupsOf (stubs.map demanded) := by
  induction stubs using List.reverseRecOn with
  | nil => rfl
  | append_singleton stubs stub ih =>
      rw [List.map_append, List.map_cons, List.map_nil,
        List.nodup_append] at nodup
      obtain ⟨earlier, -, apart⟩ := nodup
      have fresh : demanded stub ∉ stubs.map demanded := fun member =>
        apart _ member _ (List.mem_singleton_self _) rfl
      rw [prototypeGroups, List.foldl_concat, List.map_append]
      change addPrototype (prototypeGroups stubs) stub = _
      rw [ih earlier, addPrototype_groupsOf fresh]
      rfl

/-- Each of some prototypes is in the one group of its namespace, and once. -/
theorem count_groupsOf (nodup : demands.Nodup) :
    ∀ d ∈ demands, (spacesOf demands).count d.1 = 1 ∧
      (prototypesIn demands d.1).count d.2 = 1 := by
  intro d member
  refine ⟨List.count_eq_one_of_mem nodup_spacesOf
    (mem_spacesOf.mpr ⟨d, member, rfl⟩), ?_⟩
  have inside : d.2 ∈ prototypesIn demands d.1 := mem_prototypesIn.mpr member
  refine List.count_eq_one_of_mem ?_ inside
  refine List.Nodup.map_on ?_ (nodup.filter _)
  intro a inA b inB same
  have left := (List.mem_filter.mp inA).2
  have right := (List.mem_filter.mp inB).2
  rw [decide_eq_true_iff] at left right
  exact Prod.ext (left.trans right.symm) same

end Groups

end SourceUnit

namespace SignedTarget

open Lowering

variable {s : SignedTarget}

/--
The prototypes of the methods of a target under their own names. An object
that a method belongs to is a parameter in front of the others.
-/
def ownPrototypes (s : SignedTarget) : List Prototype :=
  s.methods.map fun (m, _) => {
    space := spaceOf s.target m.method
    name := Code.sanitize m.method.nativeName
    params := (if m.method.flags.isStatic then [] else ["jobject"])
      ++ m.params.map MappedType.cppType }

/-- The prototypes of the methods of a target under the names they are given. -/
def givenPrototypes (s : SignedTarget) : List Prototype :=
  named s.ownPrototypes

/-- What has to be declared for the stubs of a target, in their order. -/
def demands (s : SignedTarget) : List (List String × String) :=
  (s.methods.zip s.givenPrototypes).map fun (x, q) =>
    (spaceOf s.target x.1.method, prototypeText x.1 q.name)

theorem ownPrototypes_eq (s : SignedTarget) :
    s.ownPrototypes = s.methods.map fun x => Prototype.ofMethod s.target x.1 :=
  rfl

theorem lowerTarget_eq (s : SignedTarget) (exceptionClass : String) :
    lowerTarget s exceptionClass =
      (s.methods.zip s.givenPrototypes).map fun (x, q) =>
        lower s.target x.1 x.2 q.name exceptionClass := by
  refine List.ext_getElem ?_ fun i _ _ => ?_
  · simp [lowerTarget, givenPrototypes, ownPrototypes, implementationNames]
  · simp [lowerTarget, givenPrototypes, ownPrototypes_eq, named]

theorem map_demanded_lowerTarget (s : SignedTarget) (exceptionClass : String) :
    (lowerTarget s exceptionClass).map SourceUnit.demanded = s.demands := by
  rw [lowerTarget_eq, List.map_map, demands]
  refine List.map_congr_left fun ⟨x, q⟩ _ => ?_
  exact congrArg (spaceOf s.target x.1.method, ·) (prototype_eq x.1 q.name)

/-- A method is given its own prototype under a plain name. -/
theorem exists_eq_of_mem_zip {x : MappedMethod × Signature} {q : Prototype}
    (member : (x, q) ∈ s.methods.zip s.givenPrototypes) :
    ∃ name, IsPlainName name ∧
      q = { Prototype.ofMethod s.target x.1 with name } := by
  obtain ⟨i, there⟩ := List.mem_iff_getElem?.mp member
  obtain ⟨method, given⟩ := List.getElem?_zip_eq_some.mp there
  have own : s.ownPrototypes[i]? = some (Prototype.ofMethod s.target x.1) := by
    rw [ownPrototypes_eq, List.getElem?_map, method]
    rfl
  obtain ⟨name, -, rfl⟩ := getElem?_named own given
  refine ⟨name, ?_, rfl⟩
  by_cases kept : name = (Prototype.ofMethod s.target x.1).name
  · rw [kept]
    exact isPlainName_sanitize _
  · obtain ⟨⟨n, -, eq⟩, -⟩ :=
      (distinguishes_named s.ownPrototypes).numbered i _ _ own given kept
    rw [show name = _ from eq]
    exact isPlainName_numbered (isPlainName_sanitize _) n

/-- The stubs of a target demand prototypes of their own. -/
theorem nodup_demands (plain : ∀ x ∈ s.methods, x.1.IsPlain) :
    s.demands.Nodup := by
  have seconds : (s.methods.zip s.givenPrototypes).map Prod.snd =
      s.givenPrototypes := by
    refine List.map_snd_zip ?_
    simp [givenPrototypes, ownPrototypes]
  have apart : (s.methods.zip s.givenPrototypes).Pairwise
      fun x y => x.2 ≠ y.2 := by
    have nodup : s.givenPrototypes.Nodup := nodup_named s.ownPrototypes
    rw [← seconds] at nodup
    exact List.pairwise_map.mp nodup
  refine List.pairwise_map.mpr (apart.imp_of_mem ?_)
  rintro ⟨x, q⟩ ⟨y, r⟩ memberX memberY other same
  obtain ⟨space, text⟩ := Prod.mk.inj same
  rw [← prototype_eq, ← prototype_eq] at text
  obtain ⟨name, plainName, rfl⟩ := exists_eq_of_mem_zip memberX
  obtain ⟨name', plainName', rfl⟩ := exists_eq_of_mem_zip memberY
  have plainX := plain x (List.of_mem_zip memberX).1
  have plainY := plain y (List.of_mem_zip memberY).1
  obtain ⟨rfl, inside⟩ :=
    eq_of_prototype_eq plainX plainY plainName plainName' text
  obtain ⟨receiver, types⟩ := eq_of_insideTexts_eq inside
  refine other ((Prototype.mk.injEq ..).mpr ⟨space, rfl, ?_⟩)
  change (if x.1.method.flags.isStatic then [] else ["jobject"])
      ++ x.1.params.map MappedType.cppType
    = (if y.1.method.flags.isStatic then [] else ["jobject"])
      ++ y.1.params.map MappedType.cppType
  rw [receiver, types]

/-- The methods of a signed target are mapped to plain types. -/
theorem isPlain_of_sign {naming : NamingScheme} {registry after : Registry}
    {t : Target}
    (signed : sign naming registry (Mapping.mapTarget t) = (.ok s, after)) :
    ∀ x ∈ s.methods, x.1.IsPlain := by
  obtain ⟨ranks, -, rfl, -⟩ := sign_eq_ok_iff.mp signed
  intro x member
  obtain ⟨mapped, inside, rfl⟩ := List.mem_map.mp member
  obtain ⟨m, -, accepted⟩ := Mapping.mem_mappable.mp inside
  have plain := Mapping.isPlain_of_mapMethod accepted
  exact ⟨plain.params, plain.ret⟩

/-- Signing leaves the prototypes of mapped methods as they are. -/
theorem ownPrototypes_of_sign {naming : NamingScheme}
    {registry after : Registry} {t : Target}
    (signed : sign naming registry (Mapping.mapTarget t) = (.ok s, after)) :
    s.ownPrototypes =
      (Mapping.mapTarget t).methods.map (Prototype.ofMethod t) := by
  obtain ⟨ranks, -, rfl, -⟩ := sign_eq_ok_iff.mp signed
  rw [ownPrototypes_eq, ofRanks, List.map_map]
  rfl

theorem demands_of_sign {naming : NamingScheme} {registry after : Registry}
    {t : Target}
    (signed : sign naming registry (Mapping.mapTarget t) = (.ok s, after)) :
    s.demands =
      ((Mapping.mapTarget t).methods.zip s.givenPrototypes).map fun (m, q) =>
        (spaceOf t m.method, prototypeText m q.name) := by
  obtain ⟨ranks, -, eq, -⟩ := sign_eq_ok_iff.mp signed
  have methods : s.methods = (ofRanks naming (Mapping.mapTarget t) ranks).methods :=
    congrArg SignedTarget.methods eq
  have target : s.target = (ofRanks naming (Mapping.mapTarget t) ranks).target :=
    congrArg SignedTarget.target eq
  rw [demands, methods, target, ofRanks, List.zip_map_left, List.map_map]
  rfl

end SignedTarget

namespace SourceUnit

open Lowering

/--
Let a target be signed. Then its stubs call implementations under names by
which they are told apart: a name is kept where no other mapped method has the
same namespace, name and parameters, else it is numbered below the number of
mapped methods, and nobody else has the name in that namespace. These are the
names that counting up gives out, and each search for a number ends.

The unit has one block of prototypes for each namespace, and in it the prototype
of each stub of that namespace once. Behind the prototypes it has only the
definitions of the stubs, and code written by hand.
-/
theorem implementations_apart {naming : NamingScheme}
    {registry after : Registry} {t : Target} {s : SignedTarget}
    (signed : SignedTarget.sign naming registry (Mapping.mapTarget t) =
      (.ok s, after))
    (options : EmitOptions) :
    (lowerTarget s options.exceptionClass =
      (s.methods.zip s.givenPrototypes).map fun (x, q) =>
        lower s.target x.1 x.2 q.name options.exceptionClass) ∧
    Distinguishes s.ownPrototypes s.givenPrototypes ∧
    (∀ names, Names s.ownPrototypes (keptNames s.ownPrototypes) (fun _ => 0)
        s.ownPrototypes names ↔ names = s.givenPrototypes.map Prototype.name) ∧
    (∀ taken p start, ∃ k, CountsTo taken p start k) ∧
    s.demands.Nodup ∧
    (∀ d ∈ s.demands, (spacesOf s.demands).count d.1 = 1 ∧
      (prototypesIn s.demands d.1).count d.2 = 1) ∧
    (ofTarget options s).contents =
      preambleText s.target options
        ++ String.join ((spacesOf s.demands).map fun space =>
          spaceText space (prototypesIn s.demands space))
        ++ String.intercalate "\n"
          ((lowerTarget s options.exceptionClass).map
            fun lowered => lowered.stub.definitionText)
        ++ String.join (s.target.customCode.map customText) := by
  have given : s.givenPrototypes.map Prototype.name =
      implementationNames s.ownPrototypes := by
    refine List.ext_getElem ?_ fun i _ _ => ?_
    · simp [SignedTarget.givenPrototypes, implementationNames]
    · simp [SignedTarget.givenPrototypes, named]
  have nodup := SignedTarget.nodup_demands (SignedTarget.isPlain_of_sign signed)
  have stubs :=
    SignedTarget.map_demanded_lowerTarget s options.exceptionClass
  have groups : prototypeGroups (lowerTarget s options.exceptionClass) =
      groupsOf s.demands := by
    rw [← stubs] at nodup ⊢
    exact prototypeGroups_eq nodup
  refine ⟨SignedTarget.lowerTarget_eq s options.exceptionClass,
    distinguishes_named s.ownPrototypes, ?_, exists_countsTo, nodup,
    count_groupsOf nodup, ?_⟩
  · intro names
    rw [given]
    exact names_iff_eq_implementationNames
  · rw [contents_ofTarget, groups, groupsOf, List.map_map]
    rfl

/--
A class in which the parameters of two methods are the same in C++, a third has
the name that one of them would be given, and a fourth is in a namespace of its
own.
-/
def overloadedTarget : Target where
  name := ⟨"a/B"⟩
  methods :=
    [.ofName "f" ⟨[.object ⟨"a/X"⟩], .void⟩ ⟨true, false, false⟩,
      .ofName "f_0" ⟨[.object ⟨"a/Y"⟩], .void⟩ ⟨true, false, false⟩,
      (Method.ofName "g" ⟨[.string], .primitive .int⟩ ⟨false, false, false⟩).withSpace
        "x::y",
      .ofName "f" ⟨[], .void⟩ ⟨false, false, false⟩]

/-- The prototypes of its implementations, each with its namespace. -/
def overloadedDemands : List (List String × String) :=
  [(["a"], "void f_1(JNIEnv* env, jobject a0)"),
    (["a"], "void f_0(JNIEnv* env, jobject a0)"),
    (["x", "y"], "std::int32_t g(JNIEnv* env, jobject self, const char* a0)"),
    (["a"], "void f_2(JNIEnv* env, jobject self)")]

/-- The lines that its unit declares them with. -/
def overloadedBlocks : List String :=
  ["namespace a \x7b", "", "void f_1(JNIEnv* env, jobject a0);",
    "void f_0(JNIEnv* env, jobject a0);",
    "void f_2(JNIEnv* env, jobject self);", "", "\x7d  // namespace a", "",
    "namespace x::y \x7b", "",
    "std::int32_t g(JNIEnv* env, jobject self, const char* a0);", "",
    "\x7d  // namespace x::y", ""]

theorem implementations_apart_overloadedTarget :
    ∃ s after,
      SignedTarget.sign .jni .empty (Mapping.mapTarget overloadedTarget) =
        (.ok s, after) ∧
      Distinguishes s.ownPrototypes s.givenPrototypes ∧
      s.givenPrototypes.map Prototype.name = ["f_1", "f_0", "g", "f_2"] ∧
      ∀ options : EmitOptions, ∃ front back,
        (ofTarget options s).contents =
          front
            ++ Code.linesText overloadedBlocks ++ back := by
  have legal : overloadedTarget.Legal := by decide
  have ranked : Overload.ranks overloadedTarget.name
      overloadedTarget.methods = .ok _ :=
    (Overload.ranks_eq_ok_iff legal.canonical).mpr ⟨by decide, rfl⟩
  have once := legal.nodup_claims ranked
    fun indexed : NamingScheme.jni = .indexed => by cases indexed
  have free (x : String × Claim) : x.1 ∉ Registry.empty.entryPoints :=
    List.not_mem_nil
  have claimed :=
    Registry.claimAll_eq_ok_iff.mpr ⟨once, fun x _ => free x, rfl⟩
  have signed := SignedTarget.sign_eq_ok_iff.mpr ⟨_, ranked, rfl, claimed⟩
  have apart := implementations_apart signed
  refine ⟨_, _, signed, (apart { version := "1" }).2.1, ?_, fun options => ?_⟩
  · rw [SignedTarget.givenPrototypes,
      SignedTarget.ownPrototypes_of_sign signed]
    decide
  · obtain ⟨-, -, -, -, -, -, contents⟩ := apart options
    have demands := SignedTarget.demands_of_sign signed
    rw [SignedTarget.givenPrototypes,
      SignedTarget.ownPrototypes_of_sign signed] at demands
    have texts : _ = overloadedDemands := demands.trans (by decide)
    have blocks : String.join ((spacesOf overloadedDemands).map fun space =>
        spaceText space (prototypesIn overloadedDemands space)) =
          Code.linesText overloadedBlocks := by
      decide +kernel
    rw [contents, texts, blocks]
    exact ⟨_, _, String.append_assoc⟩

end SourceUnit
end NativeGlue
