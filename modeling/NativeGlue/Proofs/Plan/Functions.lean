import NativeGlue.Proofs.Plan.Independence
import NativeGlue.Proofs.Stub.UnitText
import NativeGlue.Proofs.Table.Registration

/-!
# Functions of native methods

A native method demands a function of the library: its parameters are the
environment, the class or the object, and then those of the descriptor, each
with its type in `jni.h`.

**Entries.** The entries of a table are the mapped methods of the targets that
get a unit, in their order, and each registers the function that its method
demands.

**Definitions.** The stubs of all units, in their order, define just these
functions, each in the unit of the entry's class and none twice. The header that
is written has the types of the method and the symbol of the entry.

**Declarations.** The registration unit declares all of them in one block, with
the same types and symbols.

Main statement: `entries_bound_and_defined`.
-/

namespace NativeGlue

/-- The type in `jni.h` that values of a type have. -/
def TypeDescriptor.nativeType : TypeDescriptor → String
  | primitive .void => "void"
  | primitive kind => "j" ++ kind.name
  | string => "jstring"
  | object _ => "jobject"
  | array (primitive kind) 1 => "j" ++ kind.name ++ "Array"
  | array _ _ => "jobjectArray"

/-- The function, under some symbol, that a native method demands. -/
def Method.nativeFunction (m : Method) (symbol : String) : NativeFunction where
  symbol
  returnType := m.descriptor.ret.nativeType
  params :=
    "JNIEnv*" :: (if m.flags.isStatic then "jclass" else "jobject")
      :: m.descriptor.params.map TypeDescriptor.nativeType

/-- An entry binds a method of a target to the function that it demands. -/
structure Entry.Binds (e : Entry) (t : Target) (m : Method) : Prop where
  owner : e.owner = t.name
  method : e.method = m.name
  descriptor : MethodDescriptor.parse e.descriptor = .ok m.descriptor
  function : e.function = m.nativeFunction e.entryPoint
  arity : e.function.params.length = m.descriptor.params.length + 2

/-- The parameters of that function as they are written in its definition. -/
def Method.parameterTexts (m : Method) : List String :=
  "JNIEnv* env" :: (if m.flags.isStatic then "jclass" else "jobject self")
    :: m.descriptor.params.zipIdx.map fun (t, i) =>
      t.nativeType ++ " a" ++ toString i

/-- The header of its definition. -/
def Method.definitionHeader (m : Method) (symbol : String) : String :=
  "extern \"C\" JNIEXPORT " ++ m.descriptor.ret.nativeType ++ " JNICALL "
    ++ symbol ++ "(" ++ String.intercalate ", " m.parameterTexts ++ ")"

/-- The line that declares it. -/
def Method.declarationLine (m : Method) (symbol : String) : String :=
  "JNIEXPORT " ++ m.descriptor.ret.nativeType ++ " JNICALL " ++ symbol ++ "("
    ++ String.intercalate ", "
      ("JNIEnv*" :: (if m.flags.isStatic then "jclass" else "jobject")
        :: m.descriptor.params.map TypeDescriptor.nativeType)
    ++ ");"

/--
A stub in a file defines the function of an entry, which a method demands: from
the start of a line on, the file has the header of the function and the body of
the stub.
-/
structure Entry.DefinedBy (e : Entry) (m : Method) (file : Artifact)
    (stub : Stub) : Prop where
  fileName : file.fileName = SourceUnit.fileNameOf e.owner
  written : ∃ front back, Code.EndsLine front ∧
    file.contents = front ++
      (m.definitionHeader e.entryPoint ++ " \x7b\n"
        ++ Code.renderFrom 1 (Stub.Stmt.itemsAll stub stub.body) ++ "\x7d\n")
      ++ back
  symbol : stub.symbol = e.function.symbol
  returnType : stub.returnType = e.function.returnType
  params : stub.params.map Prod.fst = e.function.params

/-- A file has a block of declarations for C, one in a line. -/
def Artifact.Declares (file : Artifact) (declarations : List String) : Prop :=
  ∃ front back, Code.EndsLine front ∧
    file.contents = front ++
      ("extern \"C\" \x7b\n" ++ Code.linesText declarations ++ "\x7d\n") ++ back

namespace Mapping

/-- A descriptor that is read is mapped to the type that it has in `jni.h`. -/
theorem jniType_of_mapType {position : Position} {owning : Bool}
    {t : TypeDescriptor} {p : MappedType} (canonical : t.IsCanonical)
    (mapped : mapType position owning t = .ok p) :
    p.jniType = t.nativeType := by
  rcases mapType_cases mapped with
    ⟨kind, rfl, rfl⟩ | ⟨rfl, cppType, rfl⟩ | ⟨name, rfl, rfl⟩
      | ⟨kind, dimensions, rfl, rfl⟩
  · cases kind <;> rfl
  · rfl
  · rfl
  · have single : dimensions = 1 := by
      by_contra other
      obtain ⟨⟨positive, -⟩, -⟩ := canonical
      rw [mapType, if_pos (by omega)] at mapped
      cases mapped
    subst single
    -- There are no arrays over `void`.
    cases kind with
    | void => cases mapped
    | _ => rfl

theorem map_jniType_of_mapParams {owning : Bool} {ts : List TypeDescriptor}
    {ps : List MappedType} (canonical : ∀ t ∈ ts, t.IsCanonical)
    (mapped : mapParams owning ts = .ok ps) :
    ps.map MappedType.jniType = ts.map TypeDescriptor.nativeType := by
  have pairs := mapParams_eq_ok_iff.mp mapped
  induction pairs with
  | nil => rfl
  | cons first others ih =>
      rw [List.forall_mem_cons] at canonical
      rw [List.map_cons, List.map_cons, jniType_of_mapType canonical.1 first,
        ih canonical.2 (mapParams_eq_ok_iff.mpr others)]

end Mapping

namespace SourceUnit

/-- The function that the stub of a signed method defines. -/
def functionOf (m : MappedMethod) (signature : Signature) : NativeFunction :=
  ⟨signature.entryPoint, m.ret.jniType,
    (Lowering.stubParams m).map Prod.fst⟩

theorem functionOf_eq {owner : ClassName} {m : Method} {mapped : MappedMethod}
    (canonical : m.descriptor.IsCanonical)
    (accepted : Mapping.mapMethod owner m = .ok mapped)
    (signature : Signature) :
    functionOf mapped signature = m.nativeFunction signature.entryPoint := by
  obtain ⟨rfl, params, ret⟩ := Mapping.mapMethod_eq_ok accepted
  have types := Mapping.map_jniType_of_mapParams
    (fun t member => (canonical.params t member).1) params
  have firsts : (Lowering.stubParams mapped).map Prod.fst =
      "JNIEnv*" :: (if mapped.method.flags.isStatic then "jclass" else "jobject")
        :: mapped.params.map MappedType.jniType := by
    rw [Lowering.stubParams, List.map_cons, List.map_cons, List.map_map]
    congr 2
    · split <;> rfl
    · conv_rhs => rw [← List.zipIdx_map_fst 0 mapped.params, List.map_map]
      rfl
  rw [functionOf, Method.nativeFunction, firsts, types,
    Mapping.jniType_of_mapType canonical.ret ret]

theorem paramText_argName (type : String) (i : Nat) :
    Stub.paramText (type, Lowering.argName i) = type ++ " a" ++ toString i := by
  have named : (Lowering.argName i).isEmpty = false := by
    simp [Lowering.argName]
  rw [Stub.paramText, named, if_neg Bool.false_ne_true,
    Lowering.append_argName]

/-- The parameters of a stub are written as its method demands. -/
theorem map_paramText_stubParams {owner : ClassName} {m : Method}
    {mapped : MappedMethod} (canonical : m.descriptor.IsCanonical)
    (accepted : Mapping.mapMethod owner m = .ok mapped) :
    (Lowering.stubParams mapped).map Stub.paramText = m.parameterTexts := by
  obtain ⟨rfl, params, -⟩ := Mapping.mapMethod_eq_ok accepted
  have types := Mapping.map_jniType_of_mapParams
    (fun t member => (canonical.params t member).1) params
  have numbered : (mapped.params.zipIdx.map fun x =>
      x.1.jniType ++ " a" ++ toString x.2) =
        mapped.method.descriptor.params.zipIdx.map fun (t, i) =>
          t.nativeType ++ " a" ++ toString i := by
    have pairs := congrArg List.zipIdx types
    rw [List.zipIdx_map, List.zipIdx_map] at pairs
    have texts := congrArg
      (List.map fun x : String × Nat => x.1 ++ " a" ++ toString x.2) pairs
    rwa [List.map_map, List.map_map] at texts
  rw [Lowering.stubParams, List.map_cons, List.map_cons, List.map_map,
    Method.parameterTexts, ← numbered]
  congr 2
  · split <;> rfl
  · exact List.map_congr_left fun x _ => paramText_argName x.1.jniType x.2

/--
A stub is written under the header that its method demands, whatever rank the
method has.
-/
theorem header_lower {owner : ClassName} {m : Method} {mapped : MappedMethod}
    (canonical : m.descriptor.IsCanonical)
    (accepted : Mapping.mapMethod owner m = .ok mapped) (t : Target)
    (overloadIndex : Option Nat) (signature : Signature)
    (implementation exceptionClass : String) :
    (Lowering.lower t
      { mapped with method := { mapped.method with overloadIndex } } signature
      implementation exceptionClass).stub.header =
        m.definitionHeader signature.entryPoint := by
  obtain ⟨-, -, ret⟩ := Mapping.mapMethod_eq_ok accepted
  unfold Method.definitionHeader
  rw [← Mapping.jniType_of_mapType canonical.ret ret,
    ← map_paramText_stubParams canonical accepted]
  rfl

theorem entries_ofTarget (options : EmitOptions) (s : SignedTarget) :
    (ofTarget options s).entries = s.methods.map fun (m, signature) =>
      ⟨s.target.name, m.method.name, signature.descriptor,
        signature.entryPoint, functionOf m signature⟩ := by
  refine List.ext_getElem ?_ fun i _ _ => ?_
  · simp [ofTarget]
  · simp [ofTarget, Lowering.lowerTarget, entryOf, functionOf, Lowering.lower]

theorem symbol_of_mem_entries {options : EmitOptions} {s : SignedTarget}
    {e : Entry} (member : e ∈ (ofTarget options s).entries) :
    e.function.symbol = e.entryPoint := by
  rw [entries_ofTarget] at member
  obtain ⟨x, -, rfl⟩ := List.mem_map.mp member
  rfl

end SourceUnit

namespace Plan

/-- The mapped methods of the targets that get a unit, each with its target. -/
def boundMethods (naming : NamingScheme) (ts : List Target) :
    List (Target × Method) :=
  (emitted naming ts).flatMap fun t =>
    (Mapping.mappable t).map fun m => (t, m.method)

/-- The stubs of a signed target, each with the file that it is in. -/
def stubsOf (config : Config) (s : SignedTarget) : List (Artifact × Stub) :=
  (Lowering.lowerTarget s (emitOptions config).exceptionClass).map
    fun lowered => (unitOf config s, lowered.stub)

/-- The stubs of a run, each with the file that it is in. -/
def definitions (config : Config) (scan : Scan) : List (Artifact × Stub) :=
  (signings config.naming .empty scan.targets).flatMap fun x =>
    stubsOf config x.2

section Parts

variable {config : Config} {scan : Scan} {t : Target} {s : SignedTarget}

theorem forall₂_flatMap {α β γ : Type} {R : α → β → Prop} {l : List γ}
    {f : γ → List α} {g : γ → List β}
    (related : ∀ x ∈ l, List.Forall₂ R (f x) (g x)) :
    List.Forall₂ R (l.flatMap f) (l.flatMap g) := by
  rw [List.flatMap_def, List.flatMap_def]
  refine List.rel_flatten ?_
  rwa [List.forall₂_map_left_iff, List.forall₂_map_right_iff,
    List.forall₂_same]

theorem zip_flatMap {α β γ : Type} {l : List γ} {f : γ → List α}
    {g : γ → List β} (lengths : ∀ x ∈ l, (f x).length = (g x).length) :
    (l.flatMap f).zip (l.flatMap g) = l.flatMap fun x => (f x).zip (g x) := by
  induction l with
  | nil => rfl
  | cons x l ih =>
      rw [List.forall_mem_cons] at lengths
      rw [List.flatMap_cons, List.flatMap_cons, List.zip_append lengths.1,
        ih lengths.2, List.flatMap_cons]

theorem exists_of_forall₂_pair {α β : Type} {R : α → β → Prop} {a b : α}
    {l : List β} (related : List.Forall₂ R [a, b] l) :
    ∃ c d, l = [c, d] ∧ R a c ∧ R b d := by
  obtain ⟨c, others, first, rest, rfl⟩ :=
    List.forall₂_cons_left_iff.mp related
  obtain ⟨d, none, second, last, rfl⟩ := List.forall₂_cons_left_iff.mp rest
  obtain rfl := List.forall₂_nil_left_iff.mp last
  exact ⟨c, d, rfl, first, second⟩

theorem forall₂_binds (options : EmitOptions)
    (canonical : ∀ m ∈ t.methods, m.descriptor.IsCanonical)
    (member : (t, s) ∈ signings config.naming .empty scan.targets) :
    List.Forall₂ (fun (x : Target × Method) e => Entry.Binds e x.1 x.2)
      ((Mapping.mappable t).map fun m => (t, m.method))
      (SourceUnit.ofTarget options s).entries := by
  obtain ⟨-, ⟨ranks, -, rfl⟩, -⟩ := Fate.ofTarget_eq_signed_iff.mp
    (ofTarget_empty_of_mem_signings member)
  rw [SourceUnit.entries_ofTarget]
  change List.Forall₂ _ _ (((Mapping.mappable t).map _).map _)
  rw [List.map_map, List.forall₂_map_left_iff, List.forall₂_map_right_iff,
    List.forall₂_same]
  intro mapped inside
  obtain ⟨m, within, accepted⟩ := Mapping.mem_mappable.mp inside
  obtain rfl := (Mapping.mapMethod_eq_ok accepted).1
  have wellSpelled := canonical _ within
  have function := SourceUnit.functionOf_eq wellSpelled accepted
  exact {
    owner := rfl
    method := rfl
    descriptor := wellSpelled.parse_encode
    function := function _
    arity := by
      change (SourceUnit.functionOf mapped _).params.length = _
      rw [function]
      simp [Method.nativeFunction] }

/-- The function of a stub is the one that it is written as. -/
theorem function_of_mem_lowerTarget {exceptionClass : String}
    {lowered : LoweredStub}
    (member : lowered ∈ Lowering.lowerTarget s exceptionClass) :
    lowered.function = ⟨lowered.stub.symbol, lowered.stub.returnType,
      lowered.stub.params.map Prod.fst⟩ := by
  obtain ⟨x, -, rfl⟩ := List.mem_map.mp member
  rfl

theorem definedBy_of_mem_lowerTarget {lowered : LoweredStub} {e : Entry}
    {m : Method}
    (member : lowered ∈
      Lowering.lowerTarget s (emitOptions config).exceptionClass)
    (owner : e.owner = s.target.name) (function : e.function = lowered.function)
    (header : lowered.stub.header = m.definitionHeader e.entryPoint) :
    e.DefinedBy m (unitOf config s) lowered.stub := by
  obtain ⟨front, back, starts, contents⟩ :=
    SourceUnit.exists_contents_eq (emitOptions config) member
  rw [function_of_mem_lowerTarget member] at function
  rw [Stub.definitionText, header] at contents
  exact {
    fileName := congrArg SourceUnit.fileNameOf owner.symm
    written := ⟨front, back, starts, contents⟩
    symbol := congrArg NativeFunction.symbol function.symm
    returnType := congrArg NativeFunction.returnType function.symm
    params := congrArg NativeFunction.params function.symm }

theorem forall₂_definedBy
    (canonical : ∀ m ∈ t.methods, m.descriptor.IsCanonical)
    (member : (t, s) ∈ signings config.naming .empty scan.targets) :
    List.Forall₂
      (fun (d : Artifact × Stub) (x : (Target × Method) × Entry) =>
        Entry.DefinedBy x.2 x.1.2 d.1 d.2)
      (stubsOf config s)
      (((Mapping.mappable t).map fun m => (t, m.method)).zip
        (SourceUnit.ofTarget (emitOptions config) s).entries) := by
  obtain ⟨-, ⟨ranks, -, eq⟩, -⟩ := Fate.ofTarget_eq_signed_iff.mp
    (ofTarget_empty_of_mem_signings member)
  have methods : s.methods = (Mapping.mappable t).map _ :=
    congrArg SignedTarget.methods eq
  let names := Lowering.implementationNames
    (s.methods.map fun x => Lowering.Prototype.ofMethod s.target x.1)
  -- Stubs are made from methods with names, entries from methods alone.
  have firsts : Mapping.mappable t =
      ((Mapping.mappable t).zip names).map Prod.fst := by
    rw [List.map_fst_zip]
    simp [names, Lowering.implementationNames, methods]
  have zipped : s.methods.zip names = ((Mapping.mappable t).zip names).map _ :=
    (congrArg (List.zip · names) methods).trans List.zip_map_left
  rw [SourceUnit.entries_ofTarget, stubsOf]
  change List.Forall₂ _ (((s.methods.zip names).map _).map _) _
  rw [zipped, methods, List.map_map, List.map_map, List.map_map, List.zip_map']
  conv => enter [3]; rw [firsts]
  rw [List.map_map, List.forall₂_map_left_iff,
    List.forall₂_map_right_iff, List.forall₂_same]
  rintro ⟨mapped, name⟩ inside
  obtain ⟨m, within, accepted⟩ :=
    Mapping.mem_mappable.mp (List.of_mem_zip inside).1
  obtain rfl := (Mapping.mapMethod_eq_ok accepted).1
  refine definedBy_of_mem_lowerTarget ?_ rfl rfl
    (SourceUnit.header_lower (canonical _ within) accepted _ _ _ _ _)
  have among : _ ∈ s.methods.zip names :=
    zipped ▸ List.mem_map.mpr ⟨(mapped, name), inside, rfl⟩
  exact List.mem_map.mpr ⟨_, among, rfl⟩

variable (config scan)

theorem forall₂_boundMethods
    (canonical : ∀ t ∈ scan.targets, ∀ m ∈ t.methods,
      m.descriptor.IsCanonical) :
    List.Forall₂ (fun (x : Target × Method) e => Entry.Binds e x.1 x.2)
      (boundMethods config.naming scan.targets)
      (planOf config scan).table.entries := by
  rw [entries_eq_flatMap, boundMethods, emitted, List.flatMap_map]
  refine forall₂_flatMap fun x member => forall₂_binds _ ?_ member
  exact canonical x.1
    (mem_of_mem_emitted (List.mem_map.mpr ⟨x, member, rfl⟩))

/-- No entry is left without a method. -/
theorem map_snd_zip_entries
    (canonical : ∀ t ∈ scan.targets, ∀ m ∈ t.methods,
      m.descriptor.IsCanonical) :
    ((boundMethods config.naming scan.targets).zip
      (planOf config scan).table.entries).map Prod.snd =
        (planOf config scan).table.entries :=
  List.map_snd_zip (forall₂_boundMethods config scan canonical).length_eq.ge

theorem forall₂_definitions
    (canonical : ∀ t ∈ scan.targets, ∀ m ∈ t.methods,
      m.descriptor.IsCanonical) :
    List.Forall₂
      (fun (d : Artifact × Stub) (x : (Target × Method) × Entry) =>
        Entry.DefinedBy x.2 x.1.2 d.1 d.2)
      (definitions config scan)
      ((boundMethods config.naming scan.targets).zip
        (planOf config scan).table.entries) := by
  have wellSpelled : ∀ x ∈ signings config.naming .empty scan.targets,
      ∀ m ∈ x.1.methods, m.descriptor.IsCanonical := fun x member =>
    canonical x.1 (mem_of_mem_emitted (List.mem_map.mpr ⟨x, member, rfl⟩))
  rw [entries_eq_flatMap, boundMethods, emitted, List.flatMap_map, definitions,
    zip_flatMap fun x member =>
      (forall₂_binds _ (wellSpelled x member) member).length_eq]
  exact forall₂_flatMap fun x member =>
    forall₂_definedBy (wellSpelled x member) member

theorem mem_artifacts_of_mem_definitions {d : Artifact × Stub}
    (member : d ∈ definitions config scan) :
    d.1 ∈ (planOf config scan).artifacts := by
  obtain ⟨x, inside, within⟩ := List.mem_flatMap.mp member
  obtain ⟨lowered, -, rfl⟩ := List.mem_map.mp within
  rw [artifacts_planOf]
  exact List.mem_append_left _ (List.mem_map.mpr ⟨x, inside, rfl⟩)

/-- No two stubs of a run have the same symbol. -/
theorem nodup_symbols
    (canonical : ∀ t ∈ scan.targets, ∀ m ∈ t.methods,
      m.descriptor.IsCanonical) :
    ((definitions config scan).map fun d => d.2.symbol).Nodup := by
  have defined : (definitions config scan).map (fun d => d.2.symbol) =
      ((boundMethods config.naming scan.targets).zip
        (planOf config scan).table.entries).map
          fun x => x.2.function.symbol := by
    rw [← List.forall₂_eq_eq_eq, List.forall₂_map_left_iff,
      List.forall₂_map_right_iff]
    exact (forall₂_definitions config scan canonical).imp
      fun d x defines => defines.symbol
  have registered : (planOf config scan).table.entries.map
      (fun e => e.function.symbol) =
        (planOf config scan).table.entries.map Entry.entryPoint := by
    refine List.map_congr_left fun e member => ?_
    rw [entries_eq_flatMap] at member
    obtain ⟨x, -, inside⟩ := List.mem_flatMap.mp member
    exact SourceUnit.symbol_of_mem_entries inside
  have symbols := congrArg (List.map fun e : Entry => e.function.symbol)
    (map_snd_zip_entries config scan canonical)
  rw [List.map_map] at symbols
  rw [defined]
  change (List.map ((fun e : Entry => e.function.symbol) ∘ Prod.snd) _).Nodup
  rw [symbols, registered]
  exact nodup_entryPoints config scan

/-- The declaration of a function is the line that its method demands. -/
theorem declaration_eq {e : Entry} {t : Target} {m : Method}
    (binds : e.Binds t m) :
    e.function.declaration ++ ";" = m.declarationLine e.entryPoint := by
  rw [binds.function]
  unfold NativeFunction.declaration Method.declarationLine
  rw [String.append_assoc]
  rfl

theorem map_declaration_entries
    (canonical : ∀ t ∈ scan.targets, ∀ m ∈ t.methods,
      m.descriptor.IsCanonical) :
    (planOf config scan).table.entries.map
        (fun e => e.function.declaration ++ ";") =
      ((boundMethods config.naming scan.targets).zip
        (planOf config scan).table.entries).map
          fun (x, e) => x.2.declarationLine e.entryPoint := by
  have paired := List.forall₂_iff_zip.mp
    (forall₂_boundMethods config scan canonical)
  conv_lhs => rw [← map_snd_zip_entries config scan canonical, List.map_map]
  exact List.map_congr_left fun ⟨x, e⟩ member => declaration_eq (paired.2 member)

/-- The registration unit has the declarations of its table, if there are any. -/
theorem declares_registration {table : Table} (some : table.entries ≠ [])
    (options : RegistrationOptions) :
    Artifact.Declares ⟨options.unitName, Registration.render table options⟩
      (table.entries.map fun e => e.function.declaration ++ ";") := by
  obtain ⟨front, back, starts, eq⟩ :=
    Registration.exists_render_eq some options
  rw [Registration.linesText_declarationLines] at eq
  exact ⟨front, back, starts, eq⟩

end Parts

/--
Let every method of a scan have a descriptor that can be read. Then the entries
of a plan are, in order, those of the mapped methods of the targets that get a
unit. The descriptor of each is read as that of its method, and its function is
the one that the method demands: the environment, the class or the object, and
the types in `jni.h` of the parameters and of the result.

The stubs of the units are, in order, the definitions of these functions. The
unit of the class has the header with the symbol of the entry and the types of
the method, and behind it the body of the stub; no two stubs have one symbol.
The registration unit declares all functions with the same symbols and types.
-/
theorem entries_bound_and_defined {config : Config} {scan : Scan} {plan : Plan}
    (parsed : ∀ t ∈ scan.targets, ∀ m ∈ t.methods,
      ∃ text, MethodDescriptor.parse text = .ok m.descriptor)
    (made : ofScan config scan = .ok plan) :
    List.Forall₂ (fun (x : Target × Method) e => Entry.Binds e x.1 x.2)
      (boundMethods config.naming scan.targets) plan.table.entries ∧
    List.Forall₂
      (fun (d : Artifact × Stub) (x : (Target × Method) × Entry) =>
        Entry.DefinedBy x.2 x.1.2 d.1 d.2)
      (definitions config scan)
      ((boundMethods config.naming scan.targets).zip plan.table.entries) ∧
    (∀ d ∈ definitions config scan, d.1 ∈ plan.artifacts) ∧
    ((definitions config scan).map fun d => d.2.symbol).Nodup ∧
    ∃ file ∈ plan.artifacts,
      file.fileName = config.registration.unitName ∧
        (plan.table.entries ≠ [] →
          file.Declares
            (((boundMethods config.naming scan.targets).zip
              plan.table.entries).map
                fun (x, e) => x.2.declarationLine e.entryPoint)) := by
  obtain ⟨-, -, rfl⟩ := ofScan_eq_ok_iff.mp made
  have canonical : ∀ t ∈ scan.targets, ∀ m ∈ t.methods,
      m.descriptor.IsCanonical := by
    intro t target m member
    obtain ⟨text, read⟩ := parsed t target m member
    exact (MethodDescriptor.parse_eq_ok_iff.mp read).1
  refine ⟨forall₂_boundMethods config scan canonical,
    forall₂_definitions config scan canonical,
    fun d => mem_artifacts_of_mem_definitions config scan,
    nodup_symbols config scan canonical,
    ⟨config.registration.unitName, Registration.render
      (planOf config scan).table config.registration⟩, ?_, rfl, fun some => ?_⟩
  · rw [artifacts_planOf]
    exact List.mem_append_right _
      (List.mem_cons_of_mem _ (List.mem_singleton_self _))
  · rw [← map_declaration_entries config scan canonical]
    exact declares_registration some config.registration

/-- A method of an object with references of each kind. -/
def objectMethod : Method :=
  .ofName "f"
    ⟨[.string, .array (.primitive .long) 1, .object ⟨"a/C"⟩],
      .primitive .boolean⟩ ⟨false, false, false⟩

/-- A method of a class that returns an array. -/
def classMethod : Method :=
  .ofName "h" ⟨[.primitive .char], .array (.primitive .int) 1⟩
    ⟨true, false, false⟩

/-- A class with the two methods, and one between them that is not mapped. -/
def gappedTarget : Target where
  name := ⟨"a/B"⟩
  methods :=
    [objectMethod, .ofName "g" ⟨[.array .string 1], .void⟩ ⟨true, false, false⟩,
      classMethod]

def gappedScan : Scan := ⟨[gappedTarget], 1⟩

theorem boundMethods_gappedScan :
    boundMethods (Config.naming {}) gappedScan.targets =
      [(gappedTarget, objectMethod), (gappedTarget, classMethod)] := by
  have single : emitted (Config.naming {}) gappedScan.targets =
      [gappedTarget] := by
    cbv
  rw [boundMethods, single]
  rfl

theorem map_entryPoint_gappedScan :
    (planOf {} gappedScan).table.entries.map Entry.entryPoint =
      ["Java_a_B_f", "Java_a_B_h"] := by
  decide +kernel

theorem definitionHeader_objectMethod :
    objectMethod.definitionHeader "Java_a_B_f" =
      "extern \"C\" JNIEXPORT jboolean JNICALL Java_a_B_f(JNIEnv* env, "
        ++ "jobject self, jstring a0, jlongArray a1, jobject a2)" := by
  decide +kernel

theorem definitionHeader_classMethod :
    classMethod.definitionHeader "Java_a_B_h" =
      "extern \"C\" JNIEXPORT jintArray JNICALL Java_a_B_h(JNIEnv* env, "
        ++ "jclass, jchar a0)" := by
  decide +kernel

theorem entries_bound_and_defined_gappedScan :
    (∀ t ∈ gappedScan.targets, ∀ m ∈ t.methods,
      ∃ text, MethodDescriptor.parse text = .ok m.descriptor) ∧
    ofScan {} gappedScan = .ok (planOf {} gappedScan) ∧
    (∃ f h, (planOf {} gappedScan).table.entries = [f, h] ∧
      f.function = ⟨"Java_a_B_f", "jboolean",
        ["JNIEnv*", "jobject", "jstring", "jlongArray", "jobject"]⟩ ∧
      h.function = ⟨"Java_a_B_h", "jintArray",
        ["JNIEnv*", "jclass", "jchar"]⟩) ∧
    (∃ stubF stubH, definitions {} gappedScan = [stubF, stubH] ∧
      stubF.1.fileName = "a_B.jni.cpp" ∧ stubH.1.fileName = "a_B.jni.cpp" ∧
      (∃ front body back, stubF.1.contents = front ++
        ("extern \"C\" JNIEXPORT jboolean JNICALL Java_a_B_f(JNIEnv* env, "
            ++ "jobject self, jstring a0, jlongArray a1, jobject a2)"
          ++ " \x7b\n" ++ body ++ "\x7d\n") ++ back) ∧
      ∃ front body back, stubH.1.contents = front ++
        ("extern \"C\" JNIEXPORT jintArray JNICALL Java_a_B_h(JNIEnv* env, "
            ++ "jclass, jchar a0)"
          ++ " \x7b\n" ++ body ++ "\x7d\n") ++ back) ∧
    ∃ file ∈ (planOf {} gappedScan).artifacts,
      file.fileName = "jnibridge_registration.cpp" ∧
      file.Declares
        ["JNIEXPORT jboolean JNICALL Java_a_B_f(JNIEnv*, jobject, jstring, "
            ++ "jlongArray, jobject);",
          "JNIEXPORT jintArray JNICALL Java_a_B_h(JNIEnv*, jclass, jchar);"] := by
  have canonical : ∀ t ∈ gappedScan.targets, ∀ m ∈ t.methods,
      m.descriptor.IsCanonical := by
    decide
  have parsed : ∀ t ∈ gappedScan.targets, ∀ m ∈ t.methods,
      ∃ text, MethodDescriptor.parse text = .ok m.descriptor :=
    fun t target m member => ⟨_, (canonical t target m member).parse_encode⟩
  have made : ofScan {} gappedScan = .ok (planOf {} gappedScan) :=
    ofScan_eq_ok_iff.mpr ⟨rfl, by decide, rfl⟩
  have symbols := map_entryPoint_gappedScan
  obtain ⟨bound, defined, -, -, file, inside, name, declared⟩ :=
    entries_bound_and_defined parsed made
  rw [boundMethods_gappedScan] at bound defined declared
  obtain ⟨f, h, eq, first, second⟩ := exists_of_forall₂_pair bound
  rw [eq] at defined declared symbols
  obtain ⟨symbolF, symbolH⟩ : f.entryPoint = "Java_a_B_f" ∧
      h.entryPoint = "Java_a_B_h" := by
    simpa using symbols
  obtain ⟨stubF, stubH, stubsEq, definesF, definesH⟩ :=
    exists_of_forall₂_pair defined.flip
  obtain ⟨frontF, backF, -, writtenF⟩ := definesF.written
  obtain ⟨frontH, backH, -, writtenH⟩ := definesH.written
  rw [symbolF, definitionHeader_objectMethod] at writtenF
  rw [symbolH, definitionHeader_classMethod] at writtenH
  refine ⟨parsed, made, ⟨f, h, eq, ?_, ?_⟩, ⟨stubF, stubH, stubsEq, ?_, ?_,
    ⟨frontF, _, backF, writtenF⟩, frontH, _, backH, writtenH⟩, file, inside,
    name, ?_⟩
  · rw [first.function, symbolF]
    rfl
  · rw [second.function, symbolH]
    rfl
  · rw [definesF.fileName, first.owner]
    decide
  · rw [definesH.fileName, second.owner]
    decide
  · have declares : file.Declares [objectMethod.declarationLine f.entryPoint,
        classMethod.declarationLine h.entryPoint] :=
      declared (List.cons_ne_nil _ _)
    rw [symbolF, symbolH] at declares
    exact declares

end Plan
end NativeGlue
