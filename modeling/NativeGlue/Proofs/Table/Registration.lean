import Mathlib.Data.List.Nodup
import NativeGlue.Proofs.Code.Literal
import NativeGlue.Proofs.Code.Rows
import NativeGlue.Table.Registration

/-!
# The arrays of the registration unit

The unit writes an array of methods for each group, in one loop, and a list of
the arrays in another. A row of the list stands for the group of the same
number: it has the class, the name of the array and the number of its rows.

Every header of a block is written out in `headers_document`, so that the arrays
and the list can be told from all other blocks of the unit.

Main statement: `registers_document`.
-/

namespace NativeGlue
namespace Registration

open Code

/-- The header of the array of methods with a given number. -/
def methodsHeader (index : Nat) : String :=
  "JNINativeMethod kMethods" ++ toString index ++ "[] ="

/-- The header of the list of arrays. -/
def classesHeader : String := "const ClassRegistration kClasses[] ="

/-- A literal that C++ reads as a text in modified UTF-8. -/
def IsLiteral (literal text : String) : Prop :=
  literalBytes? literal = some (Text.ModifiedUtf8.encode text)

/-- A row of an array of methods. -/
def methodForm (method descriptor symbol : String) : String :=
  "\x7bconst_cast<char*>(" ++ method ++ "), const_cast<char*>(" ++ descriptor
    ++ "), reinterpret_cast<void*>(&" ++ symbol ++ ")\x7d,"

/-- A row with the name and the descriptor of an entry and its function. -/
def IsMethodRow (row : String) (e : Entry) : Prop :=
  ∃ method descriptor, IsLiteral method e.method ∧
    IsLiteral descriptor e.descriptor ∧
    row = methodForm method descriptor e.function.symbol

/-- A row of the list of arrays. -/
def classForm (name : String) (index count : Nat) : String :=
  "\x7b" ++ name ++ ", kMethods" ++ toString index ++ ", " ++ toString count
    ++ "\x7d,"

/-- A row with the name of a class, the number of its array and a count. -/
def IsClassRow (row : String) (owner : ClassName) (index count : Nat) : Prop :=
  ∃ name, IsLiteral name owner.internal ∧ row = classForm name index count

/--
A unit that registers groups of entries: it lists one array for each group, and
the row for an array has the class of the group and the number of rows that the
array has, which are those of the entries.
-/
def Registers (items : List Item) (groups : List (ClassName × List Entry)) :
    Prop :=
  ∃ rows : List String, rows.length = groups.length ∧
    (groups ≠ [] → HasRows items classesHeader rows) ∧
    ∀ (i : Nat) (owner : ClassName) (members : List Entry),
      groups[i]? = some (owner, members) →
      ∃ methods, HasRows items (methodsHeader i) methods ∧
        List.Forall₂ IsMethodRow methods members ∧
        ∃ row, rows[i]? = some row ∧ IsClassRow row owner i methods.length

section Rows

theorem isLiteral_stringLiteral (text : String) :
    IsLiteral (stringLiteral text) text :=
  literalBytes?_stringLiteral text

/-- The text of the row of an entry. -/
def methodText (e : Entry) : String :=
  methodForm (stringLiteral e.method) (stringLiteral e.descriptor)
    e.function.symbol

/-- The text of the row of a group. -/
def classText (group : (ClassName × List Entry) × Nat) : String :=
  classForm (stringLiteral group.1.1.internal) group.2 group.1.2.length

theorem isMethodRow_methodText (e : Entry) : IsMethodRow (methodText e) e :=
  ⟨stringLiteral e.method, stringLiteral e.descriptor,
    isLiteral_stringLiteral e.method, isLiteral_stringLiteral e.descriptor, rfl⟩

theorem forall₂_isMethodRow (entries : List Entry) :
    List.Forall₂ IsMethodRow (entries.map methodText) entries := by
  induction entries with
  | nil => exact .nil
  | cons e rest ih => exact .cons (isMethodRow_methodText e) ih

theorem isClassRow_classText (group : (ClassName × List Entry) × Nat) :
    IsClassRow (classText group) group.1.1 group.2 group.1.2.length :=
  ⟨stringLiteral group.1.1.internal,
    isLiteral_stringLiteral group.1.1.internal, rfl⟩

theorem append_ne_empty {front tail : String} (some : tail ≠ "") :
    front ++ tail ≠ "" :=
  fun empty => some (String.append_eq_empty_iff.mp empty).2

theorem methodText_ne_empty (e : Entry) : methodText e ≠ "" := by
  unfold methodText methodForm
  exact append_ne_empty (by decide)

theorem classText_ne_empty (group : (ClassName × List Entry) × Nat) :
    classText group ≠ "" := by
  unfold classText classForm
  exact append_ne_empty (by decide)

end Rows

section Parts

/-- The array of the methods of a group. -/
def arrayOf (group : (ClassName × List Entry) × Nat) : List Item :=
  methodArray group.2 group.1.1 group.1.2

/-- The lines in front of an array. -/
def comment (owner : ClassName) : List Item :=
  [.blank, .line ("// " ++ owner.binary)]

/-- What stands before the arrays. -/
def opening (t : Table) (options : RegistrationOptions) : List Item :=
  [.line ("// Generated by jnibridge " ++ t.stamp.version ++ ". Do not edit."),
    .line "#include <jni.h>", .blank,
    .line ("#include \"" ++ options.runtimeHeader ++ "\""), .blank]
    ++ declarations t.entries
    ++ [.line "namespace \x7b", .blank, stampLine t.stamp]

/-- What stands behind the list of arrays. -/
def closing (noClasses : Bool) (options : RegistrationOptions) : List Item :=
  [.blank, .line "\x7d  // namespace", .blank] ++ stampAccessor
    ++ registerFunction noClasses
    ++ (if options.emitOnLoad then onLoad options.jniVersion else [])

theorem document_eq (t : Table) (options : RegistrationOptions) :
    document t options =
      opening t options ++ (t.byClass.zipIdx.flatMap arrayOf
        ++ (classList t.byClass ++ closing t.byClass.isEmpty options)) := by
  simp only [document, opening, closing, List.append_assoc]
  rfl

theorem arrayOf_eq (group : (ClassName × List Entry) × Nat) :
    arrayOf group =
      comment group.1.1
        ++ .openBlock (methodsHeader group.2)
        :: ((group.1.2.map methodText).map .line ++ [.closeBlock ";"]) := by
  rw [List.map_map]
  rfl

/-- The type of the rows of the list of arrays. -/
def rowType : List Item :=
  [.blank, .openBlock "struct ClassRegistration", .line "const char* name;",
    .line "JNINativeMethod* methods;", .line "jint count;", .closeBlock ";"]

theorem classList_eq {groups : List (ClassName × List Entry)}
    (some : groups ≠ []) :
    classList groups =
      rowType ++ .blank :: .openBlock classesHeader
        :: ((groups.zipIdx.map classText).map .line ++ [.closeBlock ";"]) := by
  rw [classList, if_neg (by simpa using some), List.map_map]
  rfl

end Parts

section Declarations

/-- The lines of the block that declares the functions of entries. -/
def declarationLines (entries : List Entry) : List String :=
  ["extern \"C\" \x7b"]
    ++ (entries.map fun e => e.function.declaration ++ ";") ++ ["\x7d"]

theorem linesText_declarationLines (entries : List Entry) :
    linesText (declarationLines entries) =
      "extern \"C\" \x7b\n"
        ++ linesText (entries.map fun e => e.function.declaration ++ ";")
        ++ "\x7d\n" := by
  simp only [declarationLines, linesText, List.map_append, String.join_append]
  rfl

/-- All functions are declared in one block, which starts a line. -/
theorem exists_render_eq {t : Table} (some : t.entries ≠ [])
    (options : RegistrationOptions) :
    ∃ front back, EndsLine front ∧
      render t options =
        front ++ linesText (declarationLines t.entries) ++ back := by
  have front : Writes
      [.line ("// Generated by jnibridge " ++ t.stamp.version
          ++ ". Do not edit."),
        .line "#include <jni.h>", .blank,
        .line ("#include \"" ++ options.runtimeHeader ++ "\""), .blank]
      (linesText
        ["// Generated by jnibridge " ++ t.stamp.version ++ ". Do not edit.",
          "#include <jni.h>", "",
          "#include \"" ++ options.runtimeHeader ++ "\"", ""]) :=
    writes_lines rfl
  have block : Writes
      ([.line "extern \"C\" \x7b"]
        ++ (t.entries.map fun e => .line (e.function.declaration ++ ";"))
        ++ [.line "\x7d"])
      (linesText (declarationLines t.entries)) :=
    writes_lines (by simp [declarationLines, Item.line?])
  have filled : t.entries.isEmpty = false := by
    simpa using some
  have written := fun rest => front.append block rest
  simp only [List.append_assoc, List.cons_append, List.nil_append] at written
  rw [render, Code.render, document, declarations, filled,
    if_neg Bool.false_ne_true]
  simp only [List.append_assoc, List.cons_append, List.nil_append]
  exact ⟨_, _, front.endsLine, written _⟩

end Declarations

section Headers

theorem isFlat_comment (owner : ClassName) : IsFlat (comment owner) := by
  simp [comment, IsFlat, Item.opens, Item.closes]

theorem isFlat_opening (t : Table) (options : RegistrationOptions) :
    IsFlat (opening t options) := by
  have declared : IsFlat (declarations t.entries) := by
    unfold declarations
    split
    · nofun
    · refine IsFlat.append (IsFlat.append ?_ ?_) ?_
      · simp [IsFlat, Item.opens, Item.closes]
      · have lines := isFlat_map_line
          (t.entries.map fun e => e.function.declaration ++ ";")
        rwa [List.map_map] at lines
      · simp [IsFlat, Item.opens, Item.closes]
  refine IsFlat.append (IsFlat.append ?_ declared) ?_
  · simp [IsFlat, Item.opens, Item.closes]
  · simp [IsFlat, Item.opens, Item.closes, stampLine]

theorem headers_arrayOf (group : (ClassName × List Entry) × Nat) :
    headers (arrayOf group) = [methodsHeader group.2] := by
  rw [arrayOf_eq]
  exact headers_block ..

theorem headers_arrays (groups : List (ClassName × List Entry)) :
    headers (groups.zipIdx.flatMap arrayOf) =
      (List.range groups.length).map methodsHeader := by
  have numbers : groups.zipIdx.map Prod.snd = List.range groups.length := by
    rw [List.zipIdx_map_snd, List.range_eq_range']
  rw [headers, List.filterMap_flatMap]
  change groups.zipIdx.flatMap (fun group => headers (arrayOf group)) = _
  simp only [headers_arrayOf]
  rw [← List.map_eq_flatMap, ← numbers, List.map_map]
  rfl

theorem headers_classList {groups : List (ClassName × List Entry)}
    (some : groups ≠ []) :
    headers (classList groups) =
      ["struct ClassRegistration", classesHeader] := by
  rw [classList_eq some]
  exact congrArg (_ :: ·) (headers_block ..)

/-- A text that starts with a character. -/
def StartsWith (c : Char) (text : String) : Prop :=
  ∃ cs, text = String.ofList (c :: cs)

theorem StartsWith.append {c : Char} {text : String}
    (starts : StartsWith c text) (tail : String) :
    StartsWith c (text ++ tail) := by
  obtain ⟨cs, rfl⟩ := starts
  exact ⟨cs ++ tail.toList, String.toList_injective (by simp)⟩

theorem StartsWith.eq {c d : Char} {text : String}
    (first : StartsWith c text) (second : StartsWith d text) : c = d := by
  obtain ⟨cs, rfl⟩ := first
  obtain ⟨ds, eq⟩ := second
  exact (List.cons.inj (String.ofList_injective eq)).1

theorem startsWith_methodsHeader (index : Nat) :
    StartsWith 'J' (methodsHeader index) :=
  StartsWith.append (StartsWith.append ⟨_, rfl⟩ _) _

theorem startsWith_classesHeader : StartsWith 'c' classesHeader :=
  ⟨_, rfl⟩

/-- The first characters of the headers behind the list of arrays. -/
def StartsLater (header : String) : Prop :=
  ∃ c ∈ ['e', 'f', 'i'], StartsWith c header

theorem startsLater_registerFunction (noClasses : Bool) :
    ∀ h ∈ headers (registerFunction noClasses), StartsLater h := by
  have function : StartsLater
      "extern \"C\" jint jnibridge_register_natives(JNIEnv* env)" :=
    ⟨'e', by simp, _, rfl⟩
  have loop : StartsLater "for (const ClassRegistration& cls : kClasses)" :=
    ⟨'f', by simp, _, rfl⟩
  have missing : StartsLater "if (clazz == nullptr)" := ⟨'i', by simp, _, rfl⟩
  have refused : StartsLater "if (rc != JNI_OK)" := ⟨'i', by simp, _, rfl⟩
  cases noClasses with
  | true => exact List.forall_mem_cons.mpr ⟨function, nofun⟩
  | false =>
      exact List.forall_mem_cons.mpr ⟨function, List.forall_mem_cons.mpr
        ⟨loop, List.forall_mem_cons.mpr
          ⟨missing, List.forall_mem_cons.mpr ⟨refused, nofun⟩⟩⟩⟩

theorem startsLater_onLoad (version : JniVersion) :
    ∀ h ∈ headers (onLoad version), StartsLater h := by
  have function : StartsLater
      "extern \"C\" JNIEXPORT jint JNICALL JNI_OnLoad(JavaVM* vm, void*)" :=
    ⟨'e', by simp, _, rfl⟩
  have environment : StartsLater
      ("if (vm->GetEnv(reinterpret_cast<void**>(&env), " ++ version.constant
        ++ ") != JNI_OK)") :=
    ⟨'i', by simp, StartsWith.append (StartsWith.append ⟨_, rfl⟩ _) _⟩
  exact List.forall_mem_cons.mpr
    ⟨function, List.forall_mem_cons.mpr ⟨environment, nofun⟩⟩

theorem startsLater_closing (noClasses : Bool)
    (options : RegistrationOptions) :
    ∀ h ∈ headers (closing noClasses options), StartsLater h := by
  intro h member
  rw [closing, headers_append, headers_append, headers_append,
    List.mem_append, List.mem_append, List.mem_append] at member
  rcases member with ((plain | accessor) | register) | load
  · cases plain
  · rw [List.mem_singleton.mp accessor]
    exact ⟨'e', by simp, _, rfl⟩
  · exact startsLater_registerFunction noClasses h register
  · split at load
    · exact startsLater_onLoad _ h load
    · cases load

theorem not_mem_headers_closing {header : String} {c : Char}
    (starts : StartsWith c header) (other : c ∉ ['e', 'f', 'i'])
    (noClasses : Bool) (options : RegistrationOptions) :
    header ∉ headers (closing noClasses options) := by
  intro member
  obtain ⟨d, later, startsD⟩ := startsLater_closing noClasses options _ member
  rw [starts.eq startsD] at other
  exact other later

theorem methodsHeader_inj {i j : Nat}
    (eq : methodsHeader i = methodsHeader j) : i = j := by
  unfold methodsHeader at eq
  have numerals := String.append_left_inj _ |>.mp eq
  exact Text.eq_of_toString_eq (String.append_right_inj _ |>.mp numerals)

theorem headers_document (t : Table) (options : RegistrationOptions) :
    headers (document t options) =
      (List.range t.byClass.length).map methodsHeader
        ++ (headers (classList t.byClass)
          ++ headers (closing t.byClass.isEmpty options)) := by
  rw [document_eq, headers_append, (isFlat_opening t options).headers_eq,
    headers_append, headers_append, headers_arrays, List.nil_append]

theorem rowTypeHeader_ne {header : String} {c : Char}
    (starts : StartsWith c header) (other : c ≠ 's') :
    "struct ClassRegistration" ≠ header := by
  rintro rfl
  exact other (starts.eq ⟨_, rfl⟩)

/-- A header that starts in its own way is in the arrays or their list. -/
theorem count_headers_document {header : String} {c : Char}
    (starts : StartsWith c header) (other : c ∉ ['e', 'f', 'i']) (t : Table)
    (options : RegistrationOptions) :
    (headers (document t options)).count header =
      ((List.range t.byClass.length).map methodsHeader).count header
        + (headers (classList t.byClass)).count header := by
  have later := List.count_eq_zero.mpr
    (not_mem_headers_closing starts other t.byClass.isEmpty options)
  rw [headers_document, List.count_append, List.count_append, later,
    Nat.add_zero]

theorem count_methodsHeader (t : Table) (options : RegistrationOptions)
    {i : Nat} (bound : i < t.byClass.length) :
    (headers (document t options)).count (methodsHeader i) = 1 := by
  have starts := startsWith_methodsHeader i
  have some : t.byClass ≠ [] := List.length_pos_iff.mp (by omega)
  have nodup : ((List.range t.byClass.length).map methodsHeader).Nodup :=
    List.Nodup.map (fun _ _ => methodsHeader_inj) List.nodup_range
  have other : classesHeader ≠ methodsHeader i := fun eq =>
    absurd (starts.eq (eq ▸ startsWith_classesHeader)) (by decide)
  rw [count_headers_document starts (by decide), headers_classList some,
    List.count_cons_of_ne (rowTypeHeader_ne starts (by decide)),
    List.count_cons_of_ne other, List.count_nil]
  exact List.count_eq_one_of_mem nodup
    (List.mem_map_of_mem (List.mem_range.mpr bound))

theorem count_classesHeader (t : Table) (options : RegistrationOptions)
    (some : t.byClass ≠ []) :
    (headers (document t options)).count classesHeader = 1 := by
  have starts := startsWith_classesHeader
  have arrays : classesHeader ∉
      (List.range t.byClass.length).map methodsHeader := by
    intro member
    obtain ⟨i, -, eq⟩ := List.mem_map.mp member
    exact absurd (starts.eq (eq ▸ startsWith_methodsHeader i)) (by decide)
  rw [count_headers_document starts (by decide), headers_classList some,
    List.count_cons_of_ne (rowTypeHeader_ne starts (by decide)),
    List.count_cons_self, List.count_nil, List.count_eq_zero.mpr arrays]

end Headers

section Blocks

variable (t : Table) (options : RegistrationOptions)

theorem balanced_arrayOf (group : (ClassName × List Entry) × Nat) :
    Balanced (arrayOf group) := by
  rw [arrayOf_eq]
  exact (isFlat_comment _).balanced.append (balanced_rows _ _ _)

theorem balanced_arrays (groups : List ((ClassName × List Entry) × Nat)) :
    Balanced (groups.flatMap arrayOf) :=
  balanced_flatMap fun group _ => balanced_arrayOf group

theorem balanced_rowType : Balanced (rowType ++ [.blank]) := by
  have blank : Balanced [.blank] := fun _ _ => ⟨_, .cons (.plain rfl rfl) .nil⟩
  exact (blank.append (balanced_rows "struct ClassRegistration" ";"
    ["const char* name;", "JNINativeMethod* methods;", "jint count;"])).append
      blank

/-- Each group has its own array, with a row for each of its entries. -/
theorem hasRows_methods {i : Nat} {owner : ClassName} {members : List Entry}
    (there : t.byClass[i]? = some (owner, members)) :
    HasRows (document t options) (methodsHeader i) (members.map methodText) := by
  have bound := (List.getElem?_eq_some_iff.mp there).1
  have among : ((owner, members), i) ∈ t.byClass.zipIdx :=
    List.mem_zipIdx_iff_getElem?.mpr there
  obtain ⟨before, behind, arrays⟩ := List.append_of_mem among
  have placed : document t options =
      (opening t options ++ (before.flatMap arrayOf ++ comment owner))
        ++ .openBlock (methodsHeader i)
        :: ((members.map methodText).map .line ++ .closeBlock ";"
          :: (behind.flatMap arrayOf
            ++ (classList t.byClass ++ closing t.byClass.isEmpty options))) := by
    rw [document_eq, arrays, List.flatMap_append, List.flatMap_cons, arrayOf_eq]
    simp only [List.append_assoc, List.cons_append, List.nil_append]
  have front := (isFlat_opening t options).balanced.append
    ((balanced_arrays before).append (isFlat_comment owner).balanced)
  refine hasRows_of_balanced placed front (fun row member => ?_)
    (count_methodsHeader t options bound)
  obtain ⟨e, -, rfl⟩ := List.mem_map.mp member
  exact methodText_ne_empty e

/-- The list of arrays has a row for each group. -/
theorem hasRows_classes (some : t.byClass ≠ []) :
    HasRows (document t options) classesHeader
      (t.byClass.zipIdx.map classText) := by
  have placed : document t options =
      (opening t options ++ (t.byClass.zipIdx.flatMap arrayOf
          ++ (rowType ++ [.blank])))
        ++ .openBlock classesHeader
        :: ((t.byClass.zipIdx.map classText).map .line ++ .closeBlock ";"
          :: closing t.byClass.isEmpty options) := by
    rw [document_eq, classList_eq some]
    simp only [List.append_assoc, List.cons_append, List.nil_append]
  have front := (isFlat_opening t options).balanced.append
    ((balanced_arrays t.byClass.zipIdx).append balanced_rowType)
  refine hasRows_of_balanced placed front (fun row member => ?_)
    (count_classesHeader t options some)
  obtain ⟨group, -, rfl⟩ := List.mem_map.mp member
  exact classText_ne_empty group

/-- The registration unit registers the groups of its table. -/
theorem registers_document : Registers (document t options) t.byClass := by
  refine ⟨t.byClass.zipIdx.map classText, by simp,
    hasRows_classes t options, fun i owner members there => ?_⟩
  have row : IsClassRow (classText ((owner, members), i)) owner i
      (members.map methodText).length := by
    rw [List.length_map]
    exact isClassRow_classText ((owner, members), i)
  have numbered : t.byClass.zipIdx[i]? = some ((owner, members), i) := by
    rw [List.getElem?_zipIdx, there, Nat.zero_add, Option.map_some]
  refine ⟨members.map methodText, hasRows_methods t options there,
    forall₂_isMethodRow members, classText ((owner, members), i), ?_, row⟩
  rw [List.getElem?_map, numbered, Option.map_some]

end Blocks

end Registration
end NativeGlue
