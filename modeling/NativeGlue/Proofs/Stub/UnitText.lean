import NativeGlue.Proofs.Code.Margin
import NativeGlue.Proofs.Stub.Layout
import NativeGlue.Stub.Unit

/-!
# The text of a unit

A unit has four parts: the lines that include headers, the prototypes of the
implementations by namespace, the definitions of the stubs with an empty line
between neighbours, and code written by hand. Each part starts and ends at the
margin, and only what is inside a definition is indented.

Main statement: `contents_ofTarget`.
-/

namespace NativeGlue

open Code

/-- The definition of a stub: its header, and its body in braces. -/
def Stub.definitionText (s : Stub) : String :=
  s.header ++ " \x7b\n" ++ renderFrom 1 (Stub.Stmt.itemsAll s s.body) ++ "\x7d\n"

theorem Stub.writes_items (s : Stub) : Writes s.items s.definitionText := by
  have block := writes_block s.header "" (Stmt.balanced_itemsAll s s.body)
  rwa [String.append_empty, String.append_assoc] at block

theorem Lowering.append_argName (type : String) (i : Nat) :
    type ++ " " ++ argName i = type ++ " a" ++ toString i := by
  have joined : type ++ " " ++ "a" = type ++ " a" := String.append_assoc
  rw [argName, ← String.append_assoc, joined]

namespace SourceUnit

/-- The lines before the prototypes. -/
def preambleText (t : Target) (options : EmitOptions) : String :=
  linesText
    (["// Generated by jnibridge " ++ options.version ++ " from "
          ++ t.name.binary ++ ". Do not edit.",
        "#include <jni.h>", "", "#include <cstddef>", "#include <cstdint>",
        "#include <exception>", "#include <string>", "#include <utility>",
        "#include <vector>", ""]
      ++ (options.runtimeHeader :: t.includes).map
        (fun header => "#include \"" ++ header ++ "\"")
      ++ [""])

/--
The declarations of prototypes in a namespace; those of the global namespace
are not in a block.
-/
def spaceText (space prototypes : List String) : String :=
  let declarations := prototypes.map fun prototype => prototype ++ ";"
  match space with
  | [] => linesText (declarations ++ [""])
  | _ :: _ =>
      let name := String.intercalate "::" space
      linesText (["namespace " ++ name ++ " \x7b", ""] ++ declarations
        ++ ["", "\x7d  // namespace " ++ name, ""])

/-- Code written by hand, behind a line that says where it is from. -/
def customText (c : CustomCode) : String :=
  linesText ["", "// Custom JNI code from " ++ c.path]
    ++ (Item.raw c.contents).text 0

section Parts

theorem writes_preamble (t : Target) (options : EmitOptions) :
    Writes (preamble t options.version options.runtimeHeader)
      (preambleText t options) :=
  writes_lines (by simp [preamble, standardHeaders, Item.line?])

theorem writes_prototypeItems (space prototypes : List String) :
    Writes (prototypeItems (space, prototypes)) (spaceText space prototypes) := by
  cases space with
  | nil => exact writes_lines (by simp [prototypeItems, Item.line?])
  | cons first others =>
      exact writes_lines (by simp [prototypeItems, joinSpace, Item.line?])

/-- Definitions have an empty line between neighbours. -/
theorem writes_stubItems (stubs : List LoweredStub) :
    Writes (stubItems stubs)
      (String.intercalate "\n"
        (stubs.map fun lowered => lowered.stub.definitionText)) := by
  induction stubs with
  | nil => exact writes_nil
  | cons lowered stubs ih =>
      cases stubs with
      | nil => exact lowered.stub.writes_items
      | cons second stubs =>
          have blank : Writes [.blank] "\n" := fun _ => rfl
          have text := (lowered.stub.writes_items.append blank).append ih
          rw [List.append_assoc] at text
          rw [List.map_cons, List.map_cons, String.intercalate_cons_cons]
          exact text

theorem writes_customItems (c : CustomCode) :
    Writes (customItems c) (customText c) := by
  have front : Writes [.blank, .line ("// Custom JNI code from " ++ c.path)]
      (linesText ["", "// Custom JNI code from " ++ c.path]) :=
    writes_lines rfl
  have code : Writes [.raw c.contents] ((Item.raw c.contents).text 0) :=
    fun _ => rfl
  exact front.append code

end Parts

theorem writes_prototypeGroups (stubs : List LoweredStub) :
    Writes ((prototypeGroups stubs).flatMap prototypeItems)
      (String.join ((prototypeGroups stubs).map
        fun (space, prototypes) => spaceText space prototypes)) :=
  writes_flatMap fun group _ => writes_prototypeItems group.1 group.2

/-- The text of the unit of a target by its parts. -/
theorem contents_ofTarget (options : EmitOptions) (s : SignedTarget) :
    (ofTarget options s).contents =
      preambleText s.target options
        ++ String.join
          ((prototypeGroups
            (Lowering.lowerTarget s options.exceptionClass)).map
              fun (space, prototypes) => spaceText space prototypes)
        ++ String.intercalate "\n"
          ((Lowering.lowerTarget s options.exceptionClass).map
            fun lowered => lowered.stub.definitionText)
        ++ String.join (s.target.customCode.map customText) := by
  have declared := (writes_preamble s.target options).append
    (writes_prototypeGroups (Lowering.lowerTarget s options.exceptionClass))
  exact ((declared.append (writes_stubItems _)).append
    (writes_flatMap fun c _ => writes_customItems c)).render_eq

/-- Each definition starts a line of its unit. -/
theorem exists_contents_eq (options : EmitOptions) {s : SignedTarget}
    {lowered : LoweredStub}
    (member : lowered ∈ Lowering.lowerTarget s options.exceptionClass) :
    ∃ front back, EndsLine front ∧
      (ofTarget options s).contents =
        front ++ lowered.stub.definitionText ++ back := by
  have declared := (writes_preamble s.target options).append
    (writes_prototypeGroups (Lowering.lowerTarget s options.exceptionClass))
  obtain ⟨front, back, starts, eq⟩ := exists_intercalate_eq member
    fun lowered => lowered.stub.definitionText
  refine ⟨_, back ++ String.join (s.target.customCode.map customText),
    declared.endsLine.append starts, ?_⟩
  rw [contents_ofTarget, eq]
  simp only [String.append_assoc]

end SourceUnit
end NativeGlue
