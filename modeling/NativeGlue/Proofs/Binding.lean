import Mathlib.Data.List.Sort
import NativeGlue.Binding
import NativeGlue.Proofs.Ascending

/-!
# Settings of a method

A method is made from its name, its descriptor and its flags, and gets its
other properties by settings. Each parameter that is set unchecked is put into
an ascending list, which is searched by halving whenever a null check is made.
So the list has to stay ascending under all settings, and then the parameters
that are checked are told by the flags and the settings alone.
-/

namespace NativeGlue

/-- A property that is set of a method. -/
inductive Setting where
  | nativeName (name : String)
  | space (space : String)
  /-- A parameter is not checked for null. -/
  | uncheckedParam (index : Nat)
deriving DecidableEq, Repr

namespace Method

/-- The method with one setting. -/
def set (m : Method) : Setting → Method
  | .nativeName name => m.withNativeName name
  | .space space => m.withSpace space
  | .uncheckedParam index => m.withUncheckedParam index

/-- The method with settings, one after another. -/
def setAll (m : Method) (settings : List Setting) : Method :=
  settings.foldl set m

/-- The unchecked parameters are in ascending order, and are those given. -/
structure Unchecks (m : Method) (given : Nat → Prop) : Prop where
  ascending : m.uncheckedParams.Pairwise (· < ·)
  mem_iff : ∀ i, i ∈ m.uncheckedParams ↔ given i

variable {m n : Method} {given : Nat → Prop} {i : Nat}

theorem unchecks_ofName (name : String) (descriptor : MethodDescriptor)
    (flags : MethodFlags) :
    (ofName name descriptor flags).Unchecks fun _ => False :=
  ⟨.nil, fun _ => List.mem_nil_iff _⟩

namespace Unchecks

/-- A setting gives one parameter at most. -/
theorem set (unchecks : m.Unchecks given) (setting : Setting) :
    (m.set setting).Unchecks fun i =>
      given i ∨ setting = .uncheckedParam i := by
  obtain ⟨ascending, mem_iff⟩ := unchecks
  cases setting with
  | nativeName name =>
      exact ⟨ascending, by simpa [Method.set, withNativeName] using mem_iff⟩
  | space space =>
      exact ⟨ascending, by simpa [Method.set, withSpace] using mem_iff⟩
  | uncheckedParam index =>
      refine ⟨Ascending.pairwise_insert ascending index, fun i => ?_⟩
      have inserted : i ∈ (m.withUncheckedParam index).uncheckedParams ↔
          i = index ∨ i ∈ m.uncheckedParams :=
        Ascending.mem_insert ascending
      rw [Method.set, inserted, mem_iff, or_comm, Setting.uncheckedParam.injEq,
        eq_comm]

theorem setAll (unchecks : m.Unchecks given) (settings : List Setting) :
    (m.setAll settings).Unchecks fun i =>
      given i ∨ .uncheckedParam i ∈ settings := by
  induction settings generalizing m given with
  | nil =>
      simpa [Method.setAll] using unchecks
  | cons setting settings ih =>
      obtain ⟨ascending, mem_iff⟩ := ih (unchecks.set setting)
      refine ⟨ascending, fun i => (mem_iff i).trans ?_⟩
      rw [List.mem_cons, or_assoc, @eq_comm _ setting]

/-- A check is left out for all parameters, or for one that is given. -/
theorem nullChecked_eq_false_iff (unchecks : m.Unchecks given) :
    m.nullChecked i = false ↔ m.flags.ignoresNull = true ∨ given i := by
  have found := Ascending.contains_iff unchecks.ascending (x := i)
  rw [unchecks.mem_iff] at found
  rw [nullChecked, Bool.and_eq_false_iff, Bool.not_eq_false',
    Bool.not_eq_false', found]

/-- What is given determines the list. -/
theorem uncheckedParams_eq (left : m.Unchecks given)
    (right : n.Unchecks given) : m.uncheckedParams = n.uncheckedParams :=
  left.ascending.eq_of_mem_iff right.ascending fun i =>
    (left.mem_iff i).trans (right.mem_iff i).symm

end Unchecks

theorem flags_setAll (m : Method) (settings : List Setting) :
    (m.setAll settings).flags = m.flags := by
  induction settings generalizing m with
  | nil => rfl
  | cons setting settings ih =>
      rw [setAll, List.foldl_cons, ← setAll, ih]
      cases setting <;> rfl

theorem unchecks_setAll_ofName (name : String) (descriptor : MethodDescriptor)
    (flags : MethodFlags) (settings : List Setting) :
    ((ofName name descriptor flags).setAll settings).Unchecks fun i =>
      .uncheckedParam i ∈ settings := by
  simpa using (unchecks_ofName name descriptor flags).setAll settings

/--
The unchecked parameters are the ascending list of the indices that are set,
and a parameter is not checked just if all are not or its index is set. Neither
the order of the settings nor repetitions make a difference.
-/
theorem nullChecked_setAll (name : String) (descriptor : MethodDescriptor)
    (flags : MethodFlags) (settings : List Setting) :
    let m := (ofName name descriptor flags).setAll settings
    m.uncheckedParams.Pairwise (· < ·) ∧
      (∀ i, i ∈ m.uncheckedParams ↔ .uncheckedParam i ∈ settings) ∧
      (∀ i, m.nullChecked i = false ↔
        flags.ignoresNull = true ∨ .uncheckedParam i ∈ settings) ∧
      ∀ others : List Setting,
        (∀ i, .uncheckedParam i ∈ others ↔ .uncheckedParam i ∈ settings) →
        let n := (ofName name descriptor flags).setAll others
        n.uncheckedParams = m.uncheckedParams ∧
          ∀ i, n.nullChecked i = m.nullChecked i := by
  intro m
  have unchecks : m.Unchecks fun i => .uncheckedParam i ∈ settings :=
    unchecks_setAll_ofName name descriptor flags settings
  have ownFlags : m.flags = flags := flags_setAll _ settings
  refine ⟨unchecks.ascending, unchecks.mem_iff, fun i => ?_, ?_⟩
  · rw [unchecks.nullChecked_eq_false_iff, ownFlags]
  · intro others same n
    have unchecks' : n.Unchecks fun i => .uncheckedParam i ∈ settings := by
      simpa only [same] using
        unchecks_setAll_ofName name descriptor flags others
    have lists := unchecks'.uncheckedParams_eq unchecks
    have sameFlags : n.flags = m.flags :=
      (flags_setAll _ others).trans ownFlags.symm
    refine ⟨lists, fun i => ?_⟩
    rw [nullChecked, nullChecked, lists, sameFlags]

/-- A method of eight texts. -/
def eightTexts : Method :=
  ofName "f" ⟨List.replicate 8 .string, .primitive .void⟩ default

/-- Indices set in no order, one of them twice, among other settings. -/
def scatteredSettings : List Setting :=
  [.uncheckedParam 7, .nativeName "g", .uncheckedParam 2, .uncheckedParam 7,
    .space "a::b", .uncheckedParam 4, .uncheckedParam 0]

theorem uncheckedParams_scatteredSettings :
    (∀ i, .uncheckedParam i ∈ scatteredSettings.reverse ↔
        .uncheckedParam i ∈ scatteredSettings) ∧
      (eightTexts.setAll scatteredSettings.reverse).uncheckedParams =
        [0, 2, 4, 7] := by
  have same : ∀ i, .uncheckedParam i ∈ scatteredSettings.reverse ↔
      .uncheckedParam i ∈ scatteredSettings := fun _ => List.mem_reverse
  obtain ⟨-, -, -, unordered⟩ := nullChecked_setAll "f"
    ⟨List.replicate 8 .string, .primitive .void⟩ default scatteredSettings
  exact ⟨same, (unordered _ same).1.trans (by decide)⟩

end Method
end NativeGlue
