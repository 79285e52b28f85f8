import Mathlib.Data.List.Forall2
import NativeGlue.Mapping.Basic

/-!
# What can be mapped

A method is mapped if its parameters and its result are, each for itself. The
types that are mapped are primitives, strings, objects, and arrays of one
dimension over a primitive.
-/

namespace NativeGlue
namespace Mapping

/-- The types that are mapped, and what they are mapped to. -/
theorem mapType_cases {position : Position} {owning : Bool}
    {t : TypeDescriptor} {p : MappedType}
    (mapped : mapType position owning t = .ok p) :
    (∃ kind, t = .primitive kind ∧
        p = ⟨t, kind.jniType, kind.cppType, .byValue, .primitive kind⟩) ∨
      (t = .string ∧ ∃ cppType, p = ⟨t, "jstring", cppType, .owned, .string⟩) ∨
      (∃ name, t = .object name ∧ p = ofObject position owning t) ∨
      ∃ kind dimensions, t = .array (.primitive kind) dimensions ∧
        p = ofArray position t kind := by
  unfold mapType at mapped
  split at mapped
  · split at mapped
    · cases mapped
    · cases mapped
      exact .inl ⟨_, rfl, rfl⟩
  · cases mapped
    exact .inr (.inl ⟨rfl, _, rfl⟩)
  · cases mapped
    exact .inr (.inr (.inl ⟨_, rfl, rfl⟩))
  · split at mapped
    · cases mapped
    · split at mapped
      · split at mapped
        · cases mapped
        · cases mapped
          exact .inr (.inr (.inr ⟨_, _, rfl, rfl⟩))
      · cases mapped

/-- Parameters are mapped one by one. -/
theorem mapParams_eq_ok_iff {owning : Bool} {ts : List TypeDescriptor}
    {ps : List MappedType} :
    mapParams owning ts = .ok ps ↔
      List.Forall₂ (fun t p => mapType .param owning t = .ok p) ts ps := by
  induction ts generalizing ps with
  | nil =>
      simp [mapParams, eq_comm]
  | cons t ts ih =>
      rw [mapParams, List.forall₂_cons_left_iff]
      simp only [← ih]
      cases first : mapType .param owning t with
      | error reason => simp
      | ok q =>
          cases others : mapParams owning ts with
          | error e => simp
          | ok qs => simp [eq_comm]

/-- Parameters and their mapped forms belong to each other both ways. -/
theorem mem_mapParams {owning : Bool} {ts : List TypeDescriptor}
    {ps : List MappedType} (mapped : mapParams owning ts = .ok ps) :
    (∀ t ∈ ts, ∃ p ∈ ps, mapType .param owning t = .ok p) ∧
      ∀ p ∈ ps, ∃ t ∈ ts, mapType .param owning t = .ok p := by
  have pairs := mapParams_eq_ok_iff.mp mapped
  induction pairs with
  | nil =>
      simp
  | cons first others ih =>
      obtain ⟨left, right⟩ := ih (mapParams_eq_ok_iff.mpr others)
      rw [List.forall_mem_cons, List.forall_mem_cons]
      refine ⟨⟨⟨_, List.mem_cons_self, first⟩, ?_⟩,
        ⟨⟨_, List.mem_cons_self, first⟩, ?_⟩⟩
      · intro t member
        obtain ⟨p, inside, eq⟩ := left t member
        exact ⟨p, List.mem_cons_of_mem _ inside, eq⟩
      · intro p member
        obtain ⟨t, inside, eq⟩ := right p member
        exact ⟨t, List.mem_cons_of_mem _ inside, eq⟩

theorem mapMethod_eq_ok {owner : ClassName} {m : Method}
    {mapped : MappedMethod} (accepted : mapMethod owner m = .ok mapped) :
    mapped.method = m ∧
      mapParams m.flags.takesOwnership m.descriptor.params =
        .ok mapped.params ∧
      mapType .result m.flags.takesOwnership m.descriptor.ret =
        .ok mapped.ret := by
  simp only [mapMethod] at accepted
  split at accepted
  · cases accepted
  · rename_i params hparams
    split at accepted
    · cases accepted
    · rename_i ret hret
      cases accepted
      exact ⟨rfl, hparams, hret⟩

theorem mem_mappable {t : Target} {mapped : MappedMethod} :
    mapped ∈ mappable t ↔
      ∃ m ∈ t.methods, mapMethod t.name m = .ok mapped := by
  rw [mappable, List.mem_filterMap]
  refine exists_congr fun m => and_congr_right fun _ => ?_
  cases mapMethod t.name m <;> simp [Except.toOption]

/-- The methods of a target that are mapped are among its methods, in order. -/
theorem map_method_mappable_sublist (t : Target) :
    ((mappable t).map MappedMethod.method).Sublist t.methods := by
  rw [mappable]
  induction t.methods with
  | nil =>
      exact .slnil
  | cons m ms ih =>
      cases accepted : mapMethod t.name m with
      | error e =>
          rw [List.filterMap_cons_none (by rw [accepted]; rfl)]
          exact ih.cons m
      | ok mapped =>
          rw [List.filterMap_cons_some (by rw [accepted]; rfl),
            List.map_cons, (mapMethod_eq_ok accepted).1]
          exact ih.cons_cons m

end Mapping
end NativeGlue
