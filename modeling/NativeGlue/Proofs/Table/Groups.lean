import Mathlib.Data.List.Chain
import NativeGlue.Table.Basic

/-!
# Entries by class

`groups` puts neighbouring entries of one class together. What it gives is the
only way to take entries apart into parts that are not empty and have one class
each, where neighbours have different classes. So a table that is filled class
by class, with no class twice in a row, has just these parts as its groups.
-/

namespace NativeGlue
namespace Table

/-- Entries taken apart by class; each part has the class in front of it. -/
structure IsGrouping (entries : List Entry)
    (parts : List (ClassName × List Entry)) : Prop where
  ne_nil : ∀ g ∈ parts, g.2 ≠ []
  owner : ∀ g ∈ parts, ∀ e ∈ g.2, e.owner = g.1
  apart : parts.IsChain fun g h => g.1 ≠ h.1
  joined : parts.flatMap Prod.snd = entries

section Groups

variable {e : Entry} {entries members rest : List Entry} {owner : ClassName}
  {parts : List (ClassName × List Entry)}

/-- An entry of the class in front joins its part. -/
theorem groups_cons_of_eq (front : groups rest = (owner, members) :: parts)
    (same : e.owner = owner) :
    groups (e :: rest) = (owner, e :: members) :: parts := by
  rw [groups, front]
  exact if_pos same

/-- An entry of another class is a part of its own. -/
theorem groups_cons_of_ne
    (other : ∀ g ∈ (groups rest).head?, e.owner ≠ g.1) :
    groups (e :: rest) = (e.owner, [e]) :: groups rest := by
  rw [groups]
  cases front : groups rest with
  | nil => rfl
  | cons g parts =>
      rw [front] at other
      exact if_neg (other g rfl)

/-- Entries of one class are one part if another class follows them. -/
theorem groups_append (some : members ≠ [])
    (owned : ∀ e ∈ members, e.owner = owner)
    (other : ∀ g ∈ (groups rest).head?, owner ≠ g.1) :
    groups (members ++ rest) = (owner, members) :: groups rest := by
  induction members with
  | nil => exact absurd rfl some
  | cons e members ih =>
      rw [List.forall_mem_cons] at owned
      cases members with
      | nil =>
          rw [← owned.1] at other ⊢
          exact groups_cons_of_ne other
      | cons e' members =>
          exact groups_cons_of_eq (ih (by simp) owned.2) owned.1

theorem IsGrouping.tail {g : ClassName × List Entry}
    (grouping : IsGrouping entries (g :: parts)) :
    IsGrouping (parts.flatMap Prod.snd) parts where
  ne_nil h member := grouping.ne_nil h (List.mem_cons_of_mem _ member)
  owner h member := grouping.owner h (List.mem_cons_of_mem _ member)
  apart := grouping.apart.tail
  joined := rfl

/-- There is only one way to take entries apart. -/
theorem IsGrouping.eq_groups (grouping : IsGrouping entries parts) :
    groups entries = parts := by
  induction parts generalizing entries with
  | nil => rw [← grouping.joined, List.flatMap_nil, groups]
  | cons g parts ih =>
      have later : groups (parts.flatMap Prod.snd) = parts := ih grouping.tail
      rw [← grouping.joined, List.flatMap_cons, groups_append
        (grouping.ne_nil g List.mem_cons_self)
        (grouping.owner g List.mem_cons_self), later]
      rw [later]
      intro h front
      exact (List.isChain_cons.mp grouping.apart).1 h front

theorem IsGrouping.cons_of_eq
    (grouping : IsGrouping rest ((owner, members) :: parts))
    (same : e.owner = owner) :
    IsGrouping (e :: rest) ((owner, e :: members) :: parts) where
  ne_nil := List.forall_mem_cons.mpr ⟨List.cons_ne_nil _ _,
    (List.forall_mem_cons.mp grouping.ne_nil).2⟩
  owner := by
    obtain ⟨first, later⟩ := List.forall_mem_cons.mp grouping.owner
    exact List.forall_mem_cons.mpr
      ⟨List.forall_mem_cons.mpr ⟨same, first⟩, later⟩
  apart := List.isChain_cons.mpr (List.isChain_cons.mp grouping.apart)
  joined := congrArg (e :: ·) grouping.joined

theorem IsGrouping.cons_of_ne (grouping : IsGrouping rest parts)
    (other : ∀ g ∈ parts.head?, e.owner ≠ g.1) :
    IsGrouping (e :: rest) ((e.owner, [e]) :: parts) where
  ne_nil := List.forall_mem_cons.mpr
    ⟨List.cons_ne_nil _ _, grouping.ne_nil⟩
  owner := List.forall_mem_cons.mpr
    ⟨fun _ member => List.mem_singleton.mp member ▸ rfl, grouping.owner⟩
  apart := List.isChain_cons.mpr ⟨other, grouping.apart⟩
  joined := congrArg (e :: ·) grouping.joined

theorem isGrouping_groups (entries : List Entry) :
    IsGrouping entries (groups entries) := by
  induction entries with
  | nil => exact ⟨nofun, nofun, .nil, rfl⟩
  | cons e rest ih =>
      by_cases other : ∀ g ∈ (groups rest).head?, e.owner ≠ g.1
      · rw [groups_cons_of_ne other]
        exact ih.cons_of_ne other
      · push Not at other
        obtain ⟨g, first, same⟩ := other
        obtain ⟨parts, front⟩ := List.head?_eq_some_iff.mp first
        rw [groups_cons_of_eq front same]
        exact (front ▸ ih).cons_of_eq same

theorem isGrouping_byClass (t : Table) : IsGrouping t.entries t.byClass :=
  isGrouping_groups t.entries

end Groups

end Table
end NativeGlue
