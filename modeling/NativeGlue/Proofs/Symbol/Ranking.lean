import Mathlib.Data.List.Nodup
import Mathlib.Data.List.Permutation
import NativeGlue.Proofs.Symbol.Overload

/-!
# Ranks are those of the descriptors

A ranked class has one rank for each method. The index in it is the number of
methods of the same name whose descriptors come earlier, and there is none
where no other method has the name. So the indices of a name count up from
zero, and the order in which the methods are listed makes no difference.

A class that is not ranked has two methods of one name with the same parameter
types, and the name is the first one declared for which there are two.

Main statement: `ranks_stable`.
-/

namespace NativeGlue
namespace Overload

/-- Two methods of a list have a given name and the same parameter types. -/
def Clashing (methods : List Method) (name : String) : Prop :=
  ∃ a b, [a, b].Sublist methods ∧ a.name = name ∧ b.name = name ∧
    a.descriptor.params = b.descriptor.params

/--
The index that a method has by its descriptor: the number of methods of its
name with an earlier one. A method that is alone under its name has none.
-/
def rankAmong (methods : List Method) (m : Method) : Option Nat :=
  if 1 < methods.countP (fun o => o.name = m.name) then
    some (methods.countP fun o => o.name = m.name && !descriptorLe m o)
  else
    none

/-- Ranks that are those of the methods of a class. -/
structure Ranked (methods : List Method) (rs : List Rank) : Prop where
  /-- Every method has one rank, and there are no others. -/
  complete : rs.Perm (methods.map fun m =>
    ⟨m.name, m.descriptor.encode, rankAmong methods m⟩)
  /-- This rank is found by name and descriptor. -/
  index : ∀ m ∈ methods, indexOf rs m = rankAmong methods m
  /-- The indices of several methods of one name are `0`, `1` and so on. -/
  full : ∀ name, 1 < methods.countP (fun m => m.name = name) →
    ((methods.filter fun m => m.name = name).map (indexOf rs)).Perm
      ((List.range (methods.countP fun m => m.name = name)).map some)

/-- The collision that is reported for a class that cannot be ranked. -/
structure Refused (owner : ClassName) (methods : List Method)
    (c : Collision) : Prop where
  /-- It is that of two methods with the same name and parameter types. -/
  pair : ∃ a b, ([a, b].Sublist methods ∨ [b, a].Sublist methods) ∧
    a.name = b.name ∧ a.descriptor.params = b.descriptor.params ∧
    c = collision owner a b
  /-- No name that is declared before has two such methods. -/
  first : ∃ before m behind, methods = before ++ m :: behind ∧
    m.name = c.method ∧ Clashing methods m.name ∧
    ∀ o ∈ before, ¬ Clashing methods o.name

section Clashes

variable {methods methods' : List Method} {name : String}

theorem clashing_iff :
    Clashing methods name ↔
      ¬ methods.Pairwise fun a b => a.name = name → b.name = name →
        a.descriptor.params ≠ b.descriptor.params := by
  rw [List.pairwise_iff_forall_sublist, Clashing]
  push Not
  rfl

theorem samePair?_group_isSome_iff (canonical : Canonical methods) :
    (samePair? (group name methods)).isSome = true ↔
      Clashing methods name := by
  rw [clashing_iff, ← samePair?_group_eq_none_iff canonical,
    Option.isSome_iff_ne_none]

theorem not_distinct_iff :
    ¬ Distinct methods ↔ ∃ name, Clashing methods name := by
  rw [Distinct, List.pairwise_iff_forall_sublist]
  push Not
  constructor
  · rintro ⟨a, b, within, same, params⟩
    exact ⟨a.name, a, b, within, rfl, same.symm, params⟩
  · rintro ⟨name, a, b, within, left, right, params⟩
    exact ⟨a, b, within, left.trans right.symm, params⟩

theorem distinct_iff_of_perm (perm : methods.Perm methods') :
    Distinct methods ↔ Distinct methods' :=
  perm.pairwise_iff fun differs same params =>
    differs same.symm params.symm

end Clashes

section Names

variable {methods : List Method}

/-- A name is new or known. -/
theorem names_concat (methods : List Method) (m : Method) :
    names (methods ++ [m]) =
      if m.name ∈ names methods then names methods
      else names methods ++ [m.name] := by
  simp [names, List.foldl_append]

theorem nodup_names (methods : List Method) : (names methods).Nodup := by
  induction methods using List.reverseRecOn with
  | nil => exact .nil
  | append_singleton methods m ih =>
      rw [names_concat]
      split
      · exact ih
      · rename_i new
        exact List.Nodup.append ih (List.nodup_singleton _)
          (by simpa using new)

/-- The first name with some property is that of the first such method. -/
theorem find?_names (p : String → Bool) (methods : List Method) :
    (names methods).find? p = (methods.map Method.name).find? p := by
  induction methods using List.reverseRecOn with
  | nil => rfl
  | append_singleton methods m ih =>
      rw [names_concat, List.map_append, List.find?_append, ← ih]
      split
      · rename_i known
        cases found : (names methods).find? p with
        | some name => rfl
        | none =>
            have absent := List.find?_eq_none.mp found m.name known
            simp [absent]
      · rw [List.find?_append]
        rfl

/-- The methods of all names, name by name, are the methods. -/
theorem flatMap_filter_perm {found : List String} (once : found.Nodup)
    (all : ∀ m ∈ methods, m.name ∈ found) :
    (found.flatMap fun name =>
      methods.filter fun m => m.name = name).Perm methods := by
  induction found generalizing methods with
  | nil =>
      cases methods with
      | nil => exact .nil
      | cons m methods => cases all m List.mem_cons_self
  | cons name found ih =>
      obtain ⟨new, once⟩ := List.nodup_cons.mp once
      -- The methods of the later names are among those of other names.
      have others : (found.flatMap fun n =>
          methods.filter fun m => m.name = n) =
          found.flatMap fun n =>
            (methods.filter fun m => !decide (m.name = name)).filter
              fun m => m.name = n := by
        refine List.flatMap_congr fun n inside => ?_
        have other : n ≠ name := fun same => new (same ▸ inside)
        rw [List.filter_filter]
        refine List.filter_congr fun m _ => ?_
        by_cases same : m.name = n <;> simp [same, other]
      have later : ∀ m ∈ methods.filter fun m => !decide (m.name = name),
          m.name ∈ found := by
        intro m member
        obtain ⟨member, other⟩ := List.mem_filter.mp member
        have other : m.name ≠ name := by simpa using other
        exact (List.mem_cons.mp (all m member)).resolve_left other
      rw [List.flatMap_cons, others]
      exact ((ih once later).append_left _).trans
        (List.filter_append_perm (fun m => decide (m.name = name)) methods)

end Names

section Places

variable {methods methods' : List Method}

/-- A place in a sorted group is the number of its members before it. -/
theorem countP_eq_of_place {members : List Method} {m : Method} {i : Nat}
    (sorted : members.Pairwise fun a b =>
      descriptorLe a b = true ∧ descriptorLe b a = false)
    (place : members[i]? = some m) :
    members.countP (fun o => !descriptorLe m o) = i := by
  induction members generalizing i with
  | nil => cases place
  | cons a members ih =>
      obtain ⟨first, rest⟩ := List.pairwise_cons.mp sorted
      cases i with
      | zero =>
          obtain rfl := Option.some.inj place
          rw [List.countP_eq_zero]
          intro o member
          have low : descriptorLe a o = true := by
            rcases List.mem_cons.mp member with rfl | behind
            · exact (Bool.or_self _).symm.trans
                (Text.le_total o.descriptor.encode o.descriptor.encode)
            · exact (first o behind).1
          simp [low]
      | succ i =>
          have high := (first m (List.mem_of_getElem? place)).2
          rw [List.countP_cons_of_pos (by simp [high]), ih rest place]

/-- A group of methods that differ in their parameters is strictly sorted. -/
theorem Distinct.pairwise_group (distinct : Distinct methods)
    (canonical : Canonical methods) (name : String) :
    (Overload.group name methods).Pairwise fun a b =>
      descriptorLe a b = true ∧ descriptorLe b a = false := by
  have sorted := Overload.pairwise_group name methods
  refine (sorted.and (distinct.group name)).imp_of_mem ?_
  rintro a b inA inB ⟨low, differ⟩
  refine ⟨low, Bool.eq_false_iff.mpr fun high => differ ?_⟩
  have same := Text.le_antisymm low high
  rw [(canonical a (mem_group.mp inA).1).encode_inj
    (canonical b (mem_group.mp inB).1) same]

theorem length_group (name : String) (methods : List Method) :
    (group name methods).length =
      methods.countP fun m => m.name = name := by
  rw [(group_perm name methods).length_eq, List.countP_eq_length_filter]

theorem countP_group (name : String) (methods : List Method)
    (p : Method → Bool) :
    (group name methods).countP p =
      methods.countP fun m => m.name = name && p m := by
  rw [(group_perm name methods).countP_eq, List.countP_filter]
  simp only [Bool.and_comm]

/-- The index of a place in a group is the rank of the method there. -/
theorem indexAt_eq_rankAmong (distinct : Distinct methods)
    (canonical : Canonical methods)
    (few : ∀ name, methods.countP (fun m => m.name = name) < 65536)
    {name : String} {m : Method} {i : Nat}
    (place : (group name methods)[i]? = some m) :
    indexAt (group name methods).length i = rankAmong methods m := by
  obtain rfl := (mem_group.mp (List.mem_of_getElem? place)).2
  have bound := (List.getElem?_eq_some_iff.mp place).1
  have before := countP_eq_of_place
    (distinct.pairwise_group canonical m.name) place
  rw [countP_group] at before
  rw [length_group] at bound ⊢
  have uncut : min maxIndex i = i := by
    have := few m.name
    rw [maxIndex]
    omega
  rw [indexAt, rankAmong, before, uncut]

theorem rankAmong_eq_of_perm (perm : methods.Perm methods') (m : Method) :
    rankAmong methods m = rankAmong methods' m := by
  rw [rankAmong, rankAmong, perm.countP_eq, perm.countP_eq]

end Places

section Results

variable {owner : ClassName} {methods methods' : List Method}
  {rs rs' : List Rank} {c : Collision}

/-- A group is ranked by the descriptors of the whole class. -/
theorem ranksOfGroup_group (distinct : Distinct methods)
    (canonical : Canonical methods)
    (few : ∀ name, methods.countP (fun m => m.name = name) < 65536)
    (name : String) :
    ranksOfGroup (group name methods) =
      (group name methods).map fun m =>
        ⟨m.name, m.descriptor.encode, rankAmong methods m⟩ := by
  refine List.ext_getElem? fun i => ?_
  have ranked : (ranksOfGroup (group name methods))[i]? =
      (group name methods)[i]?.map fun m =>
        ⟨m.name, m.descriptor.encode,
          indexAt (group name methods).length i⟩ := by
    simp [ranksOfGroup, indexAt, Function.comp_def]
  rw [ranked, List.getElem?_map]
  cases place : (group name methods)[i]? with
  | none => rfl
  | some m =>
      rw [Option.map_some, Option.map_some,
        indexAt_eq_rankAmong distinct canonical few place]

/-- The indices of a group of several methods are its places. -/
theorem map_rankAmong_group (distinct : Distinct methods)
    (canonical : Canonical methods)
    (few : ∀ name, methods.countP (fun m => m.name = name) < 65536)
    {name : String} (several : 1 < methods.countP fun m => m.name = name) :
    (group name methods).map (rankAmong methods) =
      (List.range (methods.countP fun m => m.name = name)).map some := by
  rw [← length_group] at several ⊢
  refine List.ext_getElem? fun i => ?_
  rw [List.getElem?_map, List.getElem?_map]
  by_cases inside : i < (group name methods).length
  · have place : (group name methods)[i]? = some (group name methods)[i] :=
      List.getElem?_eq_getElem inside
    have bound : (group name methods).length < 65536 := by
      rw [length_group]
      exact few name
    have uncut : min maxIndex i = i := by
      rw [maxIndex]
      omega
    rw [place, List.getElem?_range inside, Option.map_some, Option.map_some,
      ← indexAt_eq_rankAmong distinct canonical few place, indexAt,
      if_pos several, uncut]
  · rw [List.getElem?_eq_none (by omega),
      List.getElem?_eq_none (by simpa using inside)]
    rfl

theorem ranked_of_ranks (canonical : Canonical methods)
    (few : ∀ name, methods.countP (fun m => m.name = name) < 65536)
    (ranked : ranks owner methods = .ok rs) : Ranked methods rs := by
  obtain ⟨distinct, all⟩ := (ranks_eq_ok_iff canonical).mp ranked
  have index : ∀ m ∈ methods, indexOf rs m = rankAmong methods m := by
    intro m member
    have inside : m ∈ group m.name methods := mem_group.mpr ⟨member, rfl⟩
    obtain ⟨i, place⟩ := List.mem_iff_getElem?.mp inside
    rw [indexOf_eq_indexAt canonical ranked place,
      indexAt_eq_rankAmong distinct canonical few place]
  refine ⟨?_, index, ?_⟩
  · have groups : ((names methods).flatMap fun name =>
        group name methods).Perm methods :=
      (List.Perm.flatMap_left _ fun name _ => group_perm name methods).trans
        (flatMap_filter_perm (nodup_names methods) fun m member =>
          mem_names.mpr ⟨m, member, rfl⟩)
    simp only [all, ranksOfGroup_group distinct canonical few]
    rw [← List.map_flatMap]
    exact groups.map _
  · intro name several
    have same : (methods.filter fun m => m.name = name).map (indexOf rs) =
        (methods.filter fun m => m.name = name).map (rankAmong methods) :=
      List.map_congr_left fun m member =>
        index m (List.mem_of_mem_filter member)
    rw [same, ← map_rankAmong_group distinct canonical few several]
    exact ((group_perm name methods).map _).symm

theorem exists_ranks_eq_error_iff (canonical : Canonical methods) :
    (∃ c, ranks owner methods = .error c) ↔ ¬ Distinct methods := by
  cases ranked : ranks owner methods with
  | ok rs =>
      have distinct := ((ranks_eq_ok_iff canonical).mp ranked).1
      simp [distinct]
  | error c =>
      have clash : ¬ Distinct methods := by
        intro distinct
        rw [(ranks_eq_ok_iff canonical).mpr ⟨distinct, rfl⟩] at ranked
        cases ranked
      simp [clash]

/-- The first two neighbours with the same parameters. -/
theorem exists_of_samePair?_eq_some {members : List Method} {a b : Method}
    (found : samePair? members = some (a, b)) :
    [a, b].Sublist members ∧ a.descriptor.params = b.descriptor.params := by
  fun_induction samePair? members with
  | case1 x y rest same =>
      obtain ⟨rfl, rfl⟩ := Prod.mk.inj (Option.some.inj found)
      exact ⟨.cons_cons x (.cons_cons y (List.nil_sublist rest)), same⟩
  | case2 x y rest differs ih =>
      obtain ⟨within, same⟩ := ih found
      exact ⟨within.cons x, same⟩
  | case3 => cases found

/-- The first name whose group has a clash is the one that is reported. -/
theorem exists_of_ranksOfNames_eq_error {found : List String}
    (failed : ranksOfNames owner methods found = .error c) :
    ∃ name a b,
      (found.find? fun n => (samePair? (group n methods)).isSome) =
        some name ∧
      samePair? (group name methods) = some (a, b) ∧
      c = collision owner a b := by
  induction found with
  | nil => cases failed
  | cons name found ih =>
      rw [ranksOfNames] at failed
      cases pair : samePair? (group name methods) with
      | some clash =>
          obtain ⟨a, b⟩ := clash
          simp only [pair, Except.error.injEq] at failed
          exact ⟨name, a, b, by simp [pair], pair, failed.symm⟩
      | none =>
          simp only [pair] at failed
          cases others : ranksOfNames owner methods found with
          | ok ranks => simp [others] at failed
          | error e =>
              simp only [others, Except.error.injEq] at failed
              obtain ⟨first, rest⟩ := ih (others.trans (congrArg _ failed))
              refine ⟨first, ?_⟩
              simpa [pair] using rest

theorem refused_of_ranks (canonical : Canonical methods)
    (failed : ranks owner methods = .error c) : Refused owner methods c := by
  obtain ⟨name, a, b, first, pair, rfl⟩ :=
    exists_of_ranksOfNames_eq_error failed
  obtain ⟨within, same⟩ := exists_of_samePair?_eq_some pair
  have inA := (mem_group.mp (within.subset List.mem_cons_self)).2
  have inB := (mem_group.mp (within.subset
    (List.mem_cons_of_mem a List.mem_cons_self))).2
  constructor
  · refine ⟨a, b, ?_, inA.trans inB.symm, same, rfl⟩
    obtain ⟨l, perm, among⟩ := List.exists_perm_sublist within
      (group_perm name methods)
    have among := among.trans List.filter_sublist
    rcases List.perm_pair.mp perm with rfl | rfl
    · exact .inl among
    · exact .inr among
  · rw [find?_names, List.find?_eq_some_iff_append] at first
    obtain ⟨clash, before, behind, split, none⟩ := first
    obtain ⟨front, back, rfl, rfl, rest⟩ := List.map_eq_append_iff.mp split
    obtain ⟨m, back, rfl, named, rfl⟩ := List.map_eq_cons_iff.mp rest
    refine ⟨front, m, back, rfl, named.trans inB.symm, ?_, ?_⟩
    · rw [named]
      exact (samePair?_group_isSome_iff canonical).mp clash
    · intro o member clash
      have absent := none o.name (List.mem_map_of_mem member)
      rw [(samePair?_group_isSome_iff canonical).mpr clash] at absent
      cases absent

/--
A class is ranked just if no two of its methods have the same name and the
same parameter types. Then each method has the rank of its descriptor among
the methods of its name, whatever the order of the list. Otherwise the
collision is that of the first name declared which two such methods have.
-/
theorem ranks_stable (owner : ClassName)
    (parsed : ∀ m ∈ methods, ∃ s, MethodDescriptor.parse s = .ok m.descriptor)
    (few : ∀ name, methods.countP (fun m => m.name = name) < 65536) :
    ((∃ c, ranks owner methods = .error c) ↔
      ∃ name, Clashing methods name) ∧
    (∀ c, ranks owner methods = .error c → Refused owner methods c) ∧
    (∀ rs, ranks owner methods = .ok rs → Ranked methods rs) ∧
    ∀ methods', methods.Perm methods' →
      ((∃ c, ranks owner methods' = .error c) ↔
        ∃ c, ranks owner methods = .error c) ∧
      ∀ rs rs', ranks owner methods = .ok rs →
        ranks owner methods' = .ok rs' →
        rs.Perm rs' ∧ ∀ m ∈ methods, indexOf rs m = indexOf rs' m := by
  have canonical : Canonical methods := by
    intro m member
    obtain ⟨s, read⟩ := parsed m member
    exact (MethodDescriptor.parse_eq_ok_iff.mp read).1
  refine ⟨?_, fun c => refused_of_ranks canonical,
    fun rs => ranked_of_ranks canonical few, ?_⟩
  · rw [exists_ranks_eq_error_iff canonical, not_distinct_iff]
  · intro methods' perm
    have canonical' : Canonical methods' :=
      fun m member => canonical m (perm.mem_iff.mpr member)
    have few' : ∀ name,
        methods'.countP (fun m => m.name = name) < 65536 := by
      intro name
      rw [← perm.countP_eq]
      exact few name
    refine ⟨?_, fun rs rs' ranked ranked' => ?_⟩
    · rw [exists_ranks_eq_error_iff canonical,
        exists_ranks_eq_error_iff canonical', distinct_iff_of_perm perm]
    · have left := ranked_of_ranks canonical few ranked
      have right := ranked_of_ranks canonical' few' ranked'
      constructor
      · refine left.complete.trans (.trans ?_ right.complete.symm)
        simp only [rankAmong_eq_of_perm perm]
        exact perm.map _
      · intro m member
        rw [left.index m member, right.index m (perm.mem_iff.mp member),
          rankAmong_eq_of_perm perm]

/-- A static method with a given name and signature. -/
def staticMethod (name : String) (params : List TypeDescriptor)
    (ret : TypeDescriptor) : Method :=
  .ofName name ⟨params, ret⟩ ⟨true, false, false⟩

/-- Overloads of which one has a `)` in the name of a class. -/
def rankedMethods : List Method :=
  [staticMethod "f" [.primitive .int] .void, staticMethod "g" [] .void,
    staticMethod "f" [.object ⟨"a)b"⟩] .void,
    staticMethod "f" [] (.primitive .int)]

/-- Methods with two clashes; that of the name declared first is the later. -/
def refusedMethods : List Method :=
  [staticMethod "f" [.primitive .int] .void, staticMethod "g" [] .void,
    staticMethod "g" [] (.primitive .int),
    staticMethod "f" [.primitive .int] (.primitive .int)]

theorem ranks_stable_refused :
    (∃ rs, ranks ⟨"a/B"⟩ rankedMethods = .ok rs ∧
      Ranked rankedMethods rs ∧
      rankedMethods.map (indexOf rs) =
        [some 1, none, some 2, some 0]) ∧
    ∃ c, ranks ⟨"a/B"⟩ refusedMethods = .error c ∧
      Refused ⟨"a/B"⟩ refusedMethods c ∧ c.method = "f" := by
  have canonical : Canonical rankedMethods := by decide
  have canonical' : Canonical refusedMethods := by decide
  have few : ∀ ms : List Method, ms.length < 65536 →
      ∀ name, ms.countP (fun m => m.name = name) < 65536 :=
    fun _ short _ => List.countP_le_length.trans_lt short
  obtain ⟨-, -, ranked, -⟩ := ranks_stable ⟨"a/B"⟩
    (fun m member => ⟨_, (canonical m member).parse_encode⟩)
    (few _ (by decide))
  obtain ⟨fails, refused, -, -⟩ := ranks_stable ⟨"a/B"⟩
    (fun m member => ⟨_, (canonical' m member).parse_encode⟩)
    (few _ (by decide))
  have ok : ranks ⟨"a/B"⟩ rankedMethods = .ok _ :=
    (ranks_eq_ok_iff canonical).mpr ⟨by decide, rfl⟩
  have clash : Clashing refusedMethods "f" :=
    ⟨staticMethod "f" [.primitive .int] .void,
      staticMethod "f" [.primitive .int] (.primitive .int),
      by decide, rfl, rfl, rfl⟩
  obtain ⟨c, error⟩ := fails.mpr ⟨"f", clash⟩
  refine ⟨⟨_, ok, ranked _ ok, ?_⟩, c, error, refused c error, ?_⟩
  · rw [List.map_congr_left (ranked _ ok).index]
    decide
  · obtain ⟨before, m, behind, split, named, -, free⟩ :=
      (refused c error).first
    cases before with
    | nil =>
        cases split
        exact named.symm
    | cons o before =>
        obtain rfl := (List.cons.inj split).1
        exact absurd clash (free _ List.mem_cons_self)

end Results

end Overload
end NativeGlue
